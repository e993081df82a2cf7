import MonkeyFront.Lexeme
import MonkeyFront.Text.Blank
import MonkeyFront.Text.Letter
import MonkeyFront.Text.Quoted

/-!
# Scanning a source text

A cursor stands in a source text and yields one token a step. Blanks separate tokens; a token is an
operator (the two-character ones first), a longest run of letters, a longest run of digits, or an
illegal character that begins none of these. A run of digits that writes no number is a scan error,
and the cursor goes on behind it.
-/

namespace MonkeyFront

/-- A run of digits that writes no number, and where it begins. -/
structure ScanError where
  run : String
  position : Position
  deriving DecidableEq, Repr

def ScanError.message (e : ScanError) : String :=
  "digit run " ++ quoted e.run ++ " is not a base-10 integer"

abbrev Scanned := Except ScanError Token

/-- The text of the first token of a text that begins with `c`, which is not blank and begins no
operator of two characters, and the text behind it. -/
def munchRun (c : Char) (rest : List Char) : List Char × List Char :=
  if (Kind.sign? c).isSome then ([c], rest)
  else if isLetter c then (c :: rest.takeWhile isLetter, rest.dropWhile isLetter)
  else if isDigit c then (c :: rest.takeWhile isDigit, rest.dropWhile isDigit)
  else ([c], rest)

/-- The text of the first token of a text that begins with `c`, which is not blank, and the text
behind it. -/
def munch (c : Char) (rest : List Char) : List Char × List Char :=
  match rest with
  | '=' :: behind => if c = '=' || c = '!' then ([c, '='], behind) else munchRun c rest
  | _ => munchRun c rest

theorem munchRun_append (c : Char) (rest : List Char) :
    (munchRun c rest).1 ++ (munchRun c rest).2 = c :: rest := by
  unfold munchRun
  split
  · rfl
  split
  · simp [List.takeWhile_append_dropWhile]
  split
  · simp [List.takeWhile_append_dropWhile]
  · rfl

theorem length_munchRun_le (c : Char) (rest : List Char) :
    (munchRun c rest).2.length ≤ rest.length := by
  unfold munchRun
  split
  · exact Nat.le_refl _
  split
  · exact (List.dropWhile_sublist _).length_le
  split
  · exact (List.dropWhile_sublist _).length_le
  · exact Nat.le_refl _

theorem munch_append (c : Char) (rest : List Char) :
    (munch c rest).1 ++ (munch c rest).2 = c :: rest := by
  unfold munch
  split
  · split
    · rfl
    · exact munchRun_append _ _
  · exact munchRun_append _ _

theorem length_munch_le (c : Char) (rest : List Char) :
    (munch c rest).2.length ≤ rest.length := by
  unfold munch
  split
  · split
    · exact Nat.le_succ _
    · exact length_munchRun_le _ _
  · exact length_munchRun_le _ _

/-- The kind of a token's text: a character that begins no other token is illegal. -/
def munchedKind (text : List Char) : Kind :=
  match text with
  | [] => .illegal
  | c :: _ =>
    if (Kind.sign? c).isSome || isLetter c || isDigit c then Kind.ofText text else .illegal

/-- A place in a source text and the text from there on. -/
structure Cursor where
  rest : List Char
  position : Position
  deriving DecidableEq, Repr

namespace Cursor

def ofText (source : String) : Cursor := ⟨source.toList, .origin⟩

/-- The cursor behind the blanks that it stands before. -/
def skipBlanks (c : Cursor) : Cursor :=
  ⟨c.rest.dropWhile isBlank, c.position.afterAll (c.rest.takeWhile isBlank)⟩

/-- The token or scan error at a cursor, and the cursor behind it. -/
def next (c : Cursor) : Scanned × Cursor :=
  let c := c.skipBlanks
  match c.rest with
  | [] => (.ok (.endOfInput c.position), c)
  | head :: tail =>
    let (text, rest) := munch head tail
    let behind : Cursor := ⟨rest, c.position.afterAll text⟩
    if isDigit head && (number? text).isNone then
      (.error ⟨String.ofList text, c.position⟩, behind)
    else
      (.ok ⟨⟨munchedKind text, String.ofList text⟩, ⟨c.position, behind.position⟩⟩, behind)

/-- Before the end of input nothing but the end of input is yielded, and the cursor stays there. -/
theorem next_of_rest_eq_nil {c : Cursor} (h : c.skipBlanks.rest = []) :
    c.next = (.ok (.endOfInput c.skipBlanks.position), c.skipBlanks) := by
  simp only [next, h]

/-- Before a character the first token that begins with it is yielded, and the cursor goes on behind
this; a run of digits that writes no number is a scan error. -/
theorem next_of_rest_eq_cons {c : Cursor} {head : Char} {tail : List Char}
    (h : c.skipBlanks.rest = head :: tail) : c.next =
      (if isDigit head && (number? (munch head tail).1).isNone then
        .error ⟨String.ofList (munch head tail).1, c.skipBlanks.position⟩
      else .ok ⟨⟨munchedKind (munch head tail).1, String.ofList (munch head tail).1⟩,
        ⟨c.skipBlanks.position, c.skipBlanks.position.afterAll (munch head tail).1⟩⟩,
      ⟨(munch head tail).2, c.skipBlanks.position.afterAll (munch head tail).1⟩) := by
  simp only [next, h]
  split <;> rfl

theorem length_next_lt {c : Cursor} (h : c.skipBlanks.rest ≠ []) :
    c.next.2.rest.length < c.rest.length := by
  have blanks : c.skipBlanks.rest.length ≤ c.rest.length := (List.dropWhile_sublist _).length_le
  obtain ⟨head, tail, hrest⟩ := List.exists_cons_of_ne_nil h
  have taken := length_munch_le head tail
  rw [hrest, List.length_cons] at blanks
  simp only [next, hrest]
  split <;> exact Nat.lt_of_le_of_lt taken blanks

def steps : Nat → Cursor → List Scanned
  | 0, _ => []
  | n + 1, c => c.next.1 :: steps n c.next.2

/-- The outcomes before the end of input, of which there are at most `n`, and the end of input. -/
def scanWithin : Nat → Cursor → List Scanned × Token
  | 0, c => ([], .endOfInput c.position)
  | n + 1, c =>
    match c.next with
    | (.error e, behind) =>
      let (items, last) := scanWithin n behind
      (.error e :: items, last)
    | (.ok token, behind) =>
      if token.kind = .eof then ([], token)
      else
        let (items, last) := scanWithin n behind
        (.ok token :: items, last)

end Cursor

/-- Everything that a source text yields: the outcomes before the end of input, and the token for
the end of input, which is yielded from then on. -/
structure Scan where
  items : List Scanned
  last : Token
  deriving Repr

namespace Scan

/-- The scan of a source text. Each outcome takes a character at least. -/
def ofText (source : String) : Scan :=
  let (items, last) := (Cursor.ofText source).scanWithin (source.length + 1)
  ⟨items, last⟩

end Scan

/-- All tokens of a source text, the end of input included, or the first scan error. -/
def tokenize (source : String) : Except ScanError (List Token) := do
  let scan := Scan.ofText source
  return (← scan.items.mapM id) ++ [scan.last]

end MonkeyFront
