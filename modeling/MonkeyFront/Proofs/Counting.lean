import Mathlib.Logic.Function.Iterate
import MonkeyFront.Proofs.Offsets

/-!
# Reading character by character

A reader keeps the character that it looks at, and counts lines and columns as it reads on: it takes
note of a line feed only when it leaves it, and of the end of input only when it gets there. It
yields what a cursor yields (`Reader.next_cursor`).
-/

namespace MonkeyFront

/-- A reader: the text, the offset of the character that it looks at and that of the next one, the
character, unless there is none, whether the input has ended, and the line and the column of the
character. -/
structure Reader where
  text : List Char
  pos : Nat
  readPos : Nat
  char : Option Char
  ended : Bool
  line : Int
  column : Int
  deriving DecidableEq, Repr

namespace Reader

def leaveChar (r : Reader) : Reader :=
  if r.char = some '\n' then { r with line := r.line + 1, column := 1 }
  else { r with column := r.column + 1 }

def readChar (r : Reader) : Reader :=
  if r.ended then r
  else if r.text.length ≤ r.readPos then
    { r.leaveChar with
      pos := r.text.length
      readPos := r.text.length + 1
      char := none
      ended := true }
  else
    { r.leaveChar with
      pos := r.readPos
      readPos := r.readPos + 1
      char := r.text[r.readPos]? }

def ofText (source : String) : Reader :=
  readChar ⟨source.toList, 0, 0, none, false, 1, 0⟩

/-- The character behind the one that the reader looks at. -/
def peekChar (r : Reader) : Option Char := r.text[r.readPos]?

/-- The place of the character that the reader looks at. -/
def position (r : Reader) : Position := ⟨r.line, r.column, r.pos⟩

/-- Reads on while the characters are of a class, `n` of them at most. -/
def readWhile (accept : Char → Bool) : Nat → Reader → Reader
  | 0, r => r
  | n + 1, r => if !r.ended && r.char.any accept then readWhile accept n r.readChar else r

def skipBlanks (r : Reader) : Reader := r.readWhile isBlank r.text.length

def readRun (accept : Char → Bool) (r : Reader) : List Char × Reader :=
  let behind := r.readWhile accept r.text.length
  ((r.text.drop r.pos).take (behind.pos - r.pos), behind)

def tokenTo (r behind : Reader) (lexeme : Lexeme) : Scanned × Reader :=
  (.ok ⟨lexeme, ⟨r.position, behind.position⟩⟩, behind)

def endHere (r : Reader) : Scanned × Reader := (.ok (.endOfInput r.position), r)

/-- Reads the lexeme that begins with the character that the reader looks at. -/
def readLexeme (r : Reader) (c : Char) : Scanned × Reader :=
  if (c = '=' ∨ c = '!') ∧ r.peekChar = some '=' then
    r.tokenTo r.readChar.readChar (.ofText (String.ofList [c, '=']))
  else if (Kind.sign? c).isSome then r.tokenTo r.readChar (.ofText (String.ofList [c]))
  else if isLetter c then
    let (word, behind) := r.readRun isLetter
    r.tokenTo behind (.ofText (String.ofList word))
  else if isDigit c then
    let (run, behind) := r.readRun isDigit
    if (number? run).isNone then (.error ⟨String.ofList run, r.position⟩, behind)
    else r.tokenTo behind ⟨.int, String.ofList run⟩
  else r.tokenTo r.readChar ⟨.illegal, String.ofList [c]⟩

/-- The token or scan error at a reader, and the reader behind it. -/
def next (r : Reader) : Scanned × Reader :=
  if r.ended then r.endHere
  else
    let r := r.skipBlanks
    match r.char with
    | none => r.endHere
    | some c => r.readLexeme c

def after (i : Nat) (r : Reader) : Reader := (fun r => r.next.2)^[i] r

/-! ### Counters -/

/-- The counters of a reader are those of its offset: the next character is read behind it, and
line and column are its place. -/
structure Counts (r : Reader) : Prop where
  pos_le : r.pos ≤ r.text.length
  readPos : r.readPos = r.pos + 1
  char : r.char = r.text[r.pos]?
  ended : r.ended = true ↔ r.pos = r.text.length
  position : r.position = .ofOffset r.text r.pos

def cursor (r : Reader) : Cursor := .atOffset r.text r.pos

lemma leaveChar_eq {r : Reader} {c : Char} (h : r.char = some c) : r.leaveChar =
    { r with line := (r.position.after c).line, column := (r.position.after c).column } := by
  rw [leaveChar, h, Position.after]
  by_cases hc : c = '\n'
  · rw [if_pos hc, if_pos (by rw [hc])]
    rfl
  · rw [if_neg hc, if_neg (by simpa using hc)]
    rfl

lemma text_readChar (r : Reader) : r.readChar.text = r.text := by
  unfold readChar leaveChar
  split_ifs <;> rfl

lemma readChar_of_ended {r : Reader} (h : r.ended = true) : r.readChar = r := if_pos h

lemma counts_ofText (source : String) :
    (ofText source).Counts ∧ (ofText source).text = source.toList ∧ (ofText source).pos = 0 := by
  unfold ofText
  generalize source.toList = text
  cases text with
  | nil => exact ⟨⟨Nat.le_refl 0, rfl, rfl, iff_of_true rfl rfl, rfl⟩, rfl, rfl⟩
  | cons c text =>
    refine ⟨⟨Nat.zero_le _, rfl, rfl, iff_of_false Bool.false_ne_true ?_, rfl⟩, rfl, rfl⟩
    exact (Nat.succ_ne_zero text.length).symm

lemma cursor_ofText (source : String) : (ofText source).cursor = .ofText source := by
  obtain ⟨-, htext, hpos⟩ := counts_ofText source
  rw [cursor, htext, hpos]
  rfl

namespace Counts

variable {r : Reader} {c : Char}

lemma ended_eq_false (h : r.Counts) (hc : r.text[r.pos]? = some c) : r.ended = false := by
  obtain ⟨hlt, -⟩ := List.getElem?_eq_some_iff.1 hc
  rw [Bool.eq_false_iff]
  exact fun he => hlt.ne (h.ended.1 he)

lemma readChar_of_some (h : r.Counts) (hc : r.text[r.pos]? = some c) :
    r.readChar.Counts ∧ r.readChar.pos = r.pos + 1 := by
  have hplace : r.position.after c = .ofOffset r.text (r.pos + 1) := by
    rw [h.position, Position.ofOffset_succ hc]
  obtain ⟨hlt, -⟩ := List.getElem?_eq_some_iff.1 hc
  rw [readChar, if_neg (by rw [h.ended_eq_false hc]; decide), leaveChar_eq (h.char.trans hc),
    hplace, h.readPos]
  split
  · next hle =>
    have hlast : r.pos + 1 = r.text.length := by omega
    refine ⟨⟨Nat.le_refl _, rfl, ?_, iff_of_true rfl rfl, ?_⟩, hlast.symm⟩
    · exact (List.getElem?_eq_none (Nat.le_refl _)).symm
    · rw [hlast]
      rfl
  · next hle =>
    have hnext : r.pos + 1 ≠ r.text.length := by omega
    refine ⟨⟨hlt, rfl, rfl, iff_of_false ?_ hnext, rfl⟩, rfl⟩
    exact (h.ended_eq_false hc).trans_ne Bool.false_ne_true

theorem readChar (h : r.Counts) : r.readChar.Counts := by
  cases hc : r.text[r.pos]? with
  | some c => exact (h.readChar_of_some hc).1
  | none =>
    have hended := h.ended.2 (le_antisymm h.pos_le (List.getElem?_eq_none_iff.1 hc))
    rwa [readChar_of_ended hended]

end Counts

/-! ### Runs -/

/-- The reader `r'` has come from `r` by reading characters, over the run of the text. -/
structure Goes (r : Reader) (run : List Char) (r' : Reader) : Prop where
  counts : r'.Counts
  text : r'.text = r.text
  pos : r'.pos = r.pos + run.length
  run : run <+: r.text.drop r.pos
  reads : ∃ n, r' = readChar^[n] r

namespace Goes

variable {r r' r'' : Reader} {run run' : List Char}

lemma refl (h : r.Counts) : r.Goes [] r := ⟨h, rfl, rfl, List.nil_prefix, 0, rfl⟩

lemma drop_eq (h : r.Goes run r') : r.text.drop r.pos = run ++ r'.text.drop r'.pos := by
  obtain ⟨rest, hrest⟩ := h.run
  rw [h.text, h.pos, ← List.drop_drop, ← hrest, List.drop_left]

lemma trans (h : r.Goes run r') (h' : r'.Goes run' r'') : r.Goes (run ++ run') r'' := by
  obtain ⟨n, hn⟩ := h.reads
  obtain ⟨m, hm⟩ := h'.reads
  refine ⟨h'.counts, h'.text.trans h.text, ?_, ?_, m + n, ?_⟩
  · rw [h'.pos, h.pos, List.length_append, Nat.add_assoc]
  · rw [h.drop_eq]
    exact (List.prefix_append_right_inj run).2 h'.run
  · rw [hm, hn, Function.iterate_add_apply]

lemma cursor_eq (h : r.Goes run r') :
    r'.cursor = ⟨r'.text.drop r'.pos, (Position.ofOffset r.text r.pos).afterAll run⟩ := by
  rw [Position.afterAll_ofOffset h.drop_eq, ← h.pos, ← h.text]
  rfl

end Goes

lemma Counts.goes_readChar {r : Reader} {c : Char} (h : r.Counts) (hc : r.text[r.pos]? = some c) :
    r.Goes [c] r.readChar := by
  obtain ⟨hcounts, hpos⟩ := h.readChar_of_some hc
  refine ⟨hcounts, text_readChar r, hpos, ?_, 1, rfl⟩
  obtain ⟨hlt, rfl⟩ := List.getElem?_eq_some_iff.1 hc
  rw [List.drop_eq_getElem_cons hlt]
  exact ⟨_, rfl⟩

/-- A reader that reads on while characters are of a class goes over the longest run of them. -/
lemma Counts.goes_readWhile (accept : Char → Bool) {r : Reader} (h : r.Counts) (n : Nat)
    (hn : r.text.length - r.pos ≤ n) :
    r.Goes ((r.text.drop r.pos).takeWhile accept) (r.readWhile accept n) := by
  induction n generalizing r with
  | zero =>
    rw [List.drop_eq_nil_of_le (by omega)]
    exact .refl h
  | succ n ih =>
    rw [readWhile, h.char]
    cases hc : r.text[r.pos]? with
    | none =>
      rw [List.drop_eq_nil_of_le (List.getElem?_eq_none_iff.1 hc), Option.any_none, Bool.and_false]
      exact .refl h
    | some c =>
      obtain ⟨hlt, hc'⟩ := List.getElem?_eq_some_iff.1 hc
      have hgoes := h.goes_readChar hc
      rw [h.ended_eq_false hc, List.drop_eq_getElem_cons hlt, hc', Option.any_some]
      cases ha : accept c with
      | false =>
        rw [List.takeWhile_cons_of_neg (by rw [ha]; decide)]
        exact .refl h
      | true =>
        rw [List.takeWhile_cons_of_pos ha]
        have hrest := ih hgoes.counts (by rw [hgoes.text, hgoes.pos, List.length_singleton]; omega)
        rw [hgoes.text, hgoes.pos] at hrest
        exact hgoes.trans hrest

/-! ### Lexemes -/

section Lexemes

variable {r : Reader} {c : Char} {rest : List Char}

lemma Counts.readRun_eq (h : r.Counts) (accept : Char → Bool) :
    (r.readRun accept).1 = (r.text.drop r.pos).takeWhile accept ∧
      r.Goes ((r.text.drop r.pos).takeWhile accept) (r.readRun accept).2 := by
  have hgoes := h.goes_readWhile accept r.text.length (Nat.sub_le _ _)
  refine ⟨?_, hgoes⟩
  rw [readRun, hgoes.pos, Nat.add_sub_cancel_left]
  exact (List.prefix_iff_eq_take.1 hgoes.run).symm

lemma Goes.position {r' : Reader} {run : List Char} (h : r.Goes run r') (hr : r.Counts) :
    r'.position = r.position.afterAll run := by
  rw [h.counts.position, hr.position, Position.afterAll_ofOffset h.drop_eq, h.text, h.pos]

/-- What a cursor yields that takes the text of a lexeme, which begins with `c`. -/
def yielded (r : Reader) (c : Char) (text : List Char) : Scanned :=
  if isDigit c && (number? text).isNone then .error ⟨String.ofList text, r.position⟩
  else .ok ⟨⟨munchedKind text, String.ofList text⟩, ⟨r.position, r.position.afterAll text⟩⟩

lemma Goes.tokenTo_eq {r' : Reader} {text : List Char} {lexeme : Lexeme} (h : r.Goes text r')
    (hr : r.Counts) (hlexeme : lexeme = ⟨munchedKind text, String.ofList text⟩)
    (hnumber : (isDigit c && (number? text).isNone) = false) :
    r.tokenTo r' lexeme = (r.yielded c text, r') := by
  rw [yielded, if_neg (by rw [hnumber]; decide), tokenTo, h.position hr, hlexeme]

lemma ofText_eq_munched {text : List Char}
    (h : ((Kind.sign? c).isSome || isLetter c || isDigit c) = true) :
    Lexeme.ofText (String.ofList (c :: text)) =
      ⟨munchedKind (c :: text), String.ofList (c :: text)⟩ := by
  rw [Lexeme.ofText, String.toList_ofList, munchedKind_cons, if_pos h]

lemma munchedKind_digits {run : List Char} (h : ∀ d ∈ c :: run, isDigit d = true) :
    munchedKind (c :: run) = .int := by
  have hc := h c List.mem_cons_self
  rw [munchedKind_cons, if_pos (by rw [hc, Bool.or_true]), Kind.ofText, keyword?_eq_none hc,
    operator?_eq_none (.inr hc)]
  simpa using h

lemma Counts.peekChar_eq (h : r.Counts) (hrest : r.text.drop r.pos = c :: rest) :
    r.peekChar = rest.head? := by
  rw [peekChar, h.readPos, ← List.head?_drop, ← List.tail_drop, hrest, List.tail_cons]

lemma Counts.readLexeme_eq (h : r.Counts) (hrest : r.text.drop r.pos = c :: rest) :
    ∃ r', r.Goes (munch c rest).1 r' ∧ r.readLexeme c = (r.yielded c (munch c rest).1, r') := by
  have hc : r.text[r.pos]? = some c := by
    rw [← List.head?_drop, hrest]
    rfl
  have hgoes := h.goes_readChar hc
  have notPair (hs : Kind.sign? c = none) : ¬((c = '=' ∨ c = '!') ∧ rest.head? = some '=') := by
    rintro ⟨rfl | rfl, -⟩ <;> cases hs
  rcases munch_cases c rest with ⟨behind, rfl, hequals, hmunch⟩ | ⟨hsign, hsingle, hmunch⟩ |
    ⟨hletter, hmunch⟩ | ⟨hdigit, hmunch⟩ | ⟨hnone, hmunch⟩ <;>
    rw [hmunch, readLexeme, h.peekChar_eq hrest]
  · have hdrop : r.readChar.text.drop r.readChar.pos = '=' :: behind :=
      List.append_cancel_left (hgoes.drop_eq.symm.trans hrest)
    have hnext : r.readChar.text[r.readChar.pos]? = some '=' := by
      rw [← List.head?_drop, hdrop]
      rfl
    have hgoes := hgoes.trans (hgoes.counts.goes_readChar hnext)
    rw [if_pos ⟨hequals, rfl⟩]
    refine ⟨_, hgoes, hgoes.tokenTo_eq h (ofText_eq_munched ?_) ?_⟩ <;>
      rcases hequals with rfl | rfl <;> decide
  · have hdigit := (classes_of_sign hsign).2
    have hsingle : ¬((c = '=' ∨ c = '!') ∧ rest.head? = some '=') := fun h => hsingle h.1 h.2
    simp only [hsingle, hsign, if_false, if_true]
    exact ⟨_, hgoes, hgoes.tokenTo_eq h (ofText_eq_munched (by simp [hsign])) (by simp [hdigit])⟩
  · have hsign := sign?_eq_none (.inl hletter)
    obtain ⟨hrun, hgoes⟩ := h.readRun_eq isLetter
    rw [hrest, List.takeWhile_cons_of_pos hletter] at hrun hgoes
    simp only [notPair hsign, hsign, hletter, hrun, if_false, if_true, Option.isSome_none,
      Bool.false_eq_true]
    exact ⟨_, hgoes, hgoes.tokenTo_eq h (ofText_eq_munched (by simp [hletter]))
      (by simp [not_isDigit_of_isLetter hletter])⟩
  · have hsign := sign?_eq_none (.inr hdigit)
    have hletter := not_isLetter_of_isDigit hdigit
    obtain ⟨hrun, hgoes⟩ := h.readRun_eq isDigit
    rw [hrest, List.takeWhile_cons_of_pos hdigit] at hrun hgoes
    simp only [notPair hsign, hsign, hletter, hdigit, hrun, if_false, if_true,
      Option.isSome_none, Bool.false_eq_true]
    refine ⟨_, hgoes, ?_⟩
    split
    · next hnumber => rw [yielded, if_pos (by simpa [hdigit] using hnumber)]
    · next hnumber =>
      have hall : ∀ d ∈ c :: rest.takeWhile isDigit, isDigit d = true :=
        List.forall_mem_cons.2 ⟨hdigit, fun _ => List.mem_takeWhile_imp⟩
      refine hgoes.tokenTo_eq h (by rw [munchedKind_digits hall]) ?_
      rw [hdigit, Bool.true_and]
      exact Bool.eq_false_iff.2 hnumber
  · simp only [Bool.or_eq_false_iff, Option.isSome_eq_false_iff, Option.isNone_iff_eq_none] at hnone
    obtain ⟨⟨hsign, hletter⟩, hdigit⟩ := hnone
    simp only [notPair hsign, hsign, hletter, hdigit, if_false, Option.isSome_none,
      Bool.false_eq_true]
    refine ⟨_, hgoes, hgoes.tokenTo_eq h ?_ (by simp [hdigit])⟩
    rw [munchedKind_cons, if_neg (by simp [hsign, hletter, hdigit])]

end Lexemes

/-! ### Steps -/

section Steps

variable {r : Reader}

lemma Counts.next_eq (h : r.Counts) : r.next =
    match r.skipBlanks.char with
    | none => r.skipBlanks.endHere
    | some c => r.skipBlanks.readLexeme c := by
  rw [next]
  split
  · next hended =>
    have hskip : r.skipBlanks = r := by
      unfold skipBlanks
      cases r.text.length with
      | zero => rfl
      | succ n => rw [readWhile, hended, Bool.not_true, Bool.false_and, if_neg Bool.false_ne_true]
    rw [hskip, h.char, h.ended.1 hended, List.getElem?_eq_none (Nat.le_refl _)]
  · rfl

/-- A reader and the cursor at its offset yield the same and go on at the same offset. -/
theorem Counts.next_cursor (h : r.Counts) :
    (r.next.1, r.next.2.cursor) = r.cursor.next ∧ ∃ run, r.Goes run r.next.2 := by
  have hblanks : r.Goes _ r.skipBlanks := h.goes_readWhile isBlank r.text.length (Nat.sub_le _ _)
  have hskip : r.cursor.skipBlanks = r.skipBlanks.cursor := by
    rw [cursor, cursor, Cursor.skipBlanks_atOffset, hblanks.text, hblanks.pos]
  have hs := hblanks.counts
  rw [h.next_eq, hs.char]
  cases hc : r.skipBlanks.text[r.skipBlanks.pos]? with
  | none =>
    have hnil : r.cursor.skipBlanks.rest = [] := by
      rw [hskip]
      exact List.drop_eq_nil_of_le (List.getElem?_eq_none_iff.1 hc)
    refine ⟨?_, _, hblanks⟩
    rw [Cursor.next_of_rest_eq_nil hnil, hskip, endHere, hs.position]
    rfl
  | some c =>
    obtain ⟨hlt, hc⟩ := List.getElem?_eq_some_iff.1 hc
    have hrest := List.drop_eq_getElem_cons hlt
    rw [hc] at hrest
    obtain ⟨r', hgoes, hlexeme⟩ := hs.readLexeme_eq hrest
    have hbehind := List.append_cancel_left
      (hgoes.drop_eq.symm.trans (hrest.trans (munch_append c _).symm))
    dsimp only
    rw [hlexeme]
    refine ⟨?_, _, hblanks.trans hgoes⟩
    rw [Cursor.next_of_rest_eq_cons ((congrArg Cursor.rest hskip).trans hrest), hskip, yielded,
      hgoes.cursor_eq, hbehind, hs.position]
    rfl

/-- What a reader yields is read between its offset and the one where it goes on. -/
lemma Counts.yields (h : r.Counts) : Cursor.Yields r.text r.pos r.next.1 r.next.2.pos := by
  obtain ⟨hnext, run, hgoes⟩ := h.next_cursor
  obtain ⟨k, hyields, hbehind⟩ := Cursor.yields_next h.pos_le
  have hpos : r.next.2.pos = k := by
    have := congrArg (·.position.offset) ((congrArg Prod.snd hnext).trans hbehind)
    exact Int.ofNat.inj this
  rw [hpos]
  exact (congrArg Prod.fst hnext) ▸ hyields

lemma Counts.next_of_pos_eq (h : r.Counts) (hpos : r.pos = r.text.length) :
    r.next = (.ok (.endOfInput (.ofOffset r.text r.text.length)), r) := by
  rw [next, if_pos (h.ended.2 hpos), endHere, h.position, hpos]

lemma after_succ (i : Nat) (r : Reader) : r.after (i + 1) = (r.after i).next.2 :=
  Function.iterate_succ_apply' _ i r

lemma after_of_next {i j : Nat} (h : (r.after i).next.2 = r.after i) (hij : i ≤ j) :
    r.after j = r.after i := by
  rw [after, ← Nat.sub_add_cancel hij, Function.iterate_add_apply]
  exact Function.iterate_fixed h _

/-- Whatever it yields, a reader comes to where it is by reading characters. -/
lemma Counts.goes_after (h : r.Counts) (i : Nat) : ∃ run, r.Goes run (r.after i) := by
  induction i with
  | zero => exact ⟨[], .refl h⟩
  | succ i ih =>
    obtain ⟨run, hrun⟩ := ih
    obtain ⟨-, run', hrun'⟩ := hrun.counts.next_cursor
    rw [after_succ]
    exact ⟨_, hrun.trans hrun'⟩

lemma Counts.pos_after_le (h : r.Counts) {i j : Nat} (hij : i ≤ j) :
    (r.after i).pos ≤ (r.after j).pos := by
  refine monotone_nat_of_le_succ (f := fun n => (r.after n).pos) (fun n => ?_) hij
  obtain ⟨_, hn⟩ := h.goes_after n
  obtain ⟨-, _, hgoes⟩ := hn.counts.next_cursor
  rw [after_succ, hgoes.pos]
  exact Nat.le_add_right _ _

lemma Counts.map_next_after (h : r.Counts) (n : Nat) :
    (List.range n).map (fun i => (r.after i).next.1) = r.cursor.steps n := by
  induction n generalizing r with
  | zero => rfl
  | succ n ih =>
    obtain ⟨hnext, _, hgoes⟩ := h.next_cursor
    rw [List.range_succ_eq_map, List.map_cons, List.map_map, Cursor.steps, ← hnext]
    exact congrArg _ (ih hgoes.counts)

end Steps

/-! ### Places -/

/-- What is yielded at the call number `i` on one reader of a source text. -/
def outcome (source : String) (i : Nat) : Scanned := ((ofText source).after i).next.1

/-- Places are functions of offsets, however often a reader of a source text is called: whatever it
does, it does by reading characters, and after each of them the next character is the one behind
the offset and the counters are its place. What is yielded has no other places, stands in one line,
and begins behind what is yielded before; and the end of input is yielded for ever, with the reader
left as it is. -/
theorem places_by_offset (source : String) :
    (∀ n, (readChar^[n] (ofText source)).Counts) ∧
    (∀ i, ∃ n, (ofText source).after i = readChar^[n] (ofText source)) ∧
    (∀ n, (List.range n).map (outcome source) = (Cursor.ofText source).steps n) ∧
    ∀ i,
      (∀ p ∈ placesOf (outcome source i), ∃ k ≤ source.length, p = .ofOffset source.toList k) ∧
      (∀ t, outcome source i = .ok t → t.span.start.line = t.span.stop.line ∧
        t.span.stop.column - t.span.start.column = t.literal.length) ∧
      (∀ j > i, ∀ p ∈ startOf? (outcome source i), ∀ q ∈ startOf? (outcome source j),
        p.offset < q.offset) ∧
      (∀ t, outcome source i = .ok t → t.kind = .eof → ∀ j > i,
        outcome source j = .ok t ∧ (ofText source).after j = (ofText source).after (i + 1)) := by
  obtain ⟨hcounts, htext, -⟩ := counts_ofText source
  have hafter (i : Nat) : ((ofText source).after i).Counts ∧
      ((ofText source).after i).text = source.toList := by
    obtain ⟨_, hgoes⟩ := hcounts.goes_after i
    exact ⟨hgoes.counts, hgoes.text.trans htext⟩
  have hyields (i : Nat) : Cursor.Yields source.toList ((ofText source).after i).pos
      (outcome source i) ((ofText source).after (i + 1)).pos := by
    rw [after_succ, ← (hafter i).2]
    exact (hafter i).1.yields
  refine ⟨fun n => ?counts, fun i => ?reads, fun n => ?steps, fun i =>
    ⟨?places, fun t => (hyields i).inline, fun j hj p hp q hq => ?ascending,
      fun t ht hk j hj => ?ending⟩⟩
  case counts =>
    induction n with
    | zero => exact hcounts
    | succ n ih =>
      rw [Function.iterate_succ_apply']
      exact ih.readChar
  case reads =>
    obtain ⟨_, hgoes⟩ := hcounts.goes_after i
    exact hgoes.reads
  case steps =>
    have := hcounts.map_next_after n
    rwa [cursor_ofText] at this
  case places =>
    rw [← String.length_toList]
    exact (hyields i).places
  case ascending =>
    have hle := hcounts.pos_after_le (show i + 1 ≤ j from hj)
    have hp := ((hyields i).start hp).2
    have hq := ((hyields j).start hq).1
    omega
  case ending =>
    obtain ⟨hpos, rfl⟩ := (hyields i).of_eof ht hk
    obtain ⟨hend, hsame⟩ := hafter (i + 1)
    have hnext := hend.next_of_pos_eq (by rw [hsame, hpos])
    have hfixed := after_of_next (congrArg Prod.snd hnext) (show i + 1 ≤ j from hj)
    refine ⟨?_, hfixed⟩
    rw [outcome, hfixed, hnext, hsame]

/-- The last line feed of a text is counted when the reader leaves it. -/
example : outcome "1\n²\n" 2 = .ok (.endOfInput ⟨3, 1, 4⟩) := by
  decide +kernel

end Reader

end MonkeyFront
