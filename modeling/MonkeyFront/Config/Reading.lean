import MonkeyFront.Config.Fault
import MonkeyFront.Config.Scalar
import MonkeyFront.Scan

/-!
# Reading keys and values

The keys and values of a configuration document: bare and quoted keys, dotted paths, texts on one
line or several with and without escapes, lists, inline tables, numbers and moments. A reader moves
a cursor through the document and stops at the first fault. Values nest, but not without a bound.
-/

namespace MonkeyFront

namespace Cursor

def drop (c : Cursor) (n : Nat) : Cursor :=
  ⟨c.rest.drop n, c.position.afterAll (c.rest.take n)⟩

/-- The cursor behind the characters that satisfy `p`. -/
def dropWhile (c : Cursor) (p : Char → Bool) : Cursor :=
  ⟨c.rest.dropWhile p, c.position.afterAll (c.rest.takeWhile p)⟩

end Cursor

end MonkeyFront

namespace MonkeyFront.Config

abbrev Reading := StateT Cursor (Except Fault)

def faultAt (c : Cursor) (cause : FaultCause) : Fault :=
  .malformed cause (if c.rest.isEmpty then none else some c.position)

def failWith {α : Type} (cause : FaultCause) : Reading α := do throw (faultAt (← get) cause)

def ahead : Reading (List Char) := return (← get).rest

def skip (n : Nat) : Reading Unit := modify (·.drop n)

/-- Moves to a place behind the cursor, given by the text that is left there. -/
def skipTo (rest : List Char) : Reading Unit := modify fun c => c.drop (c.rest.length - rest.length)

/-- Moves over the characters that satisfy `p` and yields them. -/
def takeChars (p : Char → Bool) : Reading (List Char) := do
  let c ← get
  set (c.dropWhile p)
  return c.rest.takeWhile p

def skipChars (p : Char → Bool) : Reading Unit := modify (·.dropWhile p)

def isSpacing (c : Char) : Bool := c = ' ' || c = '\t'

def isSpacingOrLine (c : Char) : Bool := isSpacing c || c = '\n'

/-- A control character other than the tab, which may stand in no comment and no text of one
line. -/
def isControl (c : Char) : Bool := (c.toNat < 0x20 && c != '\t') || c.toNat = 0x7F

/-- A control character other than the tab and the line feed, which may stand in no text. -/
def isControlInLines (c : Char) : Bool := isControl c && c != '\n'

def isBareKeyChar (c : Char) : Bool :=
  isPlainDigit c || ('a' ≤ c && c ≤ 'z') || ('A' ≤ c && c ≤ 'Z') || c = '-' || c = '_'

/-- The text before the first occurrence of `mark`, if there is one. -/
def before? (mark : List Char) : List Char → Option (List Char)
  | [] => if mark.isEmpty then some [] else none
  | c :: rest =>
    if mark.isPrefixOf (c :: rest) then some [] else (before? mark rest).map (c :: ·)

/-- Moves over a text without the characters that satisfy `bad`. -/
def skipClean (bad : Char → Bool) (text : List Char) : Reading Unit := do
  match text.find? bad with
  | some c => do
    skip (text.takeWhile fun d => !bad d).length
    failWith (.invalidCharacter c)
  | none => skip text.length

/-- Moves over a comment, if one begins here, to the end of its line. -/
def skipComment : Reading Unit := do
  match ← ahead with
  | '#' :: rest => do
    skip 1
    skipClean isControl (rest.takeWhile (· != '\n'))
  | _ => pure ()

/-- Moves over blank space, line ends and comments, at most `n` times. -/
def skipLayout : Nat → Reading Unit
  | 0 => pure ()
  | n + 1 => do
    let before ← ahead
    skipChars isSpacingOrLine
    skipComment
    if (← ahead).length < before.length then skipLayout n

/-- Moves over blank space, line ends and comments. -/
def layout : Reading Unit := do skipLayout ((← ahead).length + 1)

/-- Reads the text up to a mark that ends it, and the mark. -/
def literalUpTo (mark : List Char) (bad : Char → Bool) : Reading (List Char) := do
  let rest ← ahead
  match before? mark rest with
  | none => do
    skip rest.length
    failWith (.literalOpen (String.ofList mark))
  | some text => do
    skipClean bad text
    skip mark.length
    return text

/-- The character that a hexadecimal code of `width` digits stands for. -/
def codedChar (width : Nat) : Reading (List Char) := do
  let digits := (← ahead).take width
  if digits.length = width && digits.all isHexDigit then
    skip width
    let code := digits.foldl (fun n c => n * 16 + hexValue c) 0
    if code < 0xD800 || (0xE000 ≤ code && code < 0x110000) then return [Char.ofNat code]
    else failWith .noScalar
  else failWith .noHexadecimal

/-- Moves over the line end that a backslash hides, and over the blank space around it. -/
def hiddenLineEnd : Reading (List Char) := do
  skipChars isSpacing
  match ← ahead with
  | [] => return []
  | '\n' :: _ => do
    skip 1
    skipChars isSpacingOrLine
    return []
  | _ => failWith .strayBackslash

def escapeSequence (multiline : Bool) : Reading (List Char) := do
  match ← ahead with
  | [] => failWith .strayBackslash
  | c :: _ => do
    if multiline && c = '\n' then
      skip 1
      skipChars isSpacingOrLine
      return []
    else if multiline && isSpacing c then
      skip 1
      hiddenLineEnd
    else do
      skip 1
      match c with
      | 'b' => return ['\x08']
      | 't' => return ['\t']
      | 'n' => return ['\n']
      | 'f' => return ['\x0c']
      | 'r' => return ['\r']
      | '"' => return ['"']
      | '\\' => return ['\\']
      | 'u' => codedChar 4
      | 'U' => codedChar 8
      | _ => failWith .strayBackslash

/-- Reads a text with escapes up to its closing quote, at most `n` pieces of it. -/
def escapedTextWithin (multiline : Bool) : Nat → Reading (List Char)
  | 0 => failWith .textOpen
  | n + 1 => do
    match ← ahead with
    | [] => failWith .textOpen
    | '"' :: '"' :: '"' :: _ => do
      if multiline then
        skip 3
        return []
      else
        skip 1
        return []
    | '"' :: _ => do
      skip 1
      if multiline then return '"' :: (← escapedTextWithin multiline n) else return []
    | '\\' :: _ => do
      skip 1
      let piece ← escapeSequence multiline
      return piece ++ (← escapedTextWithin multiline n)
    | c :: _ => do
      if if multiline then isControlInLines c else isControl c then failWith (.illegalCharacter c)
      skip 1
      return c :: (← escapedTextWithin multiline n)

/-- Reads a text with escapes, behind its opening quote. -/
def escapedText (multiline : Bool) : Reading (List Char) := do
  escapedTextWithin multiline ((← ahead).length + 1)

/-- Reads up to two quotes that follow a text of several lines and belong to it. -/
def trailingQuotes (quote : Char) : Reading (List Char) := do
  let quotes := (← ahead).take 2 |>.takeWhile (· == quote)
  skip quotes.length
  return quotes

def skipLineFeed : Reading Unit := do
  if (← ahead).head? = some '\n' then skip 1

/-- Reads a text that begins here, of one line or of several. -/
def textValue : Reading (List Char) := do
  match ← ahead with
  | '"' :: '"' :: '"' :: _ => do
    skip 3
    skipLineFeed
    let text ← escapedText true
    return text ++ (← trailingQuotes '"')
  | '\'' :: '\'' :: '\'' :: _ => do
    skip 3
    skipLineFeed
    let text ← literalUpTo ['\'', '\'', '\''] isControlInLines
    return text ++ (← trailingQuotes '\'')
  | '"' :: _ => do
    skip 1
    escapedText false
  | '\'' :: _ => do
    skip 1
    literalUpTo ['\''] isControl
  | _ => failWith .noValue

def keyPart : Reading String := do
  match ← ahead with
  | '\'' :: _ => do
    skip 1
    return String.ofList (← literalUpTo ['\''] isControl)
  | '"' :: _ => do
    skip 1
    return String.ofList (← escapedText false)
  | c :: _ =>
    if isBareKeyChar c then return String.ofList (← takeChars isBareKeyChar) else failWith .noKey
  | [] => failWith .noKey

/-- Reads the keys of a path that follow the first one, at most `n` of them. -/
def moreKeyParts : Nat → Reading KeyPath
  | 0 => pure []
  | n + 1 => do
    match ← ahead with
    | '.' :: _ => do
      skip 1
      skipChars isSpacing
      let key ← keyPart
      skipChars isSpacing
      return key :: (← moreKeyParts n)
    | _ => return []

/-- Reads a path of keys with points between them, and the blank space behind it. -/
def keyPath : Reading KeyPath := do
  let key ← keyPart
  skipChars isSpacing
  return key :: (← moreKeyParts (← ahead).length)

def scalarValue : Reading Value := do
  let text ← ahead
  let written (rest : List Char) : String := String.ofList (text.take (text.length - rest.length))
  if ['t', 'r', 'u', 'e'].isPrefixOf text then
    skip 4
    return .truth true
  else if ['f', 'a', 'l', 's', 'e'].isPrefixOf text then
    skip 5
    return .truth false
  else
    match dateAt? text with
    | some (valid, rest) => do
      unless valid do failWith .invalidMoment
      skipTo rest
      return .moment (written rest)
    | none =>
      match afterTime? text with
      | some rest => do
        skipTo rest
        return .moment (written rest)
      | none =>
        match numberAt? text with
        | some (form, rest) => do
          let digits := (written rest).toList.countP isPlainDigit
          if form = .whole && numberLimit < digits then throw (.excessive (.longNumber digits))
          skipTo rest
          return .number (written rest)
        | none =>
          match afterSpecialNumber? text with
          | some rest => do
            skipTo rest
            return .number (written rest)
          | none => failWith .noValue

/-- Reads a key, the sign behind it and the value that `value` reads. -/
def keyAndValue (value : Reading Value) : Reading (KeyPath × Value) := do
  let path ← keyPath
  match ← ahead with
  | '=' :: _ => do
    skip 1
    skipChars isSpacing
    return (path, ← value)
  | _ => failWith .noEquals

/-- Reads the items of a list up to its closing bracket, at most `n` of them. -/
def listItems (value : Reading Value) : Nat → Reading (List Value)
  | 0 => failWith .listOpen
  | n + 1 => do
    match ← ahead with
    | ']' :: _ => do
      skip 1
      return []
    | _ => do
      let item ← value
      layout
      match ← ahead with
      | ']' :: _ => do
        skip 1
        return [item]
      | ',' :: _ => do
        skip 1
        layout
        return item :: (← listItems value n)
      | _ => failWith .listOpen

/-- Whether a path leads into one of the given places or is one of them. -/
def isWithin (places : List KeyPath) (path : KeyPath) : Bool := places.any (·.isPrefixOf path)

/-- Reads the entries of an inline table up to its closing brace, at most `n` of them, into the
table of the entries before; `closed` are the paths of its lists and tables. -/
def inlineEntries (value : Reading Value) : Nat → List KeyPath → Table → Reading Table
  | 0, _, _ => failWith .inlineTableOpen
  | n + 1, closed, entries => do
    let (path, item) ← keyAndValue value
    if isWithin closed path then failWith (.immutable path)
    let key := path.getLastD ""
    let place ← match Table.changeAt false some path.dropLast entries with
      | some table => pure table
      | none => failWith .overwritten
    match Table.changeAt false (fun t => if t.has key then none else some (t.add key item))
        path.dropLast place with
    | none => failWith (.duplicateKey key)
    | some entries => do
      skipChars isSpacing
      match ← ahead with
      | '\x7d' :: _ => do
        skip 1
        return entries
      | ',' :: _ => do
        skip 1
        skipChars isSpacing
        inlineEntries value n (if item.isCompound then path :: closed else closed) entries
      | _ => failWith .inlineTableOpen

def valueNestingBound : Nat := 450

/-- Reads a value in which fewer than `n` lists and tables are nested in one another. -/
def valueWithin : Nat → Reading Value
  | 0 => throw (.excessive .deepNesting)
  | n + 1 => do
    match ← ahead with
    | '"' :: _ => return .text (String.ofList (← textValue))
    | '\'' :: _ => return .text (String.ofList (← textValue))
    | '[' :: rest => do
      skip 1
      layout
      return .list (← listItems (valueWithin n) (rest.length + 1))
    | '\x7b' :: rest => do
      skip 1
      skipChars isSpacing
      match ← ahead with
      | '\x7d' :: _ => do
        skip 1
        return .table []
      | _ => return .table (← inlineEntries (valueWithin n) (rest.length + 1) [] [])
    | _ => scalarValue

def anyValue : Reading Value := valueWithin valueNestingBound

end MonkeyFront.Config
