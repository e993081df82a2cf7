import MonkeyFront.Text.Digit

/-!
# Numbers and moments in configuration documents

What of a text is the number or the moment that it begins with. Numbers are whole, in base ten or
with a sign of base two, eight or sixteen, or have a fraction or an exponent; between digits a
single underscore may stand. A moment is a date, a time, or a date with a time and perhaps an
offset.
-/

namespace MonkeyFront.Config

/-- A digit of the decimal system in its basic form. -/
def isPlainDigit (c : Char) : Bool := '0' ≤ c && c ≤ '9'

def isHexDigit (c : Char) : Bool :=
  isPlainDigit c || ('a' ≤ c && c ≤ 'f') || ('A' ≤ c && c ≤ 'F')

def hexValue (c : Char) : Nat :=
  if isPlainDigit c then c.toNat - '0'.toNat
  else if 'a' ≤ c && c ≤ 'f' then c.toNat - 'a'.toNat + 10
  else c.toNat - 'A'.toNat + 10

/-- The text behind digits that follow a digit, each perhaps behind an underscore. -/
def afterMoreDigits (digit : Char → Bool) : List Char → List Char
  | '_' :: c :: rest => if digit c then afterMoreDigits digit rest else '_' :: c :: rest
  | c :: rest => if digit c then afterMoreDigits digit rest else c :: rest
  | [] => []

/-- The text behind a group of digits, which has at least one. -/
def afterDigits? (digit : Char → Bool) : List Char → Option (List Char)
  | c :: rest => if digit c then some (afterMoreDigits digit rest) else none
  | [] => none

/-- The text behind a number in base two, eight or sixteen. -/
def afterBasedNumber? : List Char → Option (List Char)
  | '0' :: 'x' :: rest => afterDigits? isHexDigit rest
  | '0' :: 'b' :: rest => afterDigits? (fun c => c = '0' || c = '1') rest
  | '0' :: 'o' :: rest => afterDigits? (fun c => '0' ≤ c && c ≤ '7') rest
  | _ => none

def afterSign : List Char → List Char
  | '+' :: rest => rest
  | '-' :: rest => rest
  | text => text

/-- The text behind the whole part of a number in base ten, which has no leading zeros. -/
def afterWholePart? (text : List Char) : Option (List Char) :=
  match afterSign text with
  | '0' :: rest => some rest
  | rest => afterDigits? isPlainDigit rest

def afterFraction : List Char → List Char
  | '.' :: rest => (afterDigits? isPlainDigit rest).getD ('.' :: rest)
  | text => text

def afterExponent : List Char → List Char
  | c :: rest =>
    if c = 'e' || c = 'E' then (afterDigits? isPlainDigit (afterSign rest)).getD (c :: rest)
    else c :: rest
  | [] => []

inductive NumberForm where
  | based
  | whole
  | fractional
  deriving DecidableEq, Repr

/-- The form of the number that a text begins with, and the text behind it. -/
def numberAt? (text : List Char) : Option (NumberForm × List Char) :=
  match afterBasedNumber? text with
  | some rest => some (.based, rest)
  | none =>
    (afterWholePart? text).map fun whole =>
      let rest := afterExponent (afterFraction whole)
      (if rest.length = whole.length then .whole else .fractional, rest)

/-- The text behind `inf` or `nan` with an optional sign. -/
def afterSpecialNumber? (text : List Char) : Option (List Char) :=
  match afterSign text with
  | 'i' :: 'n' :: 'f' :: rest => some rest
  | 'n' :: 'a' :: 'n' :: rest => some rest
  | _ => none

/-- Two digits that write a number of a range, and the text behind them. -/
def twoDigits? (low high : Nat) : List Char → Option (Nat × List Char)
  | a :: b :: rest =>
    let value := hexValue a * 10 + hexValue b
    if isPlainDigit a && isPlainDigit b && low ≤ value && value ≤ high then some (value, rest)
    else none
  | _ => none

/-- The text behind a character that must come next. -/
def afterChar? (c : Char) : List Char → Option (List Char)
  | d :: rest => if c = d then some rest else none
  | [] => none

def afterTime? (text : List Char) : Option (List Char) := do
  let (_, text) ← twoDigits? 0 23 text
  let (_, text) ← twoDigits? 0 59 (← afterChar? ':' text)
  let (_, text) ← twoDigits? 0 59 (← afterChar? ':' text)
  match text with
  | '.' :: c :: rest => if isPlainDigit c then return rest.dropWhile isPlainDigit else return text
  | _ => return text

def afterOffset (text : List Char) : List Char :=
  match text with
  | [] => []
  | c :: rest =>
    if c = 'Z' || c = 'z' then rest
    else if c = '+' || c = '-' then
      (do
        let (_, rest) ← twoDigits? 0 23 rest
        let (_, rest) ← twoDigits? 0 59 (← afterChar? ':' rest)
        return rest : Option (List Char)).getD text
    else text

def daysIn (year month : Nat) : Nat :=
  if month = 2 then
    if year % 4 = 0 && (year % 100 != 0 || year % 400 = 0) then 29 else 28
  else if month ∈ [4, 6, 9, 11] then 30 else 31

/-- Whether the day that a text begins with exists, and the text behind its date, time and
offset. -/
def dateAt? (text : List Char) : Option (Bool × List Char) := do
  let (century, text) ← twoDigits? 0 99 text
  let (year, text) ← twoDigits? 0 99 text
  let (month, text) ← twoDigits? 1 12 (← afterChar? '-' text)
  let (day, text) ← twoDigits? 1 31 (← afterChar? '-' text)
  let year := century * 100 + year
  let valid := decide (1 ≤ year) && decide (day ≤ daysIn year month)
  match text with
  | c :: rest =>
    if c = 'T' || c = 't' || c = ' ' then
      match afterTime? rest with
      | some rest => return (valid, afterOffset rest)
      | none => return (valid, text)
    else return (valid, text)
  | [] => return (valid, [])

end MonkeyFront.Config
