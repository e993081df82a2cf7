import MonkeyFront.Text.Printable

/-!
# Quoted literals

A text between quotes, in printable characters. The quote is `'`, or `"` where the text holds a `'`
and no `"`; a backslash precedes the quote and itself, and a character that is not printable is
shown by a short escape or by its code in two, four or eight lower-case hexadecimal digits.
-/

namespace MonkeyFront

/-- The lower-case hexadecimal digits of `n`, at least `width` of them. -/
def hexadecimal (width n : Nat) : List Char :=
  let digits := Nat.toDigits 16 n
  List.replicate (width - digits.length) '0' ++ digits

def quoteFor (text : List Char) : Char :=
  if text.contains '\'' && !text.contains '"' then '"' else '\''

/-- The characters that show `c` between two characters `quote`. -/
def escaped (quote c : Char) : List Char :=
  if c = quote || c = '\\' then ['\\', c]
  else if c = '\n' then ['\\', 'n']
  else if c = '\r' then ['\\', 'r']
  else if c = '\t' then ['\\', 't']
  else if isPrintable c then [c]
  else if c.toNat ≤ 0xFF then ['\\', 'x'] ++ hexadecimal 2 c.toNat
  else if c.toNat ≤ 0xFFFF then ['\\', 'u'] ++ hexadecimal 4 c.toNat
  else ['\\', 'U'] ++ hexadecimal 8 c.toNat

def quoted (text : String) : String :=
  let quote := quoteFor text.toList
  String.ofList (quote :: text.toList.flatMap (escaped quote) ++ [quote])

end MonkeyFront
