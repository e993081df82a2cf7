import MonkeyFront.Text.Pieces

namespace MonkeyFront

/-- A number below 256 in decimal digits without leading zeros. -/
def isOctet (text : List Char) : Bool :=
  !text.isEmpty && text.length ≤ 3 && text.all Char.isDigit &&
    (text.head? != some '0' || text.length = 1) &&
    text.foldl (fun n c => n * 10 + (c.toNat - '0'.toNat)) 0 < 256

def isIPv4 (text : List Char) : Bool :=
  let octets := pieces '.' text
  octets.length = 4 && octets.all isOctet

def isHextet (text : List Char) : Bool :=
  !text.isEmpty && text.length ≤ 4 &&
    text.all fun c => c.isDigit || ('a' ≤ c && c ≤ 'f') || ('A' ≤ c && c ≤ 'F')

/-- Whether the pieces between colons, all of them numbers, write eight numbers. An empty piece that
is neither the first nor the last stands for one zero or more; the first piece may be empty if the
second is, and the last if the one before it is. -/
def areHextets (parts : List (List Char)) : Bool :=
  let inner := parts.tail.dropLast
  match inner.findIdx? (·.isEmpty) with
  | none => parts.length = 8 && parts.all isHextet
  | some i =>
    let above := parts.take (i + 1)
    let below := parts.drop (i + 2)
    let high := if above = [[]] then [] else above
    let low := if below = [[]] then [] else below
    parts.length ≤ 9 && high.length + low.length < 8 && high.all isHextet && low.all isHextet

/-- Numbers with colons between them, perhaps with a zone behind a `%`. -/
def isIPv6 (text : List Char) : Bool :=
  let address := text.takeWhile (· != '%')
  let zone := (text.dropWhile (· != '%')).drop 1
  let parts := pieces ':' address
  let last := parts.getLastD []
  (address.length = text.length || (!zone.isEmpty && !zone.contains '%')) &&
    3 ≤ parts.length &&
    if last.contains '.' then isIPv4 last && areHextets (parts.dropLast ++ [['0'], ['0']])
    else areHextets parts

end MonkeyFront
