import MonkeyFront.Text.Ranges

namespace MonkeyFront

def blankRanges : List (Nat × Nat) := [
    (0x0009, 0x000D), (0x001C, 0x0020), (0x0085, 0x0085), (0x00A0, 0x00A0), (0x1680, 0x1680),
    (0x2000, 0x200A), (0x2028, 0x2029), (0x202F, 0x202F), (0x205F, 0x205F), (0x3000, 0x3000)]

/-- A character that separates lexemes and belongs to none. -/
def isBlank (c : Char) : Bool := inRanges blankRanges c.toNat

theorem areAscending_blankRanges : areAscending blankRanges = true := by decide +kernel

end MonkeyFront
