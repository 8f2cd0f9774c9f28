import PhotoNaming.Text.Basic
import PhotoNaming.Text.CodeRange

/-!
White space: which characters separate words, and which may surround a number.
-/

namespace PhotoNaming.Text

private def whiteRanges : List (Nat × Nat) :=
  [(0x9, 0xD), (0x20, 0x20), (0x85, 0x85), (0xA0, 0xA0), (0x1680, 0x1680), (0x2000, 0x200A),
    (0x2028, 0x2029), (0x202F, 0x202F), (0x205F, 0x205F), (0x3000, 0x3000)]

/-- The characters with the Unicode property White_Space; they may stand around a number. -/
def isWhite (c : Char) : Bool := inRanges whiteRanges c

/-- White space and the four information separators, which split words as well. -/
def isBlank (c : Char) : Bool := isWhite c || (0x1C ≤ c.toNat && c.toNat ≤ 0x1F)

def words (t : Text) : List Text := (t.splitOnP isBlank).filter (· ≠ [])

def stripped (t : Text) : Text := trimmed isBlank t

end PhotoNaming.Text
