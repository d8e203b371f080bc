import Hoist.Text.Ranges

/-!
White space, and trimming it from both ends of a text.
-/
namespace Hoist.Text

/-- The code points with the property White_Space. -/
def blankRanges : List (Nat × Nat) :=
  [(0x9, 0xd), (0x20, 0x20), (0x85, 0x85), (0xa0, 0xa0), (0x1680, 0x1680), (0x2000, 0x200a),
    (0x2028, 0x2029), (0x202f, 0x202f), (0x205f, 0x205f), (0x3000, 0x3000)]

theorem rising_blankRanges : rising 0 blankRanges = true := by decide +kernel

def isBlank (c : Char) : Bool :=
  inRanges blankRanges c.toNat

/-- Drops white space from both ends. -/
def trim (text : List Char) : List Char :=
  ((text.dropWhile isBlank).reverse.dropWhile isBlank).reverse

end Hoist.Text
