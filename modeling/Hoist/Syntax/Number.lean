/-!
Number literals, carried through as the 64 bits of a binary floating point number.
-/
namespace Hoist

structure Number where
  bits : UInt64
  deriving DecidableEq, Inhabited, Repr

namespace Number

/-- The bits without the sign. -/
def magnitude (number : Number) : Nat :=
  number.bits.toNat % 0x8000000000000000

/-- The exponent has all its bits set and the fraction has one. -/
def isNaN (number : Number) : Bool :=
  0x7FF0000000000000 < number.magnitude

def isZero (number : Number) : Bool :=
  number.magnitude == 0

/-- Equality of the numbers and not of their bits: zero has two signs, and no NaN equals any. -/
def alike (a b : Number) : Bool :=
  !a.isNaN && !b.isNaN && (a.bits == b.bits || a.isZero && b.isZero)

end Number

end Hoist
