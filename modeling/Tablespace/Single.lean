/-!
# Reals of 32 bits

A real is its bit pattern: a sign, eight bits of exponent, 23 of fraction. All
patterns are kept, the payloads of NaNs too. The order goes by signed
magnitude, so the two zeros are equal and the NaNs lie past the infinities,
each on the side of its sign.
-/

namespace Tablespace

structure Single where
  bits : UInt32
deriving DecidableEq, Repr

namespace Single

def signBit : Nat := 0x80000000

def isNegative (x : Single) : Bool := signBit ≤ x.bits.toNat

/-- The pattern without its sign, a number that grows with the absolute value. -/
def magnitude (x : Single) : Nat := x.bits.toNat % signBit

/-- The weight of the lowest bit of the exponent, which is also that of the implied digit. -/
def hiddenBit : Nat := 0x800000

def infinite : Nat := 255 * hiddenBit

def isNaN (x : Single) : Bool := infinite < x.magnitude

def rank (x : Single) : Int := if x.isNegative then -x.magnitude else x.magnitude

instance : Ord Single where
  compare x y := compare x.rank y.rank

end Single

end Tablespace
