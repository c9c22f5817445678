namespace Whittle

/-!
# Floating-point values

The value of a float literal is a binary number of sixty-four bits: a sign, an
exponent of eleven bits and a fraction of fifty-two.  It is kept as these bits,
so that equality is decidable and tells `0.0` from `-0.0`, and everything said
about its size is said about whole numbers.
-/

/-- A floating-point number, by its bits. -/
structure Binary64 where
  bits : UInt64
deriving DecidableEq

namespace Binary64

def fractionCount : Nat := Nat.pow 2 52

/-- The number of magnitudes, and the weight of the sign bit above them. -/
def magnitudeCount : Nat := Nat.pow 2 63

/-- Whether the sign bit is set, also for zeros and for what is not a number. -/
def isNegative (x : Binary64) : Bool :=
  x.bits.toNat / magnitudeCount == 1

/-- The bits without the sign. -/
def magnitudeBits (x : Binary64) : Nat :=
  x.bits.toNat % magnitudeCount

/-- The bits of positive infinity, above those of every finite magnitude. -/
def infiniteBits : Nat := 2047 * fractionCount

/-- The number with the given sign and remaining bits. -/
def ofMagnitude (negative : Bool) (magnitude : Nat) : Binary64 :=
  ⟨UInt64.ofNat ((if negative then magnitudeCount else 0) + magnitude)⟩

/-- What a number without its sign can be.  A finite one is
`significand * 2 ^ exponent`; its neighbours in size are one unit of the
significand away, except that below a power of two (`isPower`) the step down
is half as long. -/
inductive Magnitude where
  | finite (significand : Nat) (exponent : Int) (isPower : Bool)
  | infinite
  | notANumber
deriving DecidableEq

/-- The size of a number.  Exponent zero marks the numbers too small for a
leading one, and the largest exponent those that are not finite. -/
def magnitude (x : Binary64) : Magnitude :=
  let fraction := x.magnitudeBits % fractionCount
  let exponent := x.magnitudeBits / fractionCount
  if exponent == 2047 then
    if fraction == 0 then .infinite else .notANumber
  else if exponent == 0 then
    .finite fraction (-1074) false
  else
    .finite (fractionCount + fraction) (Int.ofNat exponent - 1075)
      (fraction == 0 && exponent != 1)

/-- Whether the number is zero, of either sign. -/
def isZero (x : Binary64) : Bool :=
  x.magnitudeBits == 0

def one : Binary64 := ofMagnitude false (1023 * fractionCount)

end Binary64
end Whittle
