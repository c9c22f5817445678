import Whittle.Number.Binary64

namespace Whittle

/-!
# Reading decimals

A decimal stands for the floating-point number nearest to it, and half way
between two of them for the one with the even significand.  Numbers too large
for any become infinite, numbers too small become zero.  The arithmetic is on
whole numbers throughout: a decimal is a quotient of two of them.
-/

namespace Binary64

/-- The quotient rounded to the nearest integer, a half to the even one. -/
def roundedQuotient (numerator denominator : Nat) : Nat :=
  let quotient := numerator / denominator
  let twice := 2 * (numerator % denominator)
  if twice > denominator || (twice == denominator && quotient % 2 == 1) then quotient + 1
  else quotient

/-- The bits of the quotient of two positive integers, without a sign.  The
unit is chosen so that the quotient has fifty-three binary digits, or fewer if
the unit would become smaller than the smallest there is.  Adding the rounded
significand to the shifted exponent carries a significand that rounds up to
the next power of two into the exponent, which is what it should do. -/
def quotientBits (numerator denominator : Nat) : Nat :=
  let estimate : Int := Int.ofNat (Nat.log2 numerator) - Int.ofNat (Nat.log2 denominator) - 52
  let reaches (exponent : Int) : Bool :=
    denominator * Nat.pow 2 (52 + exponent).toNat ≤ numerator * Nat.pow 2 (-52 - exponent).toNat
  let exponent : Int := max (if reaches estimate then estimate else estimate - 1) (-1074)
  let significand := roundedQuotient
    (numerator * Nat.pow 2 (-exponent).toNat) (denominator * Nat.pow 2 exponent.toNat)
  if significand < fractionCount then significand
  else min ((exponent + 1074).toNat * fractionCount + significand) infiniteBits

/-- The number nearest to `digits * 10 ^ exponent`, without a sign.  Powers of
ten that put the decimal beyond every number are not worked out. -/
def decimalBits (digits : Nat) (exponent : Int) : Nat :=
  if digits == 0 then 0
  else
    let size : Int := Int.ofNat (Nat.log2 digits) * 30103 / 100000 + exponent
    if size > 320 then infiniteBits
    else if size < -350 then 0
    else quotientBits (digits * Nat.pow 10 exponent.toNat) (Nat.pow 10 (-exponent).toNat)

/-- The value of a run of decimal digits. -/
def digitsValue (digits : List Char) : Nat :=
  digits.foldl (fun value digit => 10 * value + (digit.toNat - '0'.toNat)) 0

/-- The exponent written behind an `e`, with an optional sign. -/
def exponent? : List Char → Option Int
  | [] => some 0
  | mark :: rest =>
      if mark != 'e' && mark != 'E' then none
      else
        let (negative, digits) := match rest with
          | '-' :: digits => (true, digits)
          | '+' :: digits => (false, digits)
          | digits => (false, digits)
        if digits.isEmpty || !digits.all Char.isDigit then none
        else some (if negative then -Int.ofNat (digitsValue digits) else digitsValue digits)

/-- The bits of an unsigned decimal text: digits, an optional point among or
around them, and an optional exponent. -/
def unsignedBits? (text : List Char) : Option Nat :=
  let whole := text.takeWhile Char.isDigit
  let behindWhole := text.dropWhile Char.isDigit
  let (fraction, behind) := match behindWhole with
    | '.' :: rest => (rest.takeWhile Char.isDigit, rest.dropWhile Char.isDigit)
    | _ => ([], behindWhole)
  if whole.isEmpty && fraction.isEmpty then none
  else
    (exponent? behind).map fun exponent =>
      decimalBits (digitsValue (whole ++ fraction)) (exponent - Int.ofNat fraction.length)

/-- The bits of an unsigned text, which may also name what no decimal is. -/
def magnitudeBits? (text : List Char) : Option Nat :=
  let name := text.map Char.toLower
  if name == ['i', 'n', 'f'] || name == ['i', 'n', 'f', 'i', 'n', 'i', 't', 'y'] then
    some infiniteBits
  else if name == ['n', 'a', 'n'] then some (infiniteBits + fractionCount / 2)
  else unsignedBits? text

/-- The number a text stands for, if it stands for one. -/
def ofText? : List Char → Option Binary64
  | '-' :: text => (magnitudeBits? text).map (ofMagnitude true)
  | '+' :: text => (magnitudeBits? text).map (ofMagnitude false)
  | text => (magnitudeBits? text).map (ofMagnitude false)

end Binary64
end Whittle
