import Whittle.Number.Binary64

namespace Whittle

/-!
# The shortest decimal that reads back

Every decimal close enough to a floating-point number is read as that number.
Among those decimals the shortest is wanted, and of several shortest ones the
nearest.  The decimals with a common exponent form a grid; a coarser grid has
shorter decimals, and if any point of a grid lies in the interval around the
number, then so does one of the number's two neighbours on that grid.  The
search therefore walks from coarse grids to fine ones and tests two points on
each.

All sizes are integers.  A number `significand * 2 ^ exponent` is measured in
quarters of its unit, so that both ends of its interval are whole.
-/

namespace Shortest

/-- A positive decimal `digits * 10 ^ exponent`. -/
structure Decimal where
  digits : Nat
  exponent : Int
deriving DecidableEq

/-- An interval around a number, as multiples of one positive unit, which is
the quotient of `numerator` and `denominator`.  The ends belong to the interval
if `closed` holds. -/
structure Interval where
  low : Nat
  value : Nat
  high : Nat
  numerator : Nat
  denominator : Nat
  closed : Bool

/-- The numbers that are read as `significand * 2 ^ exponent`.  A decimal half
way between two floating-point numbers is read as the one with the even
significand, so the ends belong to even significands. -/
def Interval.around (significand : Nat) (exponent : Int) (isPower : Bool) : Interval where
  low := 4 * significand - (if isPower then 1 else 2)
  value := 4 * significand
  high := 4 * significand + 2
  numerator := Nat.pow 2 (exponent - 2).toNat
  denominator := Nat.pow 2 (2 - exponent).toNat
  closed := significand % 2 == 0

/-- Whether `point * 10 ^ exponent` lies above the lower end. -/
def Interval.aboveLow (interval : Interval) (point : Nat) (exponent : Int) : Bool :=
  let left := interval.low * interval.numerator * Nat.pow 10 (-exponent).toNat
  let right := point * interval.denominator * Nat.pow 10 exponent.toNat
  if interval.closed then left ≤ right else left < right

/-- Whether `point * 10 ^ exponent` lies below the upper end. -/
def Interval.belowHigh (interval : Interval) (point : Nat) (exponent : Int) : Bool :=
  let left := point * interval.denominator * Nat.pow 10 exponent.toNat
  let right := interval.high * interval.numerator * Nat.pow 10 (-exponent).toNat
  if interval.closed then left ≤ right else left < right

/-- The neighbour from below on the grid with the given exponent, and whether
the number is at least as near to the neighbour from above. -/
def Interval.neighbour (interval : Interval) (exponent : Int) : Nat × Bool :=
  let size := interval.value * interval.numerator * Nat.pow 10 (-exponent).toNat
  let step := interval.denominator * Nat.pow 10 exponent.toNat
  (size / step, 2 * (size % step) ≥ step)

/-- The better neighbour on one grid, if one lies in the interval.  When both
do, the nearer one wins, and of two equally near ones the larger. -/
def Interval.onGrid? (interval : Interval) (exponent : Int) : Option Nat :=
  let (below, nearerAbove) := interval.neighbour exponent
  let lowFits := interval.aboveLow below exponent
  let highFits := interval.belowHigh (below + 1) exponent
  match lowFits, highFits with
  | true, true => some (if nearerAbove then below + 1 else below)
  | true, false => some below
  | false, true => some (below + 1)
  | false, false => none

/-- The first hit on the grids with exponents `exponent`, `exponent - 1`, and
so on, over as many grids as `grids` says. -/
def Interval.search (interval : Interval) (exponent : Int) : Nat → Option Decimal
  | 0 => none
  | grids + 1 =>
      match interval.onGrid? exponent with
      | some digits => some ⟨digits, exponent⟩
      | none => interval.search (exponent - 1) grids

/-- An exponent whose grid is too coarse to have a positive point in the
interval of `significand * 2 ^ exponent`: a hundred thousand times the common
logarithm of two lies just below 30103. -/
def coarsest (significand : Nat) (exponent : Int) : Int :=
  (Int.ofNat (Nat.log2 significand) + exponent + 2) * 30103 / 100000 + 2

/-- The shortest decimal of `significand * 2 ^ exponent`; zero has none.  Four
hundred grids below the coarsest one are more than any other floating-point
number can need. -/
def decimal? (significand : Nat) (exponent : Int) (isPower : Bool) : Option Decimal :=
  if significand == 0 then none
  else (Interval.around significand exponent isPower).search (coarsest significand exponent) 400

end Shortest
end Whittle
