import Whittle.Number.Shortest
import Whittle.Proofs.Number.Rounding

namespace Whittle
namespace Shortest

/-!
# The shortest decimal reads back

What the search for the shortest decimal tests on whole numbers is that the
decimal lies in the interval of its number.  The search does find a decimal,
because a grid whose step is shorter than half a unit has a point in every
interval.
-/

open Binary64 (IsFinite IsNearest reachBelow reachBelow_le_two one_le_reachBelow scaled_le_scaled_iff
  scaled_lt_scaled_iff two_zpow_pos two_zpow_lt_iff ten_zpow_pos zpow_eq_div)

variable {significand point digits : Nat} {exponent power : Int} {isPower : Bool}

theorem low_eq (positive : 0 < significand) (exponent : Int) :
    (((Interval.around significand exponent isPower).low : Nat) : Rat) =
      4 * significand - reachBelow isPower := by
  cases isPower with
  | true =>
      show ((4 * significand - 1 : Nat) : Rat) = 4 * significand - 1
      rw [Nat.cast_sub (by omega)]
      push_cast
      rfl
  | false =>
      show ((4 * significand - 2 : Nat) : Rat) = 4 * significand - 2
      rw [Nat.cast_sub (by omega)]
      push_cast
      rfl

theorem denominator_eq (significand : Nat) (exponent : Int) (isPower : Bool) :
    (Interval.around significand exponent isPower).denominator = 2 ^ (-(exponent - 2)).toNat := by
  show 2 ^ (2 - exponent).toNat = _
  rw [neg_sub]

/-- A test against an end of an interval: the end counts for even significands. -/
theorem closed_iff {left right : Nat} {left' right' : Rat} (le : left ≤ right ↔ left' ≤ right')
    (lt : left < right ↔ left' < right') :
    (if (Interval.around significand exponent isPower).closed then decide (left ≤ right)
        else decide (left < right)) = true ↔
      left' ≤ right' ∧ (significand % 2 = 1 → left' < right') := by
  have closed : (Interval.around significand exponent isPower).closed =
      (significand % 2 == 0) := rfl
  rcases Nat.mod_two_eq_zero_or_one significand with isEven | isOdd
  · rw [closed, isEven, if_pos (by rfl), decide_eq_true_iff, le]
    exact ⟨fun inside => ⟨inside, fun isOdd => by cases isOdd⟩, And.left⟩
  · rw [closed, isOdd, if_neg (by decide), decide_eq_true_iff, lt]
    exact ⟨fun inside => ⟨inside.le, fun _ => inside⟩, fun inside => inside.2 rfl⟩

theorem aboveLow_iff (positive : 0 < significand) :
    (Interval.around significand exponent isPower).aboveLow point power = true ↔
      (4 * significand - reachBelow isPower) * 2 ^ (exponent - 2) ≤ point * (10 : Rat) ^ power ∧
        (significand % 2 = 1 → (4 * significand - reachBelow isPower) * 2 ^ (exponent - 2) <
          point * (10 : Rat) ^ power) := by
  refine closed_iff ?_ ?_
  · rw [denominator_eq, ← low_eq positive exponent]
    exact scaled_le_scaled_iff 2 10 (by omega) (by omega) _ _ _ _
  · rw [denominator_eq, ← low_eq positive exponent]
    exact scaled_lt_scaled_iff 2 10 (by omega) (by omega) _ _ _ _

theorem belowHigh_iff :
    (Interval.around significand exponent isPower).belowHigh point power = true ↔
      point * (10 : Rat) ^ power ≤ (4 * significand + 2) * 2 ^ (exponent - 2) ∧
        (significand % 2 = 1 →
          point * (10 : Rat) ^ power < (4 * significand + 2) * 2 ^ (exponent - 2)) := by
  have high : ((4 * significand + 2 : Nat) : Rat) = 4 * significand + 2 := by push_cast; rfl
  have le := scaled_le_scaled_iff 10 2 (by omega) (by omega) point
    (4 * significand + 2) power (exponent - 2)
  have lt := scaled_lt_scaled_iff 10 2 (by omega) (by omega) point
    (4 * significand + 2) power (exponent - 2)
  rw [mul_right_comm point, mul_right_comm (4 * significand + 2), high] at le lt
  refine closed_iff ?_ ?_
  · rw [denominator_eq]
    exact le
  · rw [denominator_eq]
    exact lt

/-- The neighbour from below is the last point that is not above the number. -/
theorem neighbour_mem (below : Nat)
    (isBelow : ((Interval.around significand exponent isPower).neighbour power).1 = below) :
    below * (10 : Rat) ^ power ≤ 4 * significand * 2 ^ (exponent - 2) ∧
      4 * significand * 2 ^ (exponent - 2) < (below + 1) * (10 : Rat) ^ power := by
  have le := scaled_le_scaled_iff 10 2 (by omega) (by omega) below
    (4 * significand) power (exponent - 2)
  have lt := scaled_lt_scaled_iff 2 10 (by omega) (by omega)
    (4 * significand) (below + 1) (exponent - 2) power
  push_cast at le lt
  have isQuotient : 4 * significand * 2 ^ (exponent - 2).toNat * 10 ^ (-power).toNat /
      (2 ^ (-(exponent - 2)).toNat * 10 ^ power.toNat) = below := by
    rw [← denominator_eq significand exponent isPower]
    exact isBelow
  have positive : 0 < 2 ^ (-(exponent - 2)).toNat * 10 ^ power.toNat :=
    Nat.mul_pos (Nat.pow_pos (by omega)) (Nat.pow_pos (by omega))
  have low := Nat.div_mul_le_self (4 * significand * 2 ^ (exponent - 2).toNat * 10 ^ (-power).toNat)
    (2 ^ (-(exponent - 2)).toNat * 10 ^ power.toNat)
  have high := Nat.lt_mul_div_succ
    (4 * significand * 2 ^ (exponent - 2).toNat * 10 ^ (-power).toNat) positive
  rw [isQuotient] at low high
  exact ⟨le.mp (by linarith), lt.mp (by linarith)⟩

/-- A hit on a grid lies in the interval. -/
theorem isNearest_of_onGrid? (positive : 0 < significand)
    (hit : (Interval.around significand exponent isPower).onGrid? power = some digits) :
    IsNearest significand exponent isPower (digits * (10 : Rat) ^ power) := by
  have reach := reachBelow_le_two isPower
  have reach' := one_le_reachBelow isPower
  have step := ten_zpow_pos power
  have unit := two_zpow_pos (exponent - 2)
  unfold Interval.onGrid? at hit
  generalize split : (Interval.around significand exponent isPower).neighbour power = pair at hit
  rcases pair with ⟨below, nearerAbove⟩
  rcases neighbour_mem below (congrArg Prod.fst split) with ⟨notAbove, above⟩
  dsimp only at hit
  -- the neighbour from below is under the upper end, and the one from above over the lower end
  have fromBelow : (Interval.around significand exponent isPower).aboveLow below power = true →
      IsNearest significand exponent isPower (below * (10 : Rat) ^ power) := by
    intro isAbove
    rcases (aboveLow_iff positive).mp isAbove with ⟨low, strict⟩
    exact ⟨low, by nlinarith, fun isOdd => ⟨strict isOdd, by nlinarith⟩⟩
  have fromAbove : (Interval.around significand exponent isPower).belowHigh (below + 1) power = true →
      IsNearest significand exponent isPower ((below + 1 : Nat) * (10 : Rat) ^ power) := by
    intro isBelow
    rcases belowHigh_iff.mp isBelow with ⟨high, strict⟩
    have low : (4 * significand - reachBelow isPower) * 2 ^ (exponent - 2) <
        ((below + 1 : Nat) : Rat) * 10 ^ power := by
      push_cast
      nlinarith
    exact ⟨low.le, high, fun isOdd => ⟨low, strict isOdd⟩⟩
  split at hit
  · rename_i isAbove isBelow
    cases hit
    split
    · exact fromAbove isBelow
    · exact fromBelow isAbove
  · rename_i isAbove _
    cases hit
    exact fromBelow isAbove
  · rename_i _ isBelow
    cases hit
    exact fromAbove isBelow
  · cases hit

/-- There is a hit on every grid that is finer than half a unit. -/
theorem onGrid?_isSome (significand : Nat) (isPower : Bool)
    (fine : (10 : Rat) ^ power < 2 ^ (exponent - 1)) :
    ((Interval.around significand exponent isPower).onGrid? power).isSome = true := by
  have halves : (2 : Rat) ^ (exponent - 1) = 2 * 2 ^ (exponent - 2) := by
    rw [← zpow_one_add₀ (by norm_num)]
    congr 1
    ring
  unfold Interval.onGrid?
  generalize split : (Interval.around significand exponent isPower).neighbour power = pair
  rcases pair with ⟨below, nearerAbove⟩
  rcases neighbour_mem below (congrArg Prod.fst split) with ⟨notAbove, _⟩
  have isBelow : (Interval.around significand exponent isPower).belowHigh (below + 1) power =
      true := by
    rw [halves] at fine
    have high : ((below + 1 : Nat) : Rat) * 10 ^ power <
        (4 * significand + 2) * 2 ^ (exponent - 2) := by
      push_cast
      nlinarith
    exact belowHigh_iff.mpr ⟨high.le, fun _ => high⟩
  dsimp only
  rw [isBelow]
  cases (Interval.around significand exponent isPower).aboveLow below power <;> rfl

/-- What the search finds was found on one of its grids. -/
theorem exists_onGrid?_of_search {interval : Interval} {grids : Nat} {decimal : Decimal}
    (found : interval.search power grids = some decimal) :
    interval.onGrid? decimal.exponent = some decimal.digits ∧
      power - grids < decimal.exponent ∧ decimal.exponent ≤ power := by
  induction grids generalizing power with
  | zero => cases found
  | succ grids inductionHypothesis =>
      unfold Interval.search at found
      split at found
      · rename_i hit
        cases found
        exact ⟨hit, by push_cast; omega, le_refl _⟩
      · rcases inductionHypothesis found with ⟨hit, least, most⟩
        exact ⟨hit, by push_cast; omega, by omega⟩

/-- The search finds something if one of its grids has a hit. -/
theorem search_isSome {interval : Interval} {grids : Nat} (reached : Nat) (within : reached < grids)
    (hit : (interval.onGrid? (power - reached)).isSome = true) :
    (interval.search power grids).isSome = true := by
  induction grids generalizing power reached with
  | zero => cases within
  | succ grids inductionHypothesis =>
      unfold Interval.search
      split
      · rfl
      · rename_i noHit
        cases reached with
        | zero =>
            rw [Nat.cast_zero, sub_zero, noHit] at hit
            cases hit
        | succ reached =>
            refine inductionHypothesis reached (Nat.lt_of_succ_lt_succ within) ?_
            have same : power - 1 - (reached : Int) = power - ((reached + 1 : Nat) : Int) := by
              push_cast
              ring
            rw [same]
            exact hit

theorem ten_zpow_le_two_zpow {count : Int} (negative : count ≤ 0) :
    (10 : Rat) ^ count ≤ 2 ^ (3 * count) := by
  have isNegated : count = -((-count).toNat : Int) := by omega
  have natural : (2 : Rat) ^ (3 * (-count).toNat) ≤ 10 ^ (-count).toNat := by
    rw [pow_mul]
    exact pow_le_pow_left₀ (by norm_num) (by norm_num) _
  rw [isNegated, mul_neg, zpow_neg, zpow_neg]
  refine inv_anti₀ (two_zpow_pos _) ?_
  exact_mod_cast natural

/-- The last grid of the search is finer than half a unit. -/
theorem ten_zpow_coarsest_lt (finite : IsFinite significand exponent isPower) :
    (10 : Rat) ^ (coarsest significand exponent - (399 : Nat)) < 2 ^ (exponent - 1) := by
  have few : Nat.log2 significand < 53 := by
    rcases Nat.eq_zero_or_pos significand with rfl | positive
    · decide
    · exact (Nat.log2_lt positive.ne').mpr finite.small
  have least := finite.least
  have most := finite.most
  have isCoarsest : coarsest significand exponent =
      ((Nat.log2 significand : Int) + exponent + 2) * 30103 / 100000 + 2 := rfl
  have negative : coarsest significand exponent - (399 : Nat) ≤ 0 := by omega
  refine lt_of_le_of_lt (ten_zpow_le_two_zpow negative) (two_zpow_lt_iff.mpr ?_)
  omega

/-- A positive number has a shortest decimal; it is read as the number, and it
has about a thousand digits at most. -/
theorem exists_decimal? (finite : IsFinite significand exponent isPower)
    (positive : 0 < significand) :
    ∃ decimal, decimal? significand exponent isPower = some decimal ∧
      IsNearest significand exponent isPower (decimal.digits * (10 : Rat) ^ decimal.exponent) ∧
      0 < decimal.digits ∧ Nat.log2 decimal.digits < 3900 := by
  have notZero : ¬(significand == 0) = true := by simpa using positive.ne'
  have isSearch : decimal? significand exponent isPower =
      (Interval.around significand exponent isPower).search (coarsest significand exponent) 400 := by
    rw [decimal?, if_neg notZero]
  have within : 399 < 400 := by omega
  rcases Option.isSome_iff_exists.mp (search_isSome 399 within
    (onGrid?_isSome significand isPower (ten_zpow_coarsest_lt finite))) with ⟨decimal, found⟩
  rcases exists_onGrid?_of_search found with ⟨hit, least, _⟩
  have nearest := isNearest_of_onGrid? positive hit
  have some? : 0 < decimal.digits := by
    have reach := reachBelow_le_two isPower
    have unit := two_zpow_pos (exponent - 2)
    have large : (1 : Rat) ≤ significand := by exact_mod_cast positive
    by_contra none
    have isZero : decimal.digits = 0 := by omega
    have low := nearest.low
    rw [isZero, Nat.cast_zero, zero_mul] at low
    nlinarith
  have few := nearest.log2_lt finite some?
  have isCoarsest : coarsest significand exponent =
      ((Nat.log2 significand : Int) + exponent + 2) * 30103 / 100000 + 2 := rfl
  have smallest := finite.least
  exact ⟨decimal, isSearch.trans found, nearest, some?, by omega⟩

end Shortest
end Whittle
