import Mathlib.Algebra.Order.Field.Power
import Mathlib.Algebra.Order.Field.Rat
import Mathlib.Tactic.FieldSimp
import Mathlib.Tactic.Linarith
import Mathlib.Tactic.NormNum
import Mathlib.Tactic.Positivity
import Mathlib.Tactic.Ring
import Whittle.Number.Reading

namespace Whittle
namespace Binary64

/-!
# Reading rounds to the nearest

The number read from a decimal is the one whose interval the decimal lies in.
The interval of `significand * 2 ^ exponent` reaches half way to the neighbours
on both sides, and the ends belong to even significands.  The rounding itself is
done on whole numbers; what it does is said here about quotients.
-/

theorem zpow_eq_div (base : Nat) (positive : 0 < base) (exponent : Int) :
    (base : Rat) ^ exponent = (base : Rat) ^ exponent.toNat / (base : Rat) ^ (-exponent).toNat := by
  have nonzero : (base : Rat) ≠ 0 := by exact_mod_cast positive.ne'
  rw [eq_div_iff (pow_ne_zero _ nonzero), ← zpow_natCast, ← zpow_natCast, ← zpow_add₀ nonzero]
  congr 1
  omega

/-- Sizes on two grids compare like whole numbers on a common one. -/
theorem scaled_le_scaled_iff (base base' : Nat) (positive : 0 < base) (positive' : 0 < base')
    (a b : Nat) (exponent exponent' : Int) :
    a * base ^ exponent.toNat * base' ^ (-exponent').toNat ≤
        b * base ^ (-exponent).toNat * base' ^ exponent'.toNat ↔
      (a : Rat) * (base : Rat) ^ exponent ≤ b * (base' : Rat) ^ exponent' := by
  have pos : (0 : Rat) < base := by exact_mod_cast positive
  have pos' : (0 : Rat) < base' := by exact_mod_cast positive'
  rw [zpow_eq_div base positive, zpow_eq_div base' positive', ← mul_div_assoc, ← mul_div_assoc,
    div_le_div_iff₀ (by positivity) (by positivity), ← Nat.cast_le (α := Rat)]
  push_cast
  rw [mul_right_comm (b : Rat)]

theorem scaled_lt_scaled_iff (base base' : Nat) (positive : 0 < base) (positive' : 0 < base')
    (a b : Nat) (exponent exponent' : Int) :
    a * base ^ exponent.toNat * base' ^ (-exponent').toNat <
        b * base ^ (-exponent).toNat * base' ^ exponent'.toNat ↔
      (a : Rat) * (base : Rat) ^ exponent < b * (base' : Rat) ^ exponent' := by
  have pos : (0 : Rat) < base := by exact_mod_cast positive
  have pos' : (0 : Rat) < base' := by exact_mod_cast positive'
  rw [zpow_eq_div base positive, zpow_eq_div base' positive', ← mul_div_assoc, ← mul_div_assoc,
    div_lt_div_iff₀ (by positivity) (by positivity), ← Nat.cast_lt (α := Rat)]
  push_cast
  rw [mul_right_comm (b : Rat)]

theorem two_zpow_pos (exponent : Int) : (0 : Rat) < 2 ^ exponent :=
  zpow_pos (by norm_num) exponent

theorem two_zpow_le_iff {a b : Int} : (2 : Rat) ^ a ≤ 2 ^ b ↔ a ≤ b :=
  zpow_le_zpow_iff_right₀ (by norm_num)

theorem two_zpow_lt_iff {a b : Int} : (2 : Rat) ^ a < 2 ^ b ↔ a < b :=
  zpow_lt_zpow_iff_right₀ (by norm_num)

theorem two_zpow_add (a b : Int) : (2 : Rat) ^ (a + b) = 2 ^ a * 2 ^ b :=
  zpow_add₀ (by norm_num) a b

/-- The rounded quotient is the integer at most a half away, and of two such
integers the even one. -/
theorem roundedQuotient_eq {numerator denominator result : Nat} (positive : 0 < denominator)
    (low : 2 * result * denominator ≤ 2 * numerator + denominator)
    (high : 2 * numerator ≤ 2 * result * denominator + denominator)
    (even : result % 2 = 1 → 2 * result * denominator < 2 * numerator + denominator ∧
      2 * numerator < 2 * result * denominator + denominator) :
    roundedQuotient numerator denominator = result := by
  have split := Nat.div_add_mod numerator denominator
  have below := Nat.mod_lt numerator positive
  unfold roundedQuotient
  dsimp only
  generalize numerator / denominator = quotient at *
  generalize numerator % denominator = remainder at *
  -- the result is the quotient or its successor, since it is at most a half away
  have near : result = quotient ∨ result = quotient + 1 := by
    have upper : result * denominator < (quotient + 2) * denominator := by nlinarith
    have lower : quotient * denominator < (result + 1) * denominator := by nlinarith
    have upper := Nat.lt_of_mul_lt_mul_right upper
    have lower := Nat.lt_of_mul_lt_mul_right lower
    omega
  subst split
  rcases near with rfl | rfl
  · have notAbove : ¬(2 * remainder > denominator) := by nlinarith
    have notHalf : ¬(2 * remainder = denominator ∧ result % 2 = 1) := by
      rintro ⟨half, isOdd⟩
      have strict := (even isOdd).2
      nlinarith
    simp only [Bool.or_eq_true, Bool.and_eq_true, decide_eq_true_eq, beq_iff_eq]
    rw [if_neg (not_or.mpr ⟨notAbove, notHalf⟩)]
  · have half : denominator ≤ 2 * remainder := by nlinarith
    have above : 2 * remainder > denominator ∨ (2 * remainder = denominator ∧ quotient % 2 = 1) := by
      by_cases isOdd : (quotient + 1) % 2 = 1
      · have strict := (even isOdd).1
        exact .inl (by nlinarith)
      · omega
    simp only [Bool.or_eq_true, Bool.and_eq_true, decide_eq_true_eq, beq_iff_eq]
    rw [if_pos above]

/-- The numbers `significand * 2 ^ exponent` that have bits, with `isPower` if
the step below is half as long. -/
structure IsFinite (significand : Nat) (exponent : Int) (isPower : Bool) : Prop where
  least : -1074 ≤ exponent
  most : exponent ≤ 971
  small : significand < 2 * fractionCount
  normal : fractionCount ≤ significand ∨ exponent = -1074
  power : isPower = true ↔ significand = fractionCount ∧ exponent ≠ -1074

/-- How far the interval reaches below its number, in quarters of a unit. -/
def reachBelow (isPower : Bool) : Rat :=
  if isPower then 1 else 2

/-- The quotient lies in the interval of `significand * 2 ^ exponent`.  The ends
belong to even significands. -/
structure IsNearest (significand : Nat) (exponent : Int) (isPower : Bool) (quotient : Rat) :
    Prop where
  low : (4 * significand - reachBelow isPower) * 2 ^ (exponent - 2) ≤ quotient
  high : quotient ≤ (4 * significand + 2) * 2 ^ (exponent - 2)
  strict : significand % 2 = 1 →
    (4 * significand - reachBelow isPower) * 2 ^ (exponent - 2) < quotient ∧
      quotient < (4 * significand + 2) * 2 ^ (exponent - 2)

/-- The bits of `significand * 2 ^ exponent`, without a sign. -/
def finiteBits (significand : Nat) (exponent : Int) : Nat :=
  (exponent + 1074).toNat * fractionCount + significand

/-- The unit that a quotient is measured in: the quotient has fifty-three binary
digits, or fewer if the unit is the smallest there is. -/
structure IsUnit (exponent : Int) (quotient : Rat) : Prop where
  least : -1074 ≤ exponent
  high : quotient < 2 ^ (exponent + 53)
  low : exponent = -1074 ∨ (2 : Rat) ^ (exponent + 52) ≤ quotient

section

variable {numerator denominator : Nat}

theorem two_zpow_log2_le (positive : 0 < numerator) :
    (2 : Rat) ^ (Nat.log2 numerator : Int) ≤ numerator := by
  rw [zpow_natCast]
  exact_mod_cast Nat.log2_self_le positive.ne'

theorem lt_two_zpow_log2 (count : Nat) : (count : Rat) < 2 ^ ((Nat.log2 count : Int) + 1) := by
  have natural : ((Nat.log2 count : Int) + 1) = ((Nat.log2 count + 1 : Nat) : Int) := by push_cast; rfl
  rw [natural, zpow_natCast]
  exact_mod_cast Nat.lt_log2_self

/-- A quotient is compared with a power of two by whole numbers. -/
theorem two_zpow_le_div_iff (numerator : Nat) (positive : 0 < denominator) (exponent : Int) :
    denominator * Nat.pow 2 exponent.toNat ≤ numerator * Nat.pow 2 (-exponent).toNat ↔
      (2 : Rat) ^ exponent ≤ numerator / denominator := by
  have pos : (0 : Rat) < denominator := by exact_mod_cast positive
  have scaled := scaled_le_scaled_iff 2 1 (by omega) (by omega) denominator numerator
    exponent 0
  rw [le_div_iff₀ pos, mul_comm ((2 : Rat) ^ exponent)]
  simpa using scaled

/-- The number of binary digits of a quotient, up to one. -/
theorem div_mem_of_log2 (positive : 0 < numerator) (positive' : 0 < denominator) {estimate : Int}
    (isEstimate : estimate = Int.ofNat (Nat.log2 numerator) - Int.ofNat (Nat.log2 denominator) - 52) :
    (2 : Rat) ^ (estimate + 51) ≤ numerator / denominator ∧
      (numerator / denominator : Rat) < 2 ^ (estimate + 53) := by
  have pos : (0 : Rat) < denominator := by exact_mod_cast positive'
  have low := two_zpow_log2_le positive
  have high := lt_two_zpow_log2 numerator
  have low' := two_zpow_log2_le positive'
  have high' := lt_two_zpow_log2 denominator
  have splitLow : (2 : Rat) ^ (Nat.log2 numerator : Int) =
      2 ^ (estimate + 51) * 2 ^ ((Nat.log2 denominator : Int) + 1) := by
    rw [← two_zpow_add]
    congr 1
    rw [isEstimate]
    simp only [Int.ofNat_eq_natCast]
    omega
  have splitHigh : (2 : Rat) ^ ((Nat.log2 numerator : Int) + 1) =
      2 ^ (estimate + 53) * 2 ^ (Nat.log2 denominator : Int) := by
    rw [← two_zpow_add]
    congr 1
    rw [isEstimate]
    simp only [Int.ofNat_eq_natCast]
    omega
  rw [le_div_iff₀ pos, div_lt_iff₀ pos]
  have powLow := two_zpow_pos (estimate + 51)
  have powHigh := two_zpow_pos (estimate + 53)
  constructor
  · calc (2 : Rat) ^ (estimate + 51) * denominator
        ≤ 2 ^ (estimate + 51) * 2 ^ ((Nat.log2 denominator : Int) + 1) :=
          mul_le_mul_of_nonneg_left high'.le powLow.le
      _ = 2 ^ (Nat.log2 numerator : Int) := splitLow.symm
      _ ≤ numerator := low
  · calc (numerator : Rat) < 2 ^ ((Nat.log2 numerator : Int) + 1) := high
      _ = 2 ^ (estimate + 53) * 2 ^ (Nat.log2 denominator : Int) := splitHigh
      _ ≤ 2 ^ (estimate + 53) * denominator := mul_le_mul_of_nonneg_left low' powHigh.le

/-- The bits of a quotient are worked out in its unit. -/
theorem exists_unit_quotientBits (positive : 0 < numerator) (positive' : 0 < denominator) :
    ∃ exponent, IsUnit exponent (numerator / denominator) ∧
      quotientBits numerator denominator =
        (let significand := roundedQuotient (numerator * Nat.pow 2 (-exponent).toNat)
          (denominator * Nat.pow 2 exponent.toNat)
        if significand < fractionCount then significand
        else min ((exponent + 1074).toNat * fractionCount + significand) infiniteBits) := by
  unfold quotientBits
  dsimp only
  generalize isEstimate : Int.ofNat (Nat.log2 numerator) - Int.ofNat (Nat.log2 denominator) - 52 =
    estimate
  rcases div_mem_of_log2 positive positive' isEstimate.symm with ⟨low, high⟩
  have opposite : -52 - estimate = -(52 + estimate) := by ring
  have reaches := two_zpow_le_div_iff numerator positive' (52 + estimate)
  rw [← opposite] at reaches
  generalize isChosen : (if denominator * Nat.pow 2 (52 + estimate).toNat ≤
    numerator * Nat.pow 2 (-52 - estimate).toNat then estimate else estimate - 1) = chosen
  have isUnit : (2 : Rat) ^ (chosen + 52) ≤ numerator / denominator ∧
      (numerator / denominator : Rat) < 2 ^ (chosen + 53) := by
    rw [← isChosen]
    split
    · rename_i reached
      rw [add_comm estimate 52]
      exact ⟨reaches.mp reached, high⟩
    · rename_i notReached
      have below := lt_of_not_ge (fun above => notReached (reaches.mpr above))
      have exponents : estimate - 1 + 52 = estimate + 51 ∧ estimate - 1 + 53 = 52 + estimate := by
        omega
      rw [exponents.1, exponents.2]
      exact ⟨low, below⟩
  refine ⟨max chosen (-1074), ⟨le_max_right _ _, ?_, ?_⟩, ?_⟩
  · exact lt_of_lt_of_le isUnit.2 (two_zpow_le_iff.mpr (by omega))
  · rcases le_total chosen (-1074) with small | large
    · exact .inl (max_eq_right small)
    · rw [max_eq_left large]
      exact .inr isUnit.1
  · simp only [decide_eq_true_eq, isChosen]

/-- A quotient in units of a power of two is a quotient of whole numbers. -/
theorem div_eq_mul_zpow (positive : 0 < denominator) (exponent : Int) :
    (numerator / denominator : Rat) =
      ((numerator * Nat.pow 2 (-exponent).toNat : Nat) : Rat) /
        ((denominator * Nat.pow 2 exponent.toNat : Nat) : Rat) * 2 ^ exponent := by
  have pos : (0 : Rat) < denominator := by exact_mod_cast positive
  have power := zpow_eq_div 2 (by omega) exponent
  push_cast at power ⊢
  rw [power, Nat.pow_eq, Nat.pow_eq]
  push_cast
  field_simp

/-- Rounding a quotient in a unit gives the multiple of the unit that is at most
half a unit away. -/
theorem roundedQuotient_unit_eq (positive : 0 < denominator) {exponent : Int} {result : Nat}
    (low : (2 * result - 1) * 2 ^ (exponent - 1) ≤ (numerator / denominator : Rat))
    (high : (numerator / denominator : Rat) ≤ (2 * result + 1) * 2 ^ (exponent - 1))
    (strict : result % 2 = 1 → (2 * result - 1) * 2 ^ (exponent - 1) <
      (numerator / denominator : Rat) ∧
        (numerator / denominator : Rat) < (2 * result + 1) * 2 ^ (exponent - 1)) :
    roundedQuotient (numerator * Nat.pow 2 (-exponent).toNat)
      (denominator * Nat.pow 2 exponent.toNat) = result := by
  have half : (2 : Rat) ^ exponent = 2 * 2 ^ (exponent - 1) := by
    rw [← zpow_one_add₀ (by norm_num)]
    congr 1
    omega
  have pow := two_zpow_pos (exponent - 1)
  have positive' : 0 < denominator * Nat.pow 2 exponent.toNat :=
    Nat.mul_pos positive (Nat.pow_pos (by omega))
  rw [div_eq_mul_zpow positive exponent, half] at low high strict
  generalize numerator * Nat.pow 2 (-exponent).toNat = count at *
  generalize denominator * Nat.pow 2 exponent.toNat = step at *
  have pos : (0 : Rat) < step := by exact_mod_cast positive'
  -- all comparisons lose the common power of two and the denominator
  have leLow : (2 * result - 1) * 2 ^ (exponent - 1) ≤
      (count / step : Rat) * (2 * 2 ^ (exponent - 1)) ↔ 2 * result * step ≤ 2 * count + step := by
    rw [mul_left_comm, ← mul_assoc, mul_le_mul_iff_left₀ pow, mul_div_assoc', le_div_iff₀ pos,
      ← Nat.cast_le (α := Rat)]
    push_cast
    constructor <;> intro bound <;> linarith
  have leHigh : (count / step : Rat) * (2 * 2 ^ (exponent - 1)) ≤
      (2 * result + 1) * 2 ^ (exponent - 1) ↔ 2 * count ≤ 2 * result * step + step := by
    rw [mul_left_comm, ← mul_assoc, mul_le_mul_iff_left₀ pow, mul_div_assoc', div_le_iff₀ pos,
      ← Nat.cast_le (α := Rat)]
    push_cast
    constructor <;> intro bound <;> linarith
  have ltLow : (2 * result - 1) * 2 ^ (exponent - 1) <
      (count / step : Rat) * (2 * 2 ^ (exponent - 1)) ↔ 2 * result * step < 2 * count + step := by
    rw [mul_left_comm, ← mul_assoc, mul_lt_mul_iff_left₀ pow, mul_div_assoc', lt_div_iff₀ pos,
      ← Nat.cast_lt (α := Rat)]
    push_cast
    constructor <;> intro bound <;> linarith
  have ltHigh : (count / step : Rat) * (2 * 2 ^ (exponent - 1)) <
      (2 * result + 1) * 2 ^ (exponent - 1) ↔ 2 * count < 2 * result * step + step := by
    rw [mul_left_comm, ← mul_assoc, mul_lt_mul_iff_left₀ pow, mul_div_assoc', div_lt_iff₀ pos,
      ← Nat.cast_lt (α := Rat)]
    push_cast
    constructor <;> intro bound <;> linarith
  refine roundedQuotient_eq positive' (leLow.mp low) (leHigh.mp high) fun isOdd => ?_
  rcases strict isOdd with ⟨above, below⟩
  exact ⟨ltLow.mp above, ltHigh.mp below⟩

end

/-! ## Reading a number's interval -/

section

variable {significand : Nat} {exponent unit : Int} {isPower : Bool} {quotient : Rat}

theorem one_le_reachBelow (isPower : Bool) : 1 ≤ reachBelow isPower := by
  cases isPower <;> norm_num [reachBelow]

theorem reachBelow_le_two (isPower : Bool) : reachBelow isPower ≤ 2 := by
  cases isPower <;> norm_num [reachBelow]

/-- The unit of an interval is its number's own, or half of it below a power of
two. -/
theorem IsNearest.unit_eq (nearest : IsNearest significand exponent isPower quotient)
    (finite : IsFinite significand exponent isPower) (isUnit : IsUnit unit quotient) :
    unit = exponent ∨ (unit = exponent - 1 ∧ isPower = true ∧ quotient < 2 ^ (exponent + 52)) := by
  have pow := two_zpow_pos (exponent - 2)
  have small : (significand : Rat) + 1 ≤ 2 ^ 53 := by
    have natural : significand + 1 ≤ 2 ^ 53 := finite.small
    exact_mod_cast natural
  have shift : ∀ count : Nat, (2 : Rat) ^ (exponent - 2 + count) = 2 ^ (exponent - 2) * 2 ^ count :=
    fun count => by rw [two_zpow_add, zpow_natCast]
  have below : quotient < 2 ^ (exponent + 53) := by
    have power : exponent + 53 = exponent - 2 + (55 : Nat) := by push_cast; ring
    rw [power, shift]
    nlinarith [nearest.high]
  have notAbove : unit ≤ exponent := by
    rcases isUnit.low with least | low
    · rw [least]
      exact finite.least
    · have bounds := two_zpow_lt_iff.mp (lt_of_le_of_lt low below)
      omega
  rcases notAbove.eq_or_lt with same | less
  · exact .inl same
  · have notLeast : exponent ≠ -1074 := by
      have least := isUnit.least
      omega
    have normal := finite.normal.resolve_right notLeast
    have normalRat : (2 : Rat) ^ 52 ≤ significand := by
      have natural : 2 ^ 52 ≤ significand := normal
      exact_mod_cast natural
    have under : quotient < 2 ^ (exponent + 52) :=
      lt_of_lt_of_le isUnit.high (two_zpow_le_iff.mpr (by omega))
    have power : exponent + 52 = exponent - 2 + (54 : Nat) := by push_cast; ring
    have underQuarters : quotient < 2 ^ (exponent - 2) * 2 ^ 54 := by
      rw [power, shift] at under
      exact under
    -- the number itself is not below the power, so it is the power
    have isLeast : significand = fractionCount := by
      by_contra other
      have larger : fractionCount + 1 ≤ significand := by omega
      have largerRat : (2 : Rat) ^ 52 + 1 ≤ significand := by
        have natural : 2 ^ 52 + 1 ≤ significand := larger
        exact_mod_cast natural
      have reach := reachBelow_le_two isPower
      nlinarith [nearest.low]
    have hasPower : isPower = true := finite.power.mpr ⟨isLeast, notLeast⟩
    refine .inr ⟨?_, hasPower, under⟩
    have above : (2 : Rat) ^ (exponent + 51) ≤ quotient := by
      have power : exponent + 51 = exponent - 2 + (53 : Nat) := by push_cast; ring
      have reach := reachBelow_le_two isPower
      rw [power, shift]
      nlinarith [nearest.low]
    have bounds := two_zpow_lt_iff.mp (lt_of_le_of_lt above isUnit.high)
    omega

/-- The interval lies within half a unit around its number. -/
theorem IsNearest.within (nearest : IsNearest significand exponent isPower quotient) :
    (2 * significand - 1) * 2 ^ (exponent - 1) ≤ quotient ∧
      quotient ≤ (2 * significand + 1) * 2 ^ (exponent - 1) ∧
      (significand % 2 = 1 → (2 * significand - 1) * 2 ^ (exponent - 1) < quotient ∧
        quotient < (2 * significand + 1) * 2 ^ (exponent - 1)) := by
  have halves : (2 : Rat) ^ (exponent - 1) = 2 * 2 ^ (exponent - 2) := by
    rw [← zpow_one_add₀ (by norm_num)]
    congr 1
    ring
  have pow := two_zpow_pos (exponent - 2)
  have reach := reachBelow_le_two isPower
  rw [halves]
  refine ⟨by nlinarith [nearest.low], by nlinarith [nearest.high], fun isOdd => ?_⟩
  rcases nearest.strict isOdd with ⟨above, below⟩
  constructor <;> nlinarith

/-- Below a power of two the interval lies within a quarter, which is half of the
smaller unit. -/
theorem IsNearest.within_power (nearest : IsNearest fractionCount exponent true quotient)
    (under : quotient < 2 ^ (exponent + 52)) :
    (2 * (2 * fractionCount : Nat) - 1) * 2 ^ (exponent - 1 - 1) ≤ quotient ∧
      quotient ≤ (2 * (2 * fractionCount : Nat) + 1) * 2 ^ (exponent - 1 - 1) := by
  have quarters : (2 : Rat) ^ (exponent + 52) = 2 ^ (exponent - 2) * 2 ^ 54 := by
    have power : exponent + 52 = exponent - 2 + (54 : Nat) := by push_cast; ring
    rw [power, two_zpow_add, zpow_natCast]
  have pow := two_zpow_pos (exponent - 2)
  have single : (fractionCount : Rat) = 2 ^ 52 := by norm_num [fractionCount]
  have low := nearest.low
  rw [quarters] at under
  rw [reachBelow, if_pos rfl, single] at low
  rw [sub_sub, one_add_one_eq_two]
  push_cast
  rw [single]
  constructor <;> nlinarith

/-- A quotient in the interval of a number is read as the number. -/
theorem IsNearest.quotientBits_eq {numerator denominator : Nat} (positive : 0 < numerator)
    (positive' : 0 < denominator)
    (nearest : IsNearest significand exponent isPower (numerator / denominator))
    (finite : IsFinite significand exponent isPower) :
    quotientBits numerator denominator = finiteBits significand exponent := by
  rcases exists_unit_quotientBits positive positive' with ⟨unit, isUnit, isRead⟩
  have fits : finiteBits significand exponent ≤ infiniteBits := by
    have most : (exponent + 1074).toNat ≤ 2045 := by
      have most := finite.most
      omega
    have small := finite.small
    unfold finiteBits infiniteBits
    nlinarith
  rw [isRead]
  dsimp only
  rcases nearest.unit_eq finite isUnit with rfl | ⟨rfl, hasPower, under⟩
  · rcases nearest.within with ⟨low, high, strict⟩
    rw [roundedQuotient_unit_eq positive' low high strict]
    split
    · rename_i subnormal
      have least : unit = -1074 := finite.normal.resolve_left (Nat.not_le.mpr subnormal)
      rw [finiteBits, least]
      simp
    · exact min_eq_left fits
  · -- just below a power of two the significand rounds up, and carries into the exponent
    rcases finite.power.mp hasPower with ⟨rfl, notLeast⟩
    subst hasPower
    rcases nearest.within_power under with ⟨low, high⟩
    rw [roundedQuotient_unit_eq positive' low high fun isOdd => absurd isOdd (by decide),
      if_neg (by decide)]
    have sameBits : (exponent - 1 + 1074).toNat * fractionCount + 2 * fractionCount =
        finiteBits fractionCount exponent := by
      have step : (exponent + 1074).toNat = (exponent - 1 + 1074).toNat + 1 := by
        have least := finite.least
        omega
      rw [finiteBits, step]
      ring
    rw [sameBits]
    exact min_eq_left fits

end

section

variable {significand digits : Nat} {exponent power : Int} {isPower : Bool}

theorem ten_zpow_pos (exponent : Int) : (0 : Rat) < 10 ^ exponent :=
  zpow_pos (by norm_num) exponent

theorem ten_zpow_add (a b : Int) : (10 : Rat) ^ (a + b) = 10 ^ a * 10 ^ b :=
  zpow_add₀ (by norm_num) a b

theorem ten_zpow_le_iff {a b : Int} : (10 : Rat) ^ a ≤ 10 ^ b ↔ a ≤ b :=
  zpow_le_zpow_iff_right₀ (by norm_num)

theorem ten_zpow_lt_iff {a b : Int} : (10 : Rat) ^ a < 10 ^ b ↔ a < b :=
  zpow_lt_zpow_iff_right₀ (by norm_num)

/-- Ten binary digits are worth more than three decimal ones. -/
theorem ten_pow_le_two_pow (count : Nat) : 10 ^ (3 * (count / 10)) ≤ 2 ^ count := by
  calc 10 ^ (3 * (count / 10)) = (10 ^ 3) ^ (count / 10) := pow_mul _ _ _
    _ ≤ (2 ^ 10) ^ (count / 10) := Nat.pow_le_pow_left (by norm_num) _
    _ = 2 ^ (10 * (count / 10)) := (pow_mul _ _ _).symm
    _ ≤ 2 ^ count := Nat.pow_le_pow_right (by omega) (Nat.mul_div_le count 10)

/-- Ninety-three binary digits are worth less than twenty-eight decimal ones, and
three less than one. -/
theorem two_pow_le_ten_pow (count : Nat) :
    2 ^ count ≤ 10 ^ (28 * (count / 93) + (count % 93 / 3 + 1)) := by
  have blocks : 2 ^ (93 * (count / 93)) ≤ 10 ^ (28 * (count / 93)) := by
    rw [pow_mul, pow_mul]
    exact Nat.pow_le_pow_left (by norm_num) _
  have others : 2 ^ (count % 93) ≤ 10 ^ (count % 93 / 3 + 1) := by
    calc 2 ^ (count % 93) ≤ 2 ^ (3 * (count % 93 / 3 + 1)) :=
          Nat.pow_le_pow_right (by omega) (by omega)
      _ = (2 ^ 3) ^ (count % 93 / 3 + 1) := pow_mul _ _ _
      _ ≤ 10 ^ (count % 93 / 3 + 1) := Nat.pow_le_pow_left (by norm_num) _
  calc 2 ^ count = 2 ^ (93 * (count / 93)) * 2 ^ (count % 93) := by
        rw [← pow_add, Nat.div_add_mod]
    _ ≤ 10 ^ (28 * (count / 93)) * 10 ^ (count % 93 / 3 + 1) := Nat.mul_le_mul blocks others
    _ = _ := (pow_add _ _ _).symm

theorem two_zpow_le_ten_zpow (count : Nat) :
    (2 : Rat) ^ (count : Int) ≤ 10 ^ ((28 * (count / 93) + (count % 93 / 3 + 1) : Nat) : Int) := by
  have natural := Nat.cast_le (α := Rat).mpr (two_pow_le_ten_pow count)
  rw [Nat.cast_pow, Nat.cast_pow] at natural
  rw [zpow_natCast, zpow_natCast]
  exact natural

theorem IsNearest.lt_ten_zpow {quotient : Rat}
    (nearest : IsNearest significand exponent isPower quotient)
    (finite : IsFinite significand exponent isPower) : quotient < 10 ^ (309 : Int) := by
  have small : (significand : Rat) + 1 ≤ 2 ^ 53 := by
    have natural : significand + 1 ≤ 2 ^ 53 := finite.small
    exact_mod_cast natural
  have largest : (2 : Rat) ^ (exponent - 2) ≤ 2 ^ (969 : Int) :=
    two_zpow_le_iff.mpr (by have most := finite.most; omega)
  have pow := two_zpow_pos (exponent - 2)
  calc quotient ≤ (4 * significand + 2) * 2 ^ (exponent - 2) := nearest.high
    _ < 2 ^ 55 * 2 ^ (exponent - 2) := by nlinarith
    _ ≤ 2 ^ 55 * 2 ^ (969 : Int) := by nlinarith
    _ = 2 ^ (1024 : Int) := by rw [← zpow_natCast, ← two_zpow_add]; rfl
    _ ≤ 10 ^ (309 : Int) := two_zpow_le_ten_zpow 1024

theorem IsNearest.ten_zpow_le {quotient : Rat}
    (nearest : IsNearest significand exponent isPower quotient)
    (finite : IsFinite significand exponent isPower) (positive : 0 < significand) :
    10 ^ (-326 : Int) ≤ quotient := by
  have large : (1 : Rat) ≤ significand := by exact_mod_cast positive
  have smallest : (2 : Rat) ^ (-1076 : Int) ≤ 2 ^ (exponent - 2) :=
    two_zpow_le_iff.mpr (by have least := finite.least; omega)
  have reach := reachBelow_le_two isPower
  have pow := two_zpow_pos (exponent - 2)
  calc (10 : Rat) ^ (-326 : Int) = (10 ^ (326 : Int))⁻¹ := zpow_neg _ _
    _ ≤ (2 ^ (1075 : Int))⁻¹ := inv_anti₀ (two_zpow_pos 1075) (two_zpow_le_ten_zpow 1075)
    _ = 2 * 2 ^ (-1076 : Int) := by
        rw [← zpow_one_add₀ (by norm_num)]
        exact (zpow_neg _ _).symm
    _ ≤ 2 * 2 ^ (exponent - 2) := by nlinarith
    _ ≤ (4 * significand - reachBelow isPower) * 2 ^ (exponent - 2) := by nlinarith
    _ ≤ quotient := nearest.low

/-- The digits of a decimal in an interval are bounded by its exponent. -/
theorem IsNearest.log2_lt
    (nearest : IsNearest significand exponent isPower (digits * (10 : Rat) ^ power))
    (finite : IsFinite significand exponent isPower) (positive : 0 < digits) :
    ((3 * (Nat.log2 digits / 10) : Nat) : Int) + power < 309 := by
  have pow := ten_zpow_pos power
  have low := Nat.cast_le (α := Rat).mpr
    ((ten_pow_le_two_pow _).trans (Nat.log2_self_le positive.ne'))
  rw [Nat.cast_pow, Nat.cast_ofNat] at low
  have bound : (10 : Rat) ^ (((3 * (Nat.log2 digits / 10) : Nat) : Int) + power) <
      10 ^ (309 : Int) := by
    rw [ten_zpow_add, zpow_natCast]
    exact lt_of_le_of_lt (mul_le_mul_of_nonneg_right low pow.le) (nearest.lt_ten_zpow finite)
  exact ten_zpow_lt_iff.mp bound

/-- A decimal in the interval of a number is read as the number.  It may have a
thousand digits: with many more of them the estimate of its size would not be
good enough. -/
theorem IsNearest.decimalBits_eq (positive : 0 < digits) (few : Nat.log2 digits < 4000)
    (nearest : IsNearest significand exponent isPower (digits * (10 : Rat) ^ power))
    (finite : IsFinite significand exponent isPower) (some? : 0 < significand) :
    decimalBits digits power = finiteBits significand exponent := by
  have notZero : ¬(digits == 0) = true := by simpa using positive.ne'
  have pow := ten_zpow_pos power
  -- neither guard holds, because the decimal is neither too large nor too small
  have notLarge : ¬Int.ofNat (Nat.log2 digits) * 30103 / 100000 + power > 320 := by
    have exponents := nearest.log2_lt finite positive
    simp only [Int.ofNat_eq_natCast]
    omega
  have notSmall : ¬Int.ofNat (Nat.log2 digits) * 30103 / 100000 + power < -350 := by
    have high : (digits : Rat) ≤ ((10 ^ (28 * ((Nat.log2 digits + 1) / 93) +
        ((Nat.log2 digits + 1) % 93 / 3 + 1)) : Nat) : Rat) := by
      exact_mod_cast (Nat.lt_log2_self.le).trans (two_pow_le_ten_pow _)
    have bound : (10 : Rat) ^ (-326 : Int) ≤ 10 ^ (((28 * ((Nat.log2 digits + 1) / 93) +
        ((Nat.log2 digits + 1) % 93 / 3 + 1) : Nat) : Int) + power) := by
      rw [Nat.cast_pow, Nat.cast_ofNat] at high
      rw [ten_zpow_add, zpow_natCast]
      exact (nearest.ten_zpow_le finite some?).trans (mul_le_mul_of_nonneg_right high pow.le)
    have exponents := ten_zpow_le_iff.mp bound
    push_cast at exponents
    simp only [Int.ofNat_eq_natCast]
    omega
  unfold decimalBits
  dsimp only
  rw [if_neg notZero, if_neg notLarge, if_neg notSmall]
  refine IsNearest.quotientBits_eq (Nat.mul_pos positive (Nat.pow_pos (by omega)))
    (Nat.pow_pos (by omega)) ?_ finite
  have same : (digits : Rat) * 10 ^ power =
      ((digits * Nat.pow 10 power.toNat : Nat) : Rat) / ((Nat.pow 10 (-power).toNat : Nat) : Rat) := by
    have power := zpow_eq_div 10 (by omega) power
    push_cast at power ⊢
    rw [power, mul_div_assoc, Nat.pow_eq, Nat.pow_eq]
    push_cast
    rfl
  rw [← same]
  exact nearest

end

end Binary64
end Whittle
