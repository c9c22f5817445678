import Whittle.Number.Text
import Whittle.Proofs.Number.Shortest
import Whittle.Proofs.Parse.Numbers

namespace Whittle
namespace Binary64

/-!
# The text of a number reads back

The text of a finite number that is not negative is a literal of the language:
digits around a point, or with a power of ten.  The reader takes all of it, and
the number that it stands for is the one that was written.
-/

variable {x : Binary64} {whole fraction text rest : List Char} {power : Int}

theorem foldl_digitsValue (digits : List Char) (front : Nat) :
    digits.foldl (fun value digit => 10 * value + (digit.toNat - '0'.toNat)) front =
      front * 10 ^ digits.length + digitsValue digits := by
  induction digits generalizing front with
  | nil => simp [digitsValue]
  | cons digit digits inductionHypothesis =>
      rw [digitsValue, List.foldl_cons, List.foldl_cons, inductionHypothesis,
        inductionHypothesis (10 * 0 + _), List.length_cons, pow_succ]
      ring

theorem digitsValue_append (front behind : List Char) :
    digitsValue (front ++ behind) =
      digitsValue front * 10 ^ behind.length + digitsValue behind := by
  rw [digitsValue, List.foldl_append, foldl_digitsValue]
  rfl

theorem digitsValue_zeros (count : Nat) : digitsValue (List.replicate count '0') = 0 := by
  induction count with
  | zero => rfl
  | succ count inductionHypothesis =>
      rw [List.replicate_succ', digitsValue_append, inductionHypothesis]
      rfl

def powerText (power : Int) : List Char :=
  'e' :: (toString power).toList

theorem toList_toString_negSucc (count : Nat) :
    (toString (Int.negSucc count)).toList = '-' :: Nat.toDigits 10 (count + 1) := by
  show ("-" ++ (count + 1).repr).toList = _
  rw [String.toList_append, Nat.toList_repr]
  rfl

theorem toList_toString_ofNat (count : Nat) :
    (toString (Int.ofNat count)).toList = Nat.toDigits 10 count :=
  Nat.toList_repr

/-- No digit is a sign. -/
theorem ne_sign_of_isDigit {c : Char} (isDigit : c.isDigit = true) : c ≠ '+' ∧ c ≠ '-' := by
  constructor <;> (rintro rfl; revert isDigit; decide)

theorem exponent?_powerText (power : Int) (ends : Parse.goesOn rest = false) :
    Parse.exponent? (powerText power ++ rest) = some (powerText power, rest) := by
  have digits : ∀ count : Nat, Parse.digits? (Nat.toDigits 10 count ++ rest) =
      some (Nat.toDigits 10 count, rest) := fun count =>
    Parse.digits?_append Nat.toDigits_ne_nil Parse.isDigit_of_mem_toDigits
      (Parse.not_isDigit_head ends)
  cases power with
  | ofNat count =>
      rcases Parse.exists_toDigits_eq_cons count with ⟨c, tail, split, isDigit⟩
      have notSign := ne_sign_of_isDigit isDigit
      have read := digits count
      rw [powerText, toList_toString_ofNat, List.cons_append]
      rw [split, List.cons_append] at read ⊢
      unfold Parse.exponent?
      dsimp only
      rw [if_pos (by decide)]
      split
      · rename_i isPlus
        exact absurd (List.cons.inj isPlus).1 notSign.1
      · rename_i isMinus
        exact absurd (List.cons.inj isMinus).1 notSign.2
      · rw [read]
        rfl
  | negSucc count =>
      rw [powerText, toList_toString_negSucc]
      show (Parse.digits? (Nat.toDigits 10 (count + 1) ++ rest)).map _ = _
      rw [digits]
      rfl

theorem exponent?_powerText_self (power : Int) : exponent? (powerText power) = some power := by
  have digits : ∀ count : Nat, ((Nat.toDigits 10 count).isEmpty ||
      !(Nat.toDigits 10 count).all Char.isDigit) = false := by
    intro count
    rw [List.isEmpty_eq_false_iff.mpr Nat.toDigits_ne_nil,
      List.all_eq_true.mpr Parse.isDigit_of_mem_toDigits]
    rfl
  cases power with
  | ofNat count =>
      rcases Parse.exists_toDigits_eq_cons count with ⟨c, tail, split, isDigit⟩
      have notSign := ne_sign_of_isDigit isDigit
      have value := Parse.digitsValue_toDigits count
      have read := digits count
      rw [powerText, toList_toString_ofNat]
      rw [split] at read value ⊢
      unfold exponent?
      dsimp only
      rw [if_neg (by decide)]
      split
      · rename_i isMinus
        exact absurd (List.cons.inj isMinus).1 notSign.2
      · rename_i isPlus
        exact absurd (List.cons.inj isPlus).1 notSign.1
      · dsimp only
        rw [read, value]
        rfl
  | negSucc count =>
      have value := Parse.digitsValue_toDigits (count + 1)
      rw [powerText, toList_toString_negSucc]
      show (if ((Nat.toDigits 10 (count + 1)).isEmpty ||
          !(Nat.toDigits 10 (count + 1)).all Char.isDigit) = true then none
        else some (-Int.ofNat (digitsValue (Nat.toDigits 10 (count + 1))))) = _
      rw [digits, value]
      rfl

/-- The text is a float literal with these digits in front of its point and
behind it, and with this power of ten. -/
inductive IsLiteral (whole fraction : List Char) : Int → List Char → Prop where
  | positional : IsLiteral whole fraction 0 (whole ++ '.' :: fraction)
  | scientific (power : Int) : IsLiteral whole fraction power
      (whole ++ '.' :: fraction ++ powerText power)
  | short (power : Int) (none : fraction = []) :
      IsLiteral whole fraction power (whole ++ powerText power)

theorem floatText?_point {input behind : List Char}
    (digits : Parse.digits? input = some (whole, '.' :: behind)) :
    Parse.floatText? input =
      some (whole ++ '.' :: behind.takeWhile Char.isDigit ++
          (Parse.optionalExponent (behind.dropWhile Char.isDigit)).1,
        (Parse.optionalExponent (behind.dropWhile Char.isDigit)).2) := by
  unfold Parse.floatText?
  rw [digits]
  rfl

/-- A literal is read up to its end. -/
theorem IsLiteral.floatText?_eq (literal : IsLiteral whole fraction power text)
    (some? : whole ≠ []) (isWhole : ∀ c ∈ whole, c.isDigit = true)
    (isFraction : ∀ c ∈ fraction, c.isDigit = true) (ends : Parse.goesOn rest = false) :
    Parse.floatText? (text ++ rest) = some (text, rest) := by
  cases literal with
  | positional =>
      have digits : Parse.digits? (whole ++ '.' :: (fraction ++ rest)) =
          some (whole, '.' :: (fraction ++ rest)) :=
        Parse.digits?_append some? isWhole (by rintro c ⟨⟩; rfl)
      rw [List.append_assoc, List.cons_append, floatText?_point digits,
        Parse.takeWhile_append_eq isFraction (Parse.not_isDigit_head ends),
        Parse.dropWhile_append_eq isFraction (Parse.not_isDigit_head ends), Parse.optionalExponent,
        Parse.exponent?_eq_none ends]
      simp
  | scientific power =>
      have digits : Parse.digits? (whole ++ '.' :: (fraction ++ (powerText power ++ rest))) =
          some (whole, '.' :: (fraction ++ (powerText power ++ rest))) :=
        Parse.digits?_append some? isWhole (by rintro c ⟨⟩; rfl)
      have marked : ∀ c ∈ (powerText power ++ rest).head?, c.isDigit = false := by
        rintro c ⟨⟩
        rfl
      rw [List.append_assoc, List.append_assoc, List.cons_append, floatText?_point digits,
        Parse.takeWhile_append_eq isFraction marked, Parse.dropWhile_append_eq isFraction marked,
        Parse.optionalExponent, exponent?_powerText power ends]
      simp
  | short power none =>
      have digits : Parse.digits? (whole ++ (powerText power ++ rest)) =
          some (whole, powerText power ++ rest) :=
        Parse.digits?_append some? isWhole (by rintro c ⟨⟩; rfl)
      rw [List.append_assoc]
      unfold Parse.floatText?
      rw [digits]
      show (Parse.exponent? (powerText power ++ rest)).map _ = _
      rw [exponent?_powerText power ends]
      rfl

theorem unsignedBits?_point (some? : whole ≠ []) (isWhole : ∀ c ∈ whole, c.isDigit = true)
    (isFraction : ∀ c ∈ fraction, c.isDigit = true) (ends : ∀ c ∈ rest.head?, c.isDigit = false) :
    unsignedBits? (whole ++ '.' :: (fraction ++ rest)) =
      (exponent? rest).map fun power => decimalBits (digitsValue (whole ++ fraction))
        (power - Int.ofNat fraction.length) := by
  have point : ∀ c ∈ ('.' :: (fraction ++ rest)).head?, c.isDigit = false := by
    rintro c ⟨⟩
    rfl
  unfold unsignedBits?
  dsimp only
  rw [Parse.takeWhile_append_eq isWhole point, Parse.dropWhile_append_eq isWhole point,
    List.isEmpty_eq_false_iff.mpr some?]
  show (exponent? ((fraction ++ rest).dropWhile Char.isDigit)).map _ = _
  rw [Parse.dropWhile_append_eq isFraction ends]
  show (exponent? rest).map (fun power => decimalBits
    (digitsValue (whole ++ (fraction ++ rest).takeWhile Char.isDigit))
    (power - Int.ofNat ((fraction ++ rest).takeWhile Char.isDigit).length)) = _
  rw [Parse.takeWhile_append_eq isFraction ends]

/-- A literal stands for its digits and its power of ten. -/
theorem IsLiteral.unsignedBits?_eq (literal : IsLiteral whole fraction power text)
    (some? : whole ≠ []) (isWhole : ∀ c ∈ whole, c.isDigit = true)
    (isFraction : ∀ c ∈ fraction, c.isDigit = true) :
    unsignedBits? text = some (decimalBits (digitsValue (whole ++ fraction))
      (power - Int.ofNat fraction.length)) := by
  have marked : ∀ power, ∀ c ∈ (powerText power).head?, c.isDigit = false := by
    rintro power c ⟨⟩
    rfl
  cases literal with
  | positional =>
      have read := @unsignedBits?_point whole fraction [] some? isWhole isFraction (by simp)
      rw [List.append_nil] at read
      rw [read]
      rfl
  | scientific power =>
      have read := unsignedBits?_point some? isWhole isFraction (marked power)
      rw [List.append_assoc, List.cons_append, read, exponent?_powerText_self]
      rfl
  | short power none =>
      unfold unsignedBits?
      dsimp only
      rw [Parse.takeWhile_append_eq isWhole (marked power),
        Parse.dropWhile_append_eq isWhole (marked power), List.isEmpty_eq_false_iff.mpr some?, none]
      show (exponent? (powerText power)).map _ = _
      rw [exponent?_powerText_self]
      rfl

/-! ## The text of a decimal -/

/-- What the digits of a decimal look like as a literal: the value of all digits
is the decimal's, times the zeros that were added behind it. -/
structure IsTextOf (decimal : Shortest.Decimal) (whole fraction : List Char) (power : Int)
    (text : List Char) : Prop where
  literal : IsLiteral whole fraction power text
  some? : whole ≠ []
  isWhole : ∀ c ∈ whole, c.isDigit = true
  isFraction : ∀ c ∈ fraction, c.isDigit = true
  value : ∃ zeros : Nat, zeros ≤ 17 ∧ digitsValue (whole ++ fraction) = decimal.digits * 10 ^ zeros ∧
    power - Int.ofNat fraction.length = decimal.exponent - zeros

section

variable {decimal : Shortest.Decimal} {digits : List Char} {place : Int}

/-- Digits that all stand behind the point. -/
theorem isTextOf_small (isDigits : ∀ c ∈ digits, c.isDigit = true)
    (value : digitsValue digits = decimal.digits)
    (isPlace : place = Int.ofNat digits.length + decimal.exponent) (small : place ≤ 0) :
    IsTextOf decimal ['0'] (List.replicate (-place).toNat '0' ++ digits) 0
      (positional digits place) where
  literal := by
    rw [positional, if_pos small]
    exact .positional
  some? := List.cons_ne_nil _ _
  isWhole := List.forall_mem_singleton.mpr rfl
  isFraction := by
    intro c listed
    rcases List.mem_append.mp listed with isZero | isDigit
    · rw [(List.mem_replicate.mp isZero).2]
      rfl
    · exact isDigits c isDigit
  value := by
    refine ⟨0, Nat.zero_le _, ?_, ?_⟩
    · rw [digitsValue_append, digitsValue_append, digitsValue_zeros, value]
      simp [digitsValue]
    · simp only [List.length_append, List.length_replicate, Int.ofNat_eq_natCast] at isPlace ⊢
      omega

/-- Digits that all stand in front of the point. -/
theorem isTextOf_large (isDigits : ∀ c ∈ digits, c.isDigit = true) (some? : digits ≠ [])
    (value : digitsValue digits = decimal.digits)
    (isPlace : place = Int.ofNat digits.length + decimal.exponent) (most : place ≤ 16)
    (large : Int.ofNat digits.length ≤ place) :
    IsTextOf decimal (digits ++ List.replicate (place.toNat - digits.length) '0') ['0'] 0
      (positional digits place) where
  literal := by
    have notSmall : ¬place ≤ 0 := by
      have positive := List.length_pos_of_ne_nil some?
      simp only [Int.ofNat_eq_natCast] at large
      omega
    have within : digits.length ≤ place.toNat := by
      simp only [Int.ofNat_eq_natCast] at large
      omega
    rw [positional, if_neg notSmall]
    dsimp only
    rw [List.take_of_length_le within, List.drop_of_length_le within, List.append_assoc]
    exact .positional
  some? := List.append_ne_nil_of_left_ne_nil some? _
  isWhole := by
    intro c listed
    rcases List.mem_append.mp listed with isDigit | isZero
    · exact isDigits c isDigit
    · rw [(List.mem_replicate.mp isZero).2]
      rfl
  isFraction := List.forall_mem_singleton.mpr rfl
  value := by
    have positive := List.length_pos_of_ne_nil some?
    refine ⟨place.toNat - digits.length + 1, by omega, ?_, ?_⟩
    · rw [digitsValue_append, digitsValue_append, digitsValue_zeros, value, List.length_replicate,
        pow_succ]
      simp [digitsValue]
      ring
    · simp only [List.length_singleton, Int.ofNat_eq_natCast] at isPlace large ⊢
      omega

/-- Digits with the point among them. -/
theorem isTextOf_middle (isDigits : ∀ c ∈ digits, c.isDigit = true)
    (value : digitsValue digits = decimal.digits)
    (isPlace : place = Int.ofNat digits.length + decimal.exponent) (notSmall : ¬place ≤ 0)
    (notLarge : ¬Int.ofNat digits.length ≤ place) :
    IsTextOf decimal (digits.take place.toNat) (digits.drop place.toNat) 0
      (positional digits place) where
  literal := by
    have within : place.toNat < digits.length := by
      simp only [Int.ofNat_eq_natCast] at notLarge
      omega
    have some? : digits.drop place.toNat ≠ [] := List.drop_eq_nil_iff.not.mpr (by omega)
    rw [positional, if_neg notSmall]
    dsimp only
    rw [List.isEmpty_eq_false_iff.mpr some?, List.length_take, min_eq_left within.le, Nat.sub_self,
      List.replicate_zero, List.append_nil, List.append_assoc, if_neg Bool.false_ne_true]
    exact .positional
  some? := by
    intro none
    rcases List.take_eq_nil_iff.mp none with isZero | isEmpty
    · omega
    · rw [isEmpty] at notLarge
      exact notLarge (by simp only [List.length_nil, Int.ofNat_eq_natCast]; omega)
  isWhole := fun c listed => isDigits c (List.mem_of_mem_take listed)
  isFraction := fun c listed => isDigits c (List.mem_of_mem_drop listed)
  value := by
    refine ⟨0, Nat.zero_le _, ?_, ?_⟩
    · rw [List.take_append_drop, value, pow_zero, mul_one]
    · simp only [List.length_drop, Int.ofNat_eq_natCast] at isPlace notLarge ⊢
      omega

/-- Digits with a power of ten. -/
theorem isTextOf_scientific {c : Char} {tail : List Char}
    (isDigits : ∀ digit ∈ c :: tail, digit.isDigit = true)
    (value : digitsValue (c :: tail) = decimal.digits)
    (isPlace : place = Int.ofNat (c :: tail).length + decimal.exponent) :
    IsTextOf decimal [c] tail (place - 1) (scientific (c :: tail) place) where
  literal := by
    cases tail with
    | nil => exact .short (place - 1) rfl
    | cons next tail => exact .scientific (place - 1)
  some? := List.cons_ne_nil _ _
  isWhole := fun digit listed =>
    isDigits digit (List.mem_singleton.mp listed ▸ List.mem_cons_self)
  isFraction := fun digit listed => isDigits digit (List.mem_cons_of_mem _ listed)
  value := by
    refine ⟨0, Nat.zero_le _, ?_, ?_⟩
    · rw [List.singleton_append, value, pow_zero, mul_one]
    · simp only [List.length_cons, Int.ofNat_eq_natCast] at isPlace ⊢
      omega

end

theorem exists_isTextOf (decimal : Shortest.Decimal) :
    ∃ whole fraction power, IsTextOf decimal whole fraction power (decimalText decimal) := by
  have isDigits := @Parse.isDigit_of_mem_toDigits decimal.digits
  have value := Parse.digitsValue_toDigits decimal.digits
  rcases Parse.exists_toDigits_eq_cons decimal.digits with ⟨c, tail, split, _⟩
  have written : (toString decimal.digits).toList = Nat.toDigits 10 decimal.digits :=
    Nat.toList_repr
  unfold decimalText
  rw [written]
  dsimp only
  generalize isPlace : Int.ofNat (Nat.toDigits 10 decimal.digits).length + decimal.exponent = place
  split
  · rename_i near
    by_cases small : place ≤ 0
    · exact ⟨_, _, _, isTextOf_small isDigits value isPlace.symm small⟩
    · by_cases large : Int.ofNat (Nat.toDigits 10 decimal.digits).length ≤ place
      · exact ⟨_, _, _,
          isTextOf_large isDigits Nat.toDigits_ne_nil value isPlace.symm near.2 large⟩
      · exact ⟨_, _, _, isTextOf_middle isDigits value isPlace.symm small large⟩
  · rw [split] at isDigits value isPlace ⊢
    exact ⟨_, _, _, isTextOf_scientific isDigits value isPlace.symm⟩

section

variable {significand : Nat} {exponent : Int} {isPower : Bool}

theorem magnitudeBits_lt (x : Binary64) : x.magnitudeBits < 2048 * fractionCount :=
  Nat.mod_lt _ (by decide)

/-- A finite number is given by its bits. -/
theorem isFinite_of_magnitude (finite : x.magnitude = .finite significand exponent isPower) :
    IsFinite significand exponent isPower ∧ x.magnitudeBits = finiteBits significand exponent := by
  have split := Nat.div_add_mod x.magnitudeBits fractionCount
  have below : x.magnitudeBits % fractionCount < fractionCount := Nat.mod_lt _ (by decide)
  have within : x.magnitudeBits / fractionCount < 2048 :=
    Nat.div_lt_of_lt_mul (by rw [mul_comm]; exact x.magnitudeBits_lt)
  unfold magnitude at finite
  dsimp only at finite
  generalize x.magnitudeBits / fractionCount = field at *
  generalize x.magnitudeBits % fractionCount = fraction at *
  split at finite
  · split at finite <;> cases finite
  · rename_i notLast
    rw [beq_iff_eq] at notLast
    split at finite
    · rename_i isZero
      rw [beq_iff_eq] at isZero
      cases finite
      refine ⟨⟨le_refl _, by omega, by omega, .inr rfl, by simp⟩, ?_⟩
      rw [← split, isZero]
      rfl
    · rename_i notZero
      rw [beq_iff_eq] at notZero
      cases finite
      refine ⟨⟨by simp; omega, by simp; omega, by omega, .inl (by omega), ?_⟩, ?_⟩
      · simp
        omega
      · have step : (Int.ofNat field - 1075 + 1074).toNat + 1 = field := by simp; omega
        rw [finiteBits, ← split]
        generalize (Int.ofNat field - 1075 + 1074).toNat = previous at *
        rw [← step]
        ring

/-- A number that is not negative is its bits. -/
theorem ofMagnitude_magnitudeBits (nonneg : x.isNegative = false) :
    ofMagnitude false x.magnitudeBits = x := by
  have positive : 0 < magnitudeCount := by decide
  have small : x.bits.toNat < magnitudeCount := by
    have within : x.bits.toNat < 2 * magnitudeCount := x.bits.toNat_lt
    have notOne : ¬x.bits.toNat / magnitudeCount = 1 := of_decide_eq_false nonneg
    by_contra large
    refine notOne (Nat.div_eq_of_lt_le ?_ ?_) <;> omega
  have same : ofMagnitude false x.magnitudeBits = ⟨UInt64.ofNat (0 + x.magnitudeBits)⟩ := rfl
  rw [same, magnitudeBits, Nat.mod_eq_of_lt small, Nat.zero_add, UInt64.ofNat_toNat]

theorem log2_mul_ten_pow_lt {count limit : Nat} (positive : 0 < count)
    (few : Nat.log2 count < limit) (zeros : Nat) :
    Nat.log2 (count * 10 ^ zeros) < limit + 4 * zeros := by
  have few' : 10 ^ zeros ≤ 2 ^ (4 * zeros) := by
    rw [pow_mul]
    exact Nat.pow_le_pow_left (by norm_num) _
  rw [Nat.log2_lt (Nat.mul_pos positive (Nat.pow_pos (by omega))).ne', pow_add]
  exact Nat.mul_lt_mul_of_lt_of_le ((Nat.log2_lt positive.ne').mp few) few'
    (Nat.pow_pos (by omega))

/-- The text of a number is a literal that stands for its bits. -/
theorem exists_literal (nonneg : x.isNegative = false)
    (finite : x.magnitude = .finite significand exponent isPower) :
    ∃ whole fraction power, IsLiteral whole fraction power x.text.toList ∧ whole ≠ [] ∧
      (∀ c ∈ whole, c.isDigit = true) ∧ (∀ c ∈ fraction, c.isDigit = true) ∧
      decimalBits (digitsValue (whole ++ fraction)) (power - Int.ofNat fraction.length) =
        x.magnitudeBits := by
  rcases isFinite_of_magnitude finite with ⟨isFinite, bits⟩
  rw [text, nonneg, finite]
  dsimp only
  rcases Nat.eq_zero_or_pos significand with rfl | positive
  · have noDecimal : Shortest.decimal? 0 exponent isPower = none := if_pos rfl
    have isZero : exponent = -1074 := isFinite.normal.resolve_left (by decide)
    rw [noDecimal]
    have isDigit : ∀ c ∈ ['0'], c.isDigit = true := List.forall_mem_singleton.mpr rfl
    refine ⟨['0'], ['0'], 0, .positional, List.cons_ne_nil _ _, isDigit, isDigit, ?_⟩
    rw [bits, isZero]
    rfl
  · rcases Shortest.exists_decimal? isFinite positive with ⟨decimal, found, nearest, some?, few⟩
    rcases exists_isTextOf decimal with ⟨whole, fraction, power, isText⟩
    rcases isText.value with ⟨zeros, most, value, place⟩
    have same : ((decimal.digits * 10 ^ zeros : Nat) : Rat) * 10 ^ (decimal.exponent - zeros) =
        decimal.digits * (10 : Rat) ^ decimal.exponent := by
      push_cast
      rw [mul_assoc, ← zpow_natCast, ← ten_zpow_add]
      congr 2
      ring
    have some?' : 0 < decimal.digits * 10 ^ zeros := Nat.mul_pos some? (Nat.pow_pos (by omega))
    have few' := log2_mul_ten_pow_lt some? few zeros
    rw [found]
    refine ⟨whole, fraction, power, ?_, isText.some?, isText.isWhole, isText.isFraction, ?_⟩
    · have noSign : ((if false = true then "-" else "") ++
          String.ofList (decimalText decimal)).toList = decimalText decimal := by simp
      dsimp only
      rw [noSign]
      exact isText.literal
    · rw [value, place, bits]
      exact IsNearest.decimalBits_eq some?' (by omega) (same ▸ nearest) isFinite positive

theorem exists_text_eq_cons (nonneg : x.isNegative = false)
    (finite : x.magnitude = .finite significand exponent isPower) :
    ∃ c tail, x.text.toList = c :: tail ∧ c.isDigit = true := by
  rcases exists_literal nonneg finite with ⟨whole, fraction, power, literal, some?, isWhole, _⟩
  rcases List.exists_cons_of_ne_nil some? with ⟨c, tail, rfl⟩
  have isDigit := isWhole c List.mem_cons_self
  generalize x.text.toList = text at *
  cases literal with
  | positional => exact ⟨c, _, rfl, isDigit⟩
  | scientific power => exact ⟨c, _, rfl, isDigit⟩
  | short power none => exact ⟨c, _, rfl, isDigit⟩

theorem floatText?_text (nonneg : x.isNegative = false)
    (finite : x.magnitude = .finite significand exponent isPower)
    (ends : Parse.goesOn rest = false) :
    Parse.floatText? (x.text.toList ++ rest) = some (x.text.toList, rest) := by
  rcases exists_literal nonneg finite with
    ⟨whole, fraction, power, literal, some?, isWhole, isFraction, _⟩
  exact literal.floatText?_eq some? isWhole isFraction ends

theorem toLower_of_isDigit {c : Char} (isDigit : c.isDigit = true) : c.toLower = c := by
  have notUpper : ¬(c.val ≥ 'A'.val ∧ c.val ≤ 'Z'.val) := by
    rintro ⟨above, _⟩
    rw [Char.isDigit, Bool.and_eq_true, decide_eq_true_iff, decide_eq_true_iff] at isDigit
    exact absurd (UInt32.le_trans above isDigit.2) (by decide)
  exact dif_neg notUpper

/-- What begins with a digit is no name and has no sign. -/
theorem ofText?_of_isDigit {c : Char} {tail : List Char} (isDigit : c.isDigit = true) :
    ofText? (c :: tail) = (unsignedBits? (c :: tail)).map (ofMagnitude false) := by
  have notSign := ne_sign_of_isDigit isDigit
  have differ : ∀ {other : Char} {others : List Char}, other.isDigit = false →
      ((c :: tail).map Char.toLower == other :: others) = false := by
    intro other others notDigit
    have notSame : c ≠ other := by
      rintro rfl
      rw [isDigit] at notDigit
      cases notDigit
    rw [List.map_cons, toLower_of_isDigit isDigit]
    show (c == other && _) = false
    rw [beq_false_of_ne notSame, Bool.false_and]
  have noName : magnitudeBits? (c :: tail) = unsignedBits? (c :: tail) := by
    unfold magnitudeBits?
    dsimp only
    rw [differ (by decide), differ (by decide), differ (by decide)]
    rfl
  unfold ofText?
  split
  · rename_i isMinus
    exact absurd (List.cons.inj isMinus).1 notSign.2
  · rename_i isPlus
    exact absurd (List.cons.inj isPlus).1 notSign.1
  · rw [noName]

/-- The text of a finite number that is not negative reads back. -/
theorem ofText?_text (nonneg : x.isNegative = false)
    (finite : x.magnitude = .finite significand exponent isPower) :
    ofText? x.text.toList = some x := by
  rcases exists_literal nonneg finite with
    ⟨whole, fraction, power, literal, some?, isWhole, isFraction, bits⟩
  have isRead := literal.unsignedBits?_eq some? isWhole isFraction
  rcases exists_text_eq_cons nonneg finite with ⟨c, tail, split, isDigit⟩
  rw [split] at isRead ⊢
  rw [ofText?_of_isDigit isDigit, isRead, bits, Option.map_some, ofMagnitude_magnitudeBits nonneg]

end

end Binary64
end Whittle
