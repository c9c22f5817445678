import Whittle.Parse.Expr
import Whittle.Proofs.Parse.Tokens

namespace Whittle
namespace Parse

/-!
# Reading numbers

A run of digits is read up to its end.  What makes a float literal of it is a
point or an exponent directly behind it, and neither is there if the text goes
on with something else.
-/

variable {rest : List Char}

theorem isWordChar_of_isDigit {c : Char} (isDigit : c.isDigit = true) : isWordChar c = true := by
  simp [isWordChar, Char.isAlphanum, isDigit]

/-- Where no word goes on, no run of digits does. -/
theorem not_isDigit_head (ends : goesOn rest = false) : ∀ c ∈ rest.head?, c.isDigit = false := by
  intro c first
  by_contra isDigit
  have isWordChar := isWordChar_of_isDigit (eq_true_of_ne_false isDigit)
  rw [not_isWordChar_head ends c first] at isWordChar
  cases isWordChar

/-- A run of digits that is not empty is read up to its end. -/
theorem digits?_append {digits : List Char} (some? : digits ≠ [])
    (all : ∀ c ∈ digits, c.isDigit = true) (ends : ∀ c ∈ rest.head?, c.isDigit = false) :
    digits? (digits ++ rest) = some (digits, rest) := by
  unfold digits?
  rw [takeWhile_append_eq all ends, dropWhile_append_eq all ends]
  split
  · rename_i none
    exact absurd rfl some?
  · rfl

/-- No exponent begins where no word goes on. -/
theorem exponent?_eq_none (ends : goesOn rest = false) : exponent? rest = none := by
  cases rest with
  | nil => rfl
  | cons mark rest =>
      have notMark : ¬(mark == 'e' || mark == 'E') = true := by
        rw [Bool.or_eq_true, beq_iff_eq, beq_iff_eq]
        rintro (rfl | rfl) <;> cases ends
      unfold exponent?
      exact if_neg notMark

theorem isDigit_of_mem_toDigits {value : Nat} :
    ∀ c ∈ Nat.toDigits 10 value, c.isDigit = true := fun _ listed =>
  Nat.isDigit_of_mem_toDigits (by decide) (by decide) listed

theorem exists_toDigits_eq_cons (value : Nat) :
    ∃ c tail, Nat.toDigits 10 value = c :: tail ∧ c.isDigit = true := by
  cases split : Nat.toDigits 10 value with
  | nil => exact absurd split Nat.toDigits_ne_nil
  | cons c tail =>
      have first : c ∈ Nat.toDigits 10 value := by
        rw [split]
        exact List.mem_cons_self
      exact ⟨c, tail, rfl, isDigit_of_mem_toDigits c first⟩

theorem digitsValue_toDigits (value : Nat) :
    Binary64.digitsValue (Nat.toDigits 10 value) = value := by
  rw [Binary64.digitsValue, ← Nat.ofDigitChars_eq_foldl, Nat.ofDigitChars_ten_toDigits]

/-- The text of an integer that is not negative is its digits. -/
theorem toList_toString_of_nonneg {value : Int} (nonneg : 0 ≤ value) :
    (toString value).toList = Nat.toDigits 10 value.toNat := by
  cases value with
  | ofNat count => exact Nat.toList_repr
  | negSucc count => cases nonneg

/-- Digits are a literal of an integer where no point and no exponent follows
them. -/
theorem number_eq_int {value : Nat} (fits : value ≤ largestInt) (ends : goesOn rest = false)
    (noPoint : rest.head? ≠ some '.') :
    number (Nat.toDigits 10 value ++ rest) = .ok (.int .unnumbered value, rest) := by
  have digits : digits? (Nat.toDigits 10 value ++ rest) = some (Nat.toDigits 10 value, rest) :=
    digits?_append Nat.toDigits_ne_nil isDigit_of_mem_toDigits (not_isDigit_head ends)
  have noFloat : floatText? (Nat.toDigits 10 value ++ rest) = none := by
    unfold floatText?
    rw [digits]
    split
    · rename_i split
      cases split
      exact absurd rfl noPoint
    · rename_i split
      cases split
      rw [exponent?_eq_none ends]
      rfl
    · rename_i none
      cases none
  unfold number
  rw [Reader.get_bind, noFloat]
  dsimp only
  rw [Reader.get_bind, digits]
  dsimp only
  rw [Reader.set_bind, digitsValue_toDigits, if_pos fits]
  rfl

/-- What has the form of a float literal is read as the number that it stands
for. -/
theorem number_eq_float {text : List Char} {value : Binary64}
    (isFloat : floatText? (text ++ rest) = some (text, rest))
    (means : Binary64.ofText? text = some value) :
    number (text ++ rest) = .ok (.float .unnumbered value, rest) := by
  unfold number
  rw [Reader.get_bind, isFloat]
  dsimp only
  rw [Reader.set_bind, means]
  rfl

end Parse
end Whittle
