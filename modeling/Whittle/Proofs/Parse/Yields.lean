import Whittle.Proofs.Number.Literals
import Whittle.Proofs.RoundTrip.Printable

namespace Whittle
namespace Parse

/-!
# What readers make up

A reader makes names of words that are names, and numbers of digits.  So whatever text an
expression comes from, its names are names and its literals can be written.
-/

/-- Whatever the reader reads has the property. -/
def Yields {α : Type} (reader : Reader α) (P : α → Prop) : Prop :=
  ∀ ⦃input rest : List Char⦄ ⦃a : α⦄, reader input = .ok (a, rest) → P a

namespace Yields

variable {α β : Type} {P Q : α → Prop} {R : β → Prop}

theorem mono {reader : Reader α} (yields : Yields reader P) (weaker : ∀ a, P a → Q a) :
    Yields reader Q :=
  fun _ _ _ isRead => weaker _ (yields isRead)

theorem bind {first : Reader α} {second : α → Reader β} (yields : Yields first P)
    (behind : ∀ a, P a → Yields (second a) R) : Yields (first >>= second) R := by
  intro input rest b isRead
  rcases Reader.bind_eq_ok_iff.mp isRead with ⟨a, between, isFirst, isSecond⟩
  exact behind a (yields isFirst) isSecond

/-- What is read first may not matter. -/
theorem after {first : Reader α} {second : α → Reader β} (behind : ∀ a, Yields (second a) R) :
    Yields (first >>= second) R := by
  intro input rest b isRead
  rcases Reader.bind_eq_ok_iff.mp isRead with ⟨a, between, _, isSecond⟩
  exact behind a isSecond

theorem pure {a : α} (holds : P a) : Yields (pure a) P := by
  intro input rest b isRead
  rw [← (Reader.pure_eq_ok_iff.mp isRead).1]
  exact holds

theorem fail (cause : Cause) : Yields (Reader.fail cause) P :=
  fun _ _ _ isRead => nomatch isRead

theorem failAt (rest : List Char) : Yields (Reader.failAt rest) P :=
  fun _ _ _ isRead => nomatch isRead

theorem either {first second : Reader α} (yields : Yields first P) (yields' : Yields second P) :
    Yields (Reader.either first second) P := by
  intro input rest a isRead
  rw [Reader.either] at isRead
  split at isRead
  · rename_i read isFirst
    cases isRead
    exact yields isFirst
  · exact yields' isRead

theorem manyUntil {closed : Reader Bool} {item : Reader α} (yields : Yields item P) (fuel : Nat) :
    Yields (Reader.manyUntil closed item fuel) fun all => ∀ a ∈ all, P a := by
  induction fuel with
  | zero => exact fail _
  | succ fuel inductionHypothesis =>
      rw [Reader.manyUntil]
      refine after fun isClosed => ?_
      split
      · exact pure (List.forall_mem_nil _)
      · exact yields.bind fun a holds => inductionHypothesis.bind fun others holdOthers =>
          pure (List.forall_mem_cons.mpr ⟨holds, holdOthers⟩)

theorem manyBehind {separator : Reader Unit} {item : Reader α} (yields : Yields item P) (fuel : Nat) :
    Yields (Reader.manyBehind separator item fuel) fun all => ∀ a ∈ all, P a := by
  induction fuel with
  | zero => exact pure (List.forall_mem_nil _)
  | succ fuel inductionHypothesis =>
      intro input rest all isRead
      simp only [Reader.manyBehind] at isRead
      split at isRead
      · cases isRead
        exact List.forall_mem_nil _
      · rename_i first left isFirst
        have holds : P first := by
          rcases Reader.bind_eq_ok_iff.mp isFirst with ⟨_, _, _, isItem⟩
          exact yields isItem
        cases isBehind : Reader.manyBehind separator item fuel left with
        | error stop => simp [isBehind, Except.map] at isRead
        | ok read =>
            rcases read with ⟨others, left'⟩
            simp only [isBehind, Except.map, Except.ok.injEq, Prod.mk.injEq] at isRead
            rw [← isRead.1]
            exact List.forall_mem_cons.mpr ⟨holds, inductionHypothesis isBehind⟩

end Yields

theorem yields_word : Yields word fun name => isWord name = true := by
  refine .after fun _ => .after fun chars => ?_
  split
  · rename_i c rest
    split
    · rename_i starts
      refine .after fun _ => .pure ?_
      rw [isWord, String.toList_ofList]
      simp only [starts, Bool.true_and]
      exact List.all_takeWhile
    · exact .fail _
  · exact .fail _

theorem yields_identifier : Yields identifier fun name => isName name = true := by
  refine .after fun start => yields_word.bind fun name word => ?_
  split
  · exact .failAt _
  · rename_i chosen
    refine .pure ?_
    simp only [Bool.or_eq_true, not_or, Bool.not_eq_true, Option.isSome_eq_false_iff] at chosen
    rw [isName, word, chosen.1, chosen.2]
    rfl

theorem isPrintable_builtin : ∀ ty ∈ Ty.builtin, ty.isPrintable = true := by
  decide

theorem yields_typeName : Yields typeName fun ty => ty.isPrintable = true := by
  refine .after fun start => yields_word.bind fun name word => ?_
  split
  · exact .failAt _
  · rename_i notReserved
    refine .pure ?_
    cases isKeyword : Ty.ofKeyword? name with
    | some ty =>
        rw [Ty.ofName, isKeyword, Option.getD_some]
        exact isPrintable_builtin ty (List.mem_of_find?_eq_some isKeyword)
    | none =>
        rw [Ty.ofName, isKeyword, Option.getD_none, Ty.isPrintable, isName, word,
          Bool.eq_false_iff.mpr notReserved, isKeyword]
        rfl

end Parse

namespace Binary64

theorem quotientBits_le (numerator denominator : Nat) :
    quotientBits numerator denominator ≤ infiniteBits := by
  -- Only the last choice matters, and not what the significand is.
  have bounded : ∀ significand shifted : Nat, (if significand < fractionCount then significand
      else min shifted infiniteBits) ≤ infiniteBits := by
    intro significand shifted
    split
    · rename_i small
      exact Nat.le_trans (Nat.le_of_lt small) (by decide)
    · exact Nat.min_le_right _ _
  exact bounded _ _

theorem decimalBits_le (digits : Nat) (exponent : Int) : decimalBits digits exponent ≤ infiniteBits := by
  unfold decimalBits
  dsimp only
  split
  · exact Nat.zero_le _
  · split
    · exact Nat.le_refl _
    · split
      · exact Nat.zero_le _
      · exact quotientBits_le _ _

theorem unsignedBits?_le {text : List Char} {bits : Nat} (isBits : unsignedBits? text = some bits) :
    bits ≤ infiniteBits := by
  unfold unsignedBits? at isBits
  extract_lets whole behindWhole at isBits
  split at isBits
  rcases Option.ite_none_left_eq_some.mp isBits with ⟨_, isBits⟩
  rcases Option.map_eq_some_iff.mp isBits with ⟨exponent, _, rfl⟩
  exact decimalBits_le _ _

theorem magnitudeBits?_lt {text : List Char} {bits : Nat} (isBits : magnitudeBits? text = some bits) :
    bits < magnitudeCount := by
  have infinite : infiniteBits < magnitudeCount := by decide
  unfold magnitudeBits? at isBits
  dsimp only at isBits
  split at isBits
  · cases isBits
    exact infinite
  · split at isBits
    · cases isBits
      decide
    · exact Nat.lt_of_le_of_lt (unsignedBits?_le isBits) infinite

theorem isNegative_ofMagnitude {bits : Nat} (small : bits < magnitudeCount) :
    (ofMagnitude false bits).isNegative = false := by
  have fits : bits < 2 ^ 64 := Nat.lt_trans small (by decide)
  have isBits : (ofMagnitude false bits).bits.toNat = bits := by
    simp only [ofMagnitude, Bool.false_eq_true, if_false, Nat.zero_add, UInt64.toNat_ofNat']
    exact Nat.mod_eq_of_lt fits
  rw [isNegative, isBits, Nat.div_eq_of_lt small]
  rfl

/-- A text without a minus sign stands for a number that is not negative. -/
theorem isNegative_of_ofText? {text : List Char} {x : Binary64} (noSign : text.head? ≠ some '-')
    (isNumber : ofText? text = some x) : x.isNegative = false := by
  unfold ofText? at isNumber
  split at isNumber
  · exact absurd rfl noSign
  · rcases Option.map_eq_some_iff.mp isNumber with ⟨bits, isBits, rfl⟩
    exact isNegative_ofMagnitude (magnitudeBits?_lt isBits)
  · rcases Option.map_eq_some_iff.mp isNumber with ⟨bits, isBits, rfl⟩
    exact isNegative_ofMagnitude (magnitudeBits?_lt isBits)

end Binary64

namespace Parse

theorem head?_of_digits? {input digits rest : List Char} (areDigits : digits? input = some (digits, rest)) :
    ∃ c tail, digits = c :: tail ∧ c.isDigit = true := by
  unfold digits? at areDigits
  split at areDigits
  · cases areDigits
  · rename_i found notEmpty
    cases areDigits
    cases isTaken : input.takeWhile Char.isDigit with
    | nil => exact absurd isTaken notEmpty
    | cons c tail =>
        have allDigits : (input.takeWhile Char.isDigit).all Char.isDigit = true := List.all_takeWhile
        rw [isTaken, List.all_cons, Bool.and_eq_true] at allDigits
        exact ⟨c, tail, rfl, allDigits.1⟩

/-- A float literal has no sign. -/
theorem head?_floatText? {input text rest : List Char} (isFloat : floatText? input = some (text, rest)) :
    text.head? ≠ some '-' := by
  have digit : ∀ {c : Char}, c.isDigit = true → c ≠ '-' := fun isDigit same => by
    rw [same] at isDigit
    exact absurd isDigit (by decide)
  unfold floatText? at isFloat
  split at isFloat
  · rename_i whole behind areDigits
    rcases head?_of_digits? areDigits with ⟨c, tail, rfl, isDigit⟩
    cases isFloat
    simpa using digit isDigit
  · rename_i whole behind _ areDigits
    rcases head?_of_digits? areDigits with ⟨c, tail, rfl, isDigit⟩
    rcases Option.map_eq_some_iff.mp isFloat with ⟨exponent, _, same⟩
    cases same
    simpa using digit isDigit
  · split at isFloat
    · rcases Option.map_eq_some_iff.mp isFloat with ⟨exponent, _, same⟩
      cases same
      simp
    · cases isFloat

end Parse

/-! ## Expressions -/

/-- Whether a node could have come from a text: its names are names and its literals have
no sign. -/
def Expr.isSpelled : Expr → Bool
  | .int _ value => 0 ≤ value && value ≤ Parse.largestInt
  | .float _ value => !value.isNegative
  | .var _ name => Parse.isName name
  | .call _ callee _ => Parse.isWord callee && !Parse.isReserved callee
  | .member _ _ field => Parse.isWord field
  | _ => true

/-- Whether all nodes of an expression could have come from a text. -/
def Expr.isLegible (e : Expr) : Bool :=
  e.subexprs.all Expr.isSpelled

theorem Expr.isLegible_iff {e : Expr} :
    e.isLegible = true ↔ e.isSpelled = true ∧ ∀ child ∈ e.children, child.isLegible = true := by
  simp only [isLegible, List.all_eq_true]
  rw [Expr.subexprs_eq_cons, List.forall_mem_cons, List.forall_mem_flatMap]

namespace Parse

open Whittle.Expr (isLegible_iff)

theorem yields_number : Yields number fun e => e.isLegible = true := by
  refine .after fun chars => ?_
  split
  · rename_i text rest isFloat
    refine .after fun _ => ?_
    split
    · rename_i value isValue
      refine .pure (isLegible_iff.mpr ⟨?_, List.forall_mem_nil _⟩)
      rw [Expr.isSpelled, Binary64.isNegative_of_ofText? (head?_floatText? isFloat) isValue]
      rfl
    · exact .fail _
  · refine .after fun digits => ?_
    split
    · refine .after fun _ => ?_
      extract_lets value
      split
      · rename_i fits
        refine .pure (isLegible_iff.mpr ⟨?_, List.forall_mem_nil _⟩)
        rw [Expr.isSpelled, Bool.and_eq_true, decide_eq_true_eq, decide_eq_true_eq]
        exact ⟨Int.natCast_nonneg _, Int.ofNat_le.mpr fits⟩
      · exact .fail _
    · exact .fail _

section

variable {inner : Reader Expr} (yields : Yields inner fun e => e.isLegible = true) (fuel : Nat)
include yields

theorem yields_arguments :
    Yields (arguments inner fuel) fun args => ∀ arg ∈ args, arg.isLegible = true := by
  refine .after fun _ => .after fun closed => ?_
  split
  · exact .pure (List.forall_mem_nil _)
  · refine .after fun isVoid => ?_
    split
    · exact .after fun _ => .pure (List.forall_mem_nil _)
    · exact yields.bind fun first legible => (Yields.manyBehind yields fuel).bind fun others legibles =>
        .pure (List.forall_mem_cons.mpr ⟨legible, legibles⟩)

theorem yields_named : Yields (named inner fuel) fun e => e.isLegible = true := by
  refine .after fun start => yields_word.bind fun name word => .after fun isCall => ?_
  split
  · split
    · exact .failAt _
    · rename_i notReserved
      refine .after fun _ => (yields_arguments yields fuel).bind fun args legible => .after fun _ => .pure ?_
      refine isLegible_iff.mpr ⟨?_, legible⟩
      rw [Expr.isSpelled, word, Bool.eq_false_iff.mpr notReserved]
      rfl
  · split
    · exact .failAt _
    · rename_i chosen
      refine .pure (isLegible_iff.mpr ⟨?_, List.forall_mem_nil _⟩)
      simp only [Bool.or_eq_true, not_or, Bool.not_eq_true, Option.isSome_eq_false_iff] at chosen
      rw [Expr.isSpelled, isName, word, chosen.1, chosen.2]
      rfl

theorem yields_primary : Yields (primary inner fuel) fun e => e.isLegible = true := by
  refine .after fun _ => .after fun chars => ?_
  split
  · exact .after fun _ => yields.bind fun e legible => .after fun _ =>
      .pure (isLegible_iff.mpr ⟨rfl, List.forall_mem_singleton.mpr legible⟩)
  · split
    · exact yields_number
    · refine .after fun isTrue => ?_
      split
      · exact .after fun _ => .pure rfl
      · refine .after fun isFalse => ?_
        split
        · exact .after fun _ => .pure rfl
        · exact yields_named yields fuel

theorem yields_suffixes {e : Expr} (legible : e.isLegible = true) :
    Yields (suffixes inner fuel e) fun e => e.isLegible = true := by
  induction fuel generalizing e with
  | zero => exact .fail _
  | succ fuel inductionHypothesis =>
      have around : ∀ op, (Expr.unary .unnumbered op e).isLegible = true := fun op =>
        isLegible_iff.mpr ⟨rfl, List.forall_mem_singleton.mpr legible⟩
      refine .after fun start => .after fun _ => .after fun chars => ?_
      split
      · split
        · refine .after fun _ => yields_word.bind fun field word => inductionHypothesis ?_
          exact isLegible_iff.mpr ⟨word, List.forall_mem_singleton.mpr legible⟩
        · exact .after fun _ => .pure legible
      · refine .after fun _ => yields.bind fun position legible' => .after fun _ => inductionHypothesis ?_
        exact isLegible_iff.mpr ⟨rfl, List.forall_mem_cons.mpr
          ⟨legible, List.forall_mem_singleton.mpr legible'⟩⟩
      · exact .after fun _ => inductionHypothesis (around _)
      · exact .after fun _ => inductionHypothesis (around _)
      · exact .after fun _ => .pure legible

theorem yields_prefixed : Yields (prefixed inner fuel) fun e => e.isLegible = true := by
  induction fuel with
  | zero => exact .fail _
  | succ fuel inductionHypothesis =>
      refine .after fun _ => .after fun chars => ?_
      split
      · refine .after fun _ => inductionHypothesis.bind fun operand legible => .pure ?_
        split
        · exact isLegible_iff.mpr ⟨rfl, List.forall_mem_singleton.mpr legible⟩
        · exact legible
      · exact (yields_primary yields _).bind fun e legible => yields_suffixes yields _ legible

omit yields in
theorem yields_climb {operand : Reader Expr} (yields : Yields operand fun e => e.isLegible = true)
    {least : Nat} {lhs : Expr} (legible : lhs.isLegible = true) :
    Yields (climb operand fuel least lhs) fun e => e.isLegible = true := by
  induction fuel generalizing least lhs with
  | zero => exact .fail _
  | succ fuel inductionHypothesis =>
      refine .after fun start => .after fun _ => .after fun chars => ?_
      split
      · split
        · refine .after fun _ => yields.bind fun first isFirst =>
            (inductionHypothesis isFirst).bind fun rhs isRhs => inductionHypothesis ?_
          exact isLegible_iff.mpr ⟨rfl, List.forall_mem_cons.mpr
            ⟨legible, List.forall_mem_singleton.mpr isRhs⟩⟩
        · exact .after fun _ => .pure legible
      · exact .after fun _ => .pure legible

theorem yields_binary : Yields (binary inner fuel) fun e => e.isLegible = true :=
  (yields_prefixed yields fuel).bind fun _ legible =>
    yields_climb fuel (yields_prefixed yields fuel) legible

theorem yields_ternary : Yields (ternary inner fuel) fun e => e.isLegible = true := by
  refine (yields_binary yields fuel).bind fun cond isCond => .after fun isChoice => ?_
  split
  · refine .after fun _ => yields.bind fun whenTrue isTrue => .after fun _ =>
      yields.bind fun whenFalse isFalse => .pure ?_
    exact isLegible_iff.mpr ⟨rfl, by simp [Expr.children, isCond, isTrue, isFalse]⟩
  · exact .pure isCond

theorem yields_assignment : Yields (assignment inner fuel) fun e => e.isLegible = true := by
  refine (yields_ternary yields fuel).bind fun target isTarget => .after fun _ => .after fun chars => ?_
  split
  · refine .after fun _ => yields.bind fun value isValue => .pure ?_
    exact isLegible_iff.mpr ⟨rfl, by simp [Expr.children, isTarget, isValue]⟩
  · exact .pure isTarget

end

/-- The names in an expression that is read are names, and its literals can be written. -/
theorem yields_expression (fuel : Nat) : Yields (expression fuel) fun e => e.isLegible = true := by
  induction fuel with
  | zero => exact .fail _
  | succ fuel inductionHypothesis => exact yields_assignment inductionHypothesis _

end Parse
end Whittle
