import Whittle.Proofs.Meaning.Interpretation
import Whittle.Proofs.Reduction.Unswitching

namespace Whittle
namespace Meaning

/-!
# Identities keep values

What an identity leaves of an expression has the value of the expression and leaves the same
state behind, whatever the parts mean and whatever effects they have.  Only for floats it may
not: their arithmetic is left open here, and in the common one adding zero to negative zero
gives another number.
-/

open Reduction (isZeroLiteral isOneLiteral isBoolLiteral neutralized? doublyNegated? identityPart?
  simplified? typeOf_bare)
open Check.Context (typeOf_unary_eq_some_iff typeOf_binary_eq_some_iff
  typeOf_ternary_eq_some_iff)

namespace Value

variable {O : Type} {value : Value O} {ty : Ty} {operation : BitVec 32 → BitVec 32 → BitVec 32}
  {neutral : BitVec 32}

theorem componentwise?_eq_left (isOf : value.IsOf ty) (integral : ty.component? = some .int)
    (idle : ∀ x, operation x neutral = x) :
    value.componentwise? operation (.int neutral) = some value := by
  rcases exists_ints isOf integral with ⟨number, rfl⟩ | ⟨components, rfl⟩
  · rw [componentwise?, idle]
  · simp only [componentwise?, idle, List.map_id']

theorem componentwise?_eq_right (isOf : value.IsOf ty) (integral : ty.component? = some .int)
    (idle : ∀ x, operation neutral x = x) :
    componentwise? operation (.int neutral) value = some value := by
  rcases exists_ints isOf integral with ⟨number, rfl⟩ | ⟨components, rfl⟩
  · rw [componentwise?, idle]
  · simp only [componentwise?, funext idle, List.map_id']

/-- A value that can be negated comes back after a second negation. -/
theorem negated?_negated? {op : UnaryOp} {result : Value O}
    (isNegated : value.negated? op = some result) : result.negated? op = some value := by
  unfold negated? at isNegated
  split at isNegated
  · cases isNegated
    rw [negated?, BitVec.neg_neg]
  · cases isNegated
    have twice : Neg.neg ∘ Neg.neg = (id : BitVec 32 → BitVec 32) := funext fun _ => BitVec.neg_neg
    rw [negated?, List.map_map, twice, List.map_id]
  · cases isNegated
    rw [negated?, Bool.not_not]
  · cases isNegated

end Value

namespace Interpretation

variable {S L O : Type} {meaning : Interpretation S L O} {types : TypeTable} {ctx : Check.Context}

theorem eval_zeroLiteral {e : Expr} {ty : Ty} (isZero : isZeroLiteral e = true)
    (isTy : ctx.typeOf e = some ty) (integral : ty.component? = some .int) :
    meaning.eval types e = pure (.int 0) := by
  rw [← typeOf_bare] at isTy
  rw [← eval_bare]
  unfold isZeroLiteral at isZero
  split at isZero
  · rename_i id value isBare
    rw [isBare, eval, beq_iff_eq.mp isZero]
    rfl
  · rename_i isBare
    rw [isBare] at isTy
    cases isTy
    cases integral
  · cases isZero

theorem eval_oneLiteral {e : Expr} {ty : Ty} (isOne : isOneLiteral e = true)
    (isTy : ctx.typeOf e = some ty) (integral : ty.component? = some .int) :
    meaning.eval types e = pure (.int 1) := by
  rw [← typeOf_bare] at isTy
  rw [← eval_bare]
  unfold isOneLiteral at isOne
  split at isOne
  · rename_i id value isBare
    rw [isBare, eval, beq_iff_eq.mp isOne]
    rfl
  · rename_i isBare
    rw [isBare] at isTy
    cases isTy
    cases integral
  · cases isOne

theorem eval_boolLiteral {e : Expr} {truth : Bool} (isTruth : isBoolLiteral truth e = true) :
    meaning.eval types e = pure (.bool truth) := by
  rw [← eval_bare]
  unfold isBoolLiteral at isTruth
  split at isTruth
  · rename_i id value isBare
    rw [isBare, eval, beq_iff_eq.mp isTruth]
  · cases isTruth

section

variable {id : NodeId} {op : BinaryOp} {lhs rhs : Expr} {value : Value O} {P : Value O → Prop}

/-- An operation that leaves every value of its first operand as it is. -/
theorem eval_binary_eq_left (isRhs : meaning.eval types rhs = pure value)
    (gives : Gives (meaning.eval types lhs) P)
    (idle : ∀ first, P first → first.decided? op = some first ∨
      first.decided? op = none ∧ meaning.combined? op first value = some first) :
    meaning.eval types (.binary id op lhs rhs) = meaning.eval types lhs := by
  rw [eval]
  refine gives.bind_eq_self fun first holds => ?_
  rcases idle first holds with decided | ⟨undecided, combined⟩
  · rw [decided]
  · rw [undecided]
    dsimp only
    rw [isRhs, pure_bind, operated, combined]

/-- An operation that leaves every value of its second operand as it is. -/
theorem eval_binary_eq_right (isLhs : meaning.eval types lhs = pure value)
    (undecided : value.decided? op = none) (gives : Gives (meaning.eval types rhs) P)
    (idle : ∀ second, P second → meaning.combined? op value second = some second) :
    meaning.eval types (.binary id op lhs rhs) = meaning.eval types rhs := by
  rw [eval, isLhs, pure_bind, undecided]
  refine gives.bind_eq_self fun second holds => ?_
  rw [operated, idle second holds]

end

/-- The types of the parts of the expression are those in the table. -/
def Agrees (types : TypeTable) (ctx : Check.Context) (e : Expr) : Prop :=
  ∀ part ∈ e.subexprs, types[part.id]? = ctx.typeOf part

theorem Agrees.part {e part : Expr} (agrees : Agrees types ctx e) (isPart : part ∈ e.subexprs) :
    Agrees types ctx part :=
  fun inner isInner => agrees inner (Expr.mem_subexprs_trans isInner isPart)

section

variable {id : NodeId} {op : BinaryOp} {lhs rhs kept : Expr} {ty : Ty}

/-- The operands of an operation on integers. -/
theorem integral_of_arithmetic? (notFloat : Check.isFloatLike ty = false) {lhsTy rhsTy : Ty}
    (isTy : Check.arithmetic? op lhsTy rhsTy = some ty) :
    lhsTy.component? = some .int ∧ rhsTy.component? = some .int ∧ ty.component? = some .int := by
  rcases Value.cases_of_arithmetic? isTy with ⟨same, numeric, shape⟩
  have notFloat : ty.component? ≠ some .float := by simpa [Check.isFloatLike] using notFloat
  have sameTy : ty.component? = lhsTy.component? := by
    rcases shape with ⟨rfl, _⟩ | ⟨rfl, _⟩
    · rfl
    · exact same.symm
  rcases numeric with isInt | isFloat
  · exact ⟨isInt, same ▸ isInt, sameTy.trans isInt⟩
  · exact absurd (sameTy.trans isFloat) notFloat

theorem eval_neutralized? (agrees : Agrees types ctx (.binary id op lhs rhs))
    (isTy : ctx.typeOf (.binary id op lhs rhs) = some ty) (isKept : ctx.typeOf kept = some ty)
    (notFloat : Check.isFloatLike ty = false) (found : neutralized? op lhs rhs = some kept) :
    meaning.eval types (.binary id op lhs rhs) = meaning.eval types kept := by
  rcases typeOf_binary_eq_some_iff.mp isTy with ⟨lhsTy, rhsTy, isLhs, isRhs, isResult⟩
  have gives : ∀ e ∈ [lhs, rhs], ctx.typeOf e = some ty →
      Gives (meaning.eval types e) fun value => value.IsOf ty := fun e isOperand isTy =>
    gives_eval ctx (agrees.part (Expr.mem_subexprs_of_mem_children isOperand)) isTy
  have givesLhs := gives lhs List.mem_cons_self
  have givesRhs := gives rhs (List.mem_cons_of_mem _ List.mem_cons_self)
  cases op with
  | add =>
      rcases integral_of_arithmetic? notFloat isResult with ⟨lhsInt, rhsInt, integral⟩
      simp only [neutralized?] at found
      split at found
      · rename_i isZero
        cases found
        exact eval_binary_eq_left (eval_zeroLiteral isZero isRhs rhsInt) (givesLhs isKept)
          fun first isOf => .inr ⟨rfl, Value.componentwise?_eq_left isOf integral (BitVec.add_zero ·)⟩
      · rcases Option.ite_none_right_eq_some.mp found with ⟨isZero, isRhsKept⟩
        cases isRhsKept
        exact eval_binary_eq_right (eval_zeroLiteral isZero isLhs lhsInt) rfl (givesRhs isKept)
          fun second isOf => Value.componentwise?_eq_right isOf integral (BitVec.zero_add ·)
  | sub =>
      rcases integral_of_arithmetic? notFloat isResult with ⟨lhsInt, rhsInt, integral⟩
      rcases Option.ite_none_right_eq_some.mp found with ⟨isZero, isLhsKept⟩
      cases isLhsKept
      exact eval_binary_eq_left (eval_zeroLiteral isZero isRhs rhsInt) (givesLhs isKept)
        fun first isOf => .inr ⟨rfl, Value.componentwise?_eq_left isOf integral (BitVec.sub_zero ·)⟩
  | mul =>
      rcases integral_of_arithmetic? notFloat isResult with ⟨lhsInt, rhsInt, integral⟩
      simp only [neutralized?] at found
      split at found
      · rename_i isOne
        cases found
        exact eval_binary_eq_left (eval_oneLiteral isOne isRhs rhsInt) (givesLhs isKept)
          fun first isOf => .inr ⟨rfl, Value.componentwise?_eq_left isOf integral (BitVec.mul_one ·)⟩
      · rcases Option.ite_none_right_eq_some.mp found with ⟨isOne, isRhsKept⟩
        cases isRhsKept
        exact eval_binary_eq_right (eval_oneLiteral isOne isLhs lhsInt) rfl (givesRhs isKept)
          fun second isOf => Value.componentwise?_eq_right isOf integral (BitVec.one_mul ·)
  | div =>
      rcases integral_of_arithmetic? notFloat isResult with ⟨lhsInt, rhsInt, integral⟩
      rcases Option.ite_none_right_eq_some.mp found with ⟨isOne, isLhsKept⟩
      cases isLhsKept
      exact eval_binary_eq_left (eval_oneLiteral isOne isRhs rhsInt) (givesLhs isKept)
        fun first isOf =>
          .inr ⟨rfl, Value.componentwise?_eq_left isOf integral meaning.quotient_one⟩
  | and =>
      have isBool : ty = .bool :=
        (Option.some.inj (Option.ite_none_right_eq_some.mp isResult).2).symm
      subst isBool
      simp only [neutralized?] at found
      split at found
      · rename_i isTrue
        cases found
        refine eval_binary_eq_left (eval_boolLiteral isTrue) (givesLhs isKept) fun first isOf => ?_
        rcases Value.exists_bool isOf with ⟨truth, rfl⟩
        cases truth
        · exact .inl rfl
        · exact .inr ⟨rfl, rfl⟩
      · rcases Option.ite_none_right_eq_some.mp found with ⟨isTrue, isRhsKept⟩
        cases isRhsKept
        refine eval_binary_eq_right (eval_boolLiteral isTrue) rfl (givesRhs isKept) fun second isOf => ?_
        rcases Value.exists_bool isOf with ⟨truth, rfl⟩
        rfl
  | or =>
      have isBool : ty = .bool :=
        (Option.some.inj (Option.ite_none_right_eq_some.mp isResult).2).symm
      subst isBool
      simp only [neutralized?] at found
      split at found
      · rename_i isFalse
        cases found
        refine eval_binary_eq_left (eval_boolLiteral isFalse) (givesLhs isKept) fun first isOf => ?_
        rcases Value.exists_bool isOf with ⟨truth, rfl⟩
        cases truth
        · exact .inr ⟨rfl, rfl⟩
        · exact .inl rfl
      · rcases Option.ite_none_right_eq_some.mp found with ⟨isFalse, isRhsKept⟩
        cases isRhsKept
        refine eval_binary_eq_right (eval_boolLiteral isFalse) rfl (givesRhs isKept) fun second isOf => ?_
        rcases Value.exists_bool isOf with ⟨truth, rfl⟩
        rfl
  | rem | lt | gt | le | ge | eq | ne | xor => cases found

end

/-! ## Double negations -/

/-- An integer or a vector of integers can be negated, and a truth value can be inverted. -/
theorem isSome_negated? {op : UnaryOp} {operand : Value O} {ty : Ty} (isOf : operand.IsOf ty)
    (reads : op.writesOperand = false) (isTy : Check.unary op ty = .ok ty)
    (notFloat : Check.isFloatLike ty = false) : (operand.negated? op).isSome = true := by
  cases op with
  | not =>
      have isBool : ty = .bool := by
        simp only [Check.unary, beq_self_eq_true, if_true] at isTy
        split at isTy
        · rename_i isBool
          exact beq_iff_eq.mp isBool
        · cases isTy
      subst isBool
      rcases Value.exists_bool isOf with ⟨truth, rfl⟩
      rfl
  | negate =>
      have integral : ty.component? = some .int := by
        have numeric : ty.isNumeric = true := by
          simp only [Check.unary] at isTy
          split at isTy
          · rename_i isNot
            cases isNot
          · split at isTy
            · assumption
            · cases isTy
        have notFloat : ty.component? ≠ some .float := by simpa [Check.isFloatLike] using notFloat
        simpa [Ty.isNumeric, notFloat] using numeric
      rcases Value.exists_ints isOf integral with ⟨number, rfl⟩ | ⟨components, rfl⟩ <;> rfl
  | preIncrement | preDecrement | postIncrement | postDecrement => cases reads

theorem eval_doublyNegated? {id : NodeId} {op : UnaryOp} {operand kept : Expr} {ty : Ty}
    (agrees : Agrees types ctx (.unary id op operand))
    (isTy : ctx.typeOf (.unary id op operand) = some ty)
    (notFloat : Check.isFloatLike ty = false) (found : doublyNegated? op operand = some kept) :
    meaning.eval types (.unary id op operand) = meaning.eval types kept := by
  unfold doublyNegated? at found
  split at found
  · rename_i innerId inner innermost isBare
    rcases Option.ite_none_right_eq_some.mp found with ⟨same, isKept⟩
    cases isKept
    simp only [Bool.and_eq_true, Bool.not_eq_true', beq_iff_eq] at same
    rcases same with ⟨reads, rfl⟩
    rcases typeOf_unary_eq_some_iff.mp isTy with ⟨_, operandTy, isOperand, isResult⟩
    cases Reduction.eq_of_unary_eq_ok isResult
    have isInner := isOperand
    rw [← typeOf_bare, isBare] at isInner
    rcases typeOf_unary_eq_some_iff.mp isInner with ⟨_, keptTy, isKept, isResult'⟩
    cases Reduction.eq_of_unary_eq_ok isResult'
    have isPart : kept ∈ (Expr.unary id inner operand).subexprs := by
      have isBarePart := Reduction.bare_mem_subexprs operand
      rw [isBare] at isBarePart
      exact Expr.mem_subexprs_trans (Expr.mem_subexprs_of_child List.mem_cons_self isBarePart)
        (Expr.mem_subexprs_of_mem_children List.mem_cons_self)
    have gives : Gives (meaning.eval types kept) fun value => value.IsOf _ :=
      gives_eval ctx (agrees.part isPart) isKept
    rw [eval, if_neg (by rw [reads]; exact Bool.false_ne_true), ← eval_bare, isBare, eval,
      if_neg (by rw [reads]; exact Bool.false_ne_true), bind_assoc]
    refine gives.bind_eq_self fun value isOf => ?_
    rcases Option.isSome_iff_exists.mp (isSome_negated? isOf reads isResult notFloat) with
      ⟨negative, isNegative⟩
    simp only [negated, isNegative, Value.negated?_negated? isNegative, pure_bind]
  · cases found

theorem eval_identityPart? {e kept : Expr} {ty : Ty} (agrees : Agrees types ctx e)
    (isTy : ctx.typeOf e = some ty) (isKept : ctx.typeOf kept = some ty)
    (notFloat : Check.isFloatLike ty = false) (found : identityPart? e = some kept) :
    meaning.eval types e = meaning.eval types kept := by
  cases e with
  | int | float | bool | var | assign | call | member | index => cases found
  | binary id op lhs rhs => exact eval_neutralized? agrees isTy isKept notFloat found
  | unary id op operand => exact eval_doublyNegated? agrees isTy notFloat found
  | paren id inner =>
      rcases Option.ite_none_right_eq_some.mp found with ⟨_, isInner⟩
      cases isInner
      rfl
  | ternary id cond whenTrue whenFalse =>
      simp only [identityPart?] at found
      split at found
      · rename_i isTrue
        cases found
        rw [eval, eval_boolLiteral isTrue, pure_bind]
      · rcases Option.ite_none_right_eq_some.mp found with ⟨isFalse, isBranch⟩
        cases isBranch
        rw [eval, eval_boolLiteral isFalse, pure_bind]

/-- In a valid shader, what an identity leaves of an expression that is neither a float nor a
vector of floats has the same value and leaves the same state behind, from every state and
under every interpretation. -/
theorem eval_simplified? {shader : Shader} {version : Version} (meaning : Interpretation S L O)
    (checked : shader.check version = .ok types) {e kept : Expr} (listed : e ∈ shader.exprs)
    (notFloat : ∀ ty, types[e.id]? = some ty → Check.isFloatLike ty = false)
    (isSimpler : simplified? types e = some kept) (state : S) :
    meaning.eval types e state = meaning.eval types kept state := by
  rcases Option.filter_eq_some_iff.mp isSimpler with ⟨found, same⟩
  rcases Shader.mem_exprs_iff.mp listed with ⟨one, isPlaced, within⟩
  have agrees : Agrees types one.ctx e := fun part isPart =>
    (Shader.types_eq_typeOf checked isPlaced (Expr.mem_subexprs_trans isPart within)).2
  have isKeptPart := Reduction.mem_subexprs_of_identityPart? found
  rcases Option.isSome_iff_exists.mp (Shader.types_eq_typeOf checked isPlaced within).1 with
    ⟨ty, isTy⟩
  have isKept : one.ctx.typeOf kept = some ty := by
    rw [← agrees kept isKeptPart, Reduction.eq_of_haveSameType same, agrees e e.self_mem_subexprs, isTy]
  rw [eval_identityPart? agrees isTy isKept
    (notFloat ty ((agrees e e.self_mem_subexprs).trans isTy)) found]

end Interpretation

def someValue : (ty : Ty) → Typed Unit ty
  | .scalar .bool => ⟨.bool true, rfl⟩
  | .scalar .int => ⟨.int 7, rfl⟩
  | .vector .int width => ⟨.ints (.replicate width.count 7), width, rfl, List.length_replicate⟩
  | .void => ⟨.other (), nofun, nofun⟩
  | .struct _ => ⟨.other (), nofun, nofun⟩
  | .scalar .float => ⟨.other (), nofun, nofun⟩
  | .vector .bool _ => ⟨.other (), nofun, nofun⟩
  | .vector .float _ => ⟨.other (), nofun, nofun⟩

def counting : Interpretation Nat Unit Unit where
  float := fun _ => ()
  read := fun ty _ => pure (someValue ty)
  call := fun ty _ _ => fun calls => (someValue ty, calls + 1)
  member := fun ty _ _ => pure (someValue ty)
  element := fun ty _ _ => pure (someValue ty)
  unary := fun ty _ _ => pure (someValue ty)
  binary := fun ty _ _ _ => pure (someValue ty)
  assign := fun ty _ _ _ => pure (someValue ty)
  increment := fun ty _ _ => pure (someValue ty)
  variablePlace := fun _ => pure ()
  memberPlace := fun _ _ => pure ()
  elementPlace := fun _ _ => pure ()
  noPlace := pure ()
  quotient := BitVec.sdiv
  quotient_one := fun _ => BitVec.sdiv_one

/-- The shader `int g() { return 7; } void main() { int t = -(-g()); }`. -/
def negating : Shader :=
  .ofDecls .essl100
    [.function ⟨.unnumbered, .int, "g", [], ⟨.unnumbered,
      [.ret .unnumbered (some (.int .unnumbered 7))]⟩⟩,
     .function ⟨.unnumbered, .void, "main", [], ⟨.unnumbered,
      [.decl .unnumbered ⟨.unnumbered, none, .int, "t", some (.unary .unnumbered .negate
        (.paren .unnumbered (.unary .unnumbered .negate (.call .unnumbered "g" []))))⟩]⟩⟩]

/-- Both the double negation and the call that it leaves give seven after one call. -/
theorem eval_simplified?_negating :
    ∃ types, negating.check .essl100 = .ok types ∧
      Reduction.simplified? types
        (.unary 8 .negate (.paren 9 (.unary 10 .negate (.call 11 "g" [])))) =
          some (.call 11 "g" []) ∧
      counting.eval types (.unary 8 .negate (.paren 9 (.unary 10 .negate (.call 11 "g" [])))) 0 =
        counting.eval types (.call 11 "g" []) 0 := by
  have isTyped : (negating.check .essl100).toOption.any (fun types =>
      types[(8 : NodeId)]? == some .int && types[(11 : NodeId)]? == some .int) = true := by
    decide
  cases checked : negating.check .essl100 with
  | error problems =>
      rw [checked] at isTyped
      cases isTyped
  | ok types =>
      rw [checked] at isTyped
      simp only [Except.toOption, Option.any_some, Bool.and_eq_true, beq_iff_eq] at isTyped
      have simpler : Reduction.simplified? types
          (.unary 8 .negate (.paren 9 (.unary 10 .negate (.call 11 "g" [])))) =
            some (.call 11 "g" []) := by
        refine Option.filter_eq_some_iff.mpr ⟨rfl, ?_⟩
        simp only [Reduction.haveSameType, Expr.id, isTyped]
        rfl
      refine ⟨types, rfl, simpler, ?_⟩
      refine Interpretation.eval_simplified? counting checked ?_ ?_ simpler 0
      · exact List.mem_of_getElem? (i := 1) rfl
      · intro ty isTy
        rw [Expr.id, isTyped.1] at isTy
        cases isTy
        rfl

end Meaning
end Whittle
