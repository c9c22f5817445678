import Whittle.Proofs.Reduction.ValueEdits

namespace Whittle
namespace Meaning

/-!
# What expressions mean

Evaluating an expression gives a value and may change the state.  Operands are evaluated from
the left to the right, integers have thirty-two bits and wrap around, a conjunction and a
disjunction leave out their second operand where the first one decides, and a choice evaluates
one of its branches.  What everything else means is left open: variables, calls, members,
indices, whatever is written, and all of the arithmetic of floats.  An interpretation may give
it any meaning, as long as the values have the types that the check has found.
-/

open Check.Context (typeOf_unary_eq_some_iff typeOf_binary_eq_some_iff typeOf_ternary_eq_some_iff)

/-- A value.  Integers and vectors of them have a form of their own; a value that is neither
one of these nor a truth value is whatever an interpretation makes of it. -/
inductive Value (O : Type) where
  | bool (truth : Bool)
  | int (number : BitVec 32)
  | ints (components : List (BitVec 32))
  | other (value : O)

namespace Value

variable {O : Type}

/-- Whether a value is one of the type. -/
def IsOf : Value O → Ty → Prop
  | .bool _, ty => ty = .bool
  | .int _, ty => ty = .int
  | .ints components, ty => ∃ width, ty = .vector .int width ∧ components.length = width.count
  | .other _, ty => ty ≠ .bool ∧ ty.component? ≠ some .int

/-- An operation on integers, where a single integer goes with each component of a vector. -/
def componentwise? (operation : BitVec 32 → BitVec 32 → BitVec 32) :
    Value O → Value O → Option (Value O)
  | .int x, .int y => some (.int (operation x y))
  | .int x, .ints ys => some (.ints (ys.map (operation x)))
  | .ints xs, .int y => some (.ints (xs.map (operation · y)))
  | .ints xs, .ints ys => some (.ints (List.zipWith operation xs ys))
  | _, _ => none

/-- A negation of integers or of a truth value. -/
def negated? : UnaryOp → Value O → Option (Value O)
  | .negate, .int x => some (.int (-x))
  | .negate, .ints xs => some (.ints (xs.map Neg.neg))
  | .not, .bool truth => some (.bool !truth)
  | _, _ => none

/-- The value of an operation that its first operand decides. -/
def decided? : BinaryOp → Value O → Option (Value O)
  | .and, .bool false => some (.bool false)
  | .or, .bool true => some (.bool true)
  | _, _ => none

end Value

abbrev Typed (O : Type) (ty : Ty) := { value : Value O // value.IsOf ty }

/-- What is left open: `S` are the states, `L` the places that can be written, and `O` the
values that are no integers and no truth values.  A quotient by one is the dividend. -/
structure Interpretation (S L O : Type) where
  float : Binary64 → O
  read : (ty : Ty) → String → StateM S (Typed O ty)
  call : (ty : Ty) → String → List (Value O) → StateM S (Typed O ty)
  member : (ty : Ty) → Value O → String → StateM S (Typed O ty)
  element : (ty : Ty) → Value O → Value O → StateM S (Typed O ty)
  unary : (ty : Ty) → UnaryOp → Value O → StateM S (Typed O ty)
  binary : (ty : Ty) → BinaryOp → Value O → Value O → StateM S (Typed O ty)
  assign : (ty : Ty) → AssignOp → L → Value O → StateM S (Typed O ty)
  increment : (ty : Ty) → UnaryOp → L → StateM S (Typed O ty)
  variablePlace : String → StateM S L
  memberPlace : L → String → StateM S L
  elementPlace : L → Value O → StateM S L
  noPlace : StateM S L
  quotient : BitVec 32 → BitVec 32 → BitVec 32
  quotient_one : ∀ x, quotient x 1 = x

namespace Interpretation

variable {S L O : Type} (meaning : Interpretation S L O) (types : TypeTable)

/-- The value of an operation on integers or truth values. -/
def combined? : BinaryOp → Value O → Value O → Option (Value O)
  | .add, first, second => Value.componentwise? (· + ·) first second
  | .sub, first, second => Value.componentwise? (· - ·) first second
  | .mul, first, second => Value.componentwise? (· * ·) first second
  | .div, first, second => Value.componentwise? meaning.quotient first second
  | .and, .bool first, .bool second => some (.bool (first && second))
  | .or, .bool first, .bool second => some (.bool (first || second))
  | _, _, _ => none

/-- The value of a binary operation of the type on two values. -/
def operated (ty : Ty) (op : BinaryOp) (first second : Value O) : StateM S (Value O) :=
  match meaning.combined? op first second with
  | some value => pure value
  | none => Subtype.val <$> meaning.binary ty op first second

def negated (ty : Ty) (op : UnaryOp) (operand : Value O) : StateM S (Value O) :=
  match operand.negated? op with
  | some value => pure value
  | none => Subtype.val <$> meaning.unary ty op operand

/-- The type that the check has found for a node. -/
def tyOf (id : NodeId) : Ty :=
  types[id]?.getD .void

mutual

def eval : Expr → StateM S (Value O)
  | .int _ number => pure (.int (BitVec.ofInt 32 number))
  | .float _ number => pure (.other (meaning.float number))
  | .bool _ truth => pure (.bool truth)
  | .var id name => Subtype.val <$> meaning.read (tyOf types id) name
  | .paren _ inner => eval inner
  | .unary id op operand =>
      if op.writesOperand then do
        let place ← locate operand
        Subtype.val <$> meaning.increment (tyOf types id) op place
      else do
        let value ← eval operand
        meaning.negated (tyOf types id) op value
  | .binary id op lhs rhs => do
      let first ← eval lhs
      match first.decided? op with
      | some value => pure value
      | none =>
          let second ← eval rhs
          meaning.operated (tyOf types id) op first second
  | .assign id op target value => do
      let place ← locate target
      let value ← eval value
      Subtype.val <$> meaning.assign (tyOf types id) op place value
  | .ternary _ cond whenTrue whenFalse => do
      match ← eval cond with
      | .bool false => eval whenFalse
      | _ => eval whenTrue
  | .call id callee args => do
      let values ← evalList args
      Subtype.val <$> meaning.call (tyOf types id) callee values
  | .member id base field => do
      let whole ← eval base
      Subtype.val <$> meaning.member (tyOf types id) whole field
  | .index id base position => do
      let whole ← eval base
      let position ← eval position
      Subtype.val <$> meaning.element (tyOf types id) whole position

/-- The place of an expression that is written. -/
def locate : Expr → StateM S L
  | .var _ name => meaning.variablePlace name
  | .paren _ inner => locate inner
  | .member _ base field => do
      let place ← locate base
      meaning.memberPlace place field
  | .index _ base position => do
      let place ← locate base
      let position ← eval position
      meaning.elementPlace place position
  | _ => meaning.noPlace

def evalList : List Expr → StateM S (List (Value O))
  | [] => pure []
  | e :: rest => do
      let first ← eval e
      let others ← evalList rest
      pure (first :: others)

end

/-- Parentheses mean nothing. -/
theorem eval_bare (e : Expr) : meaning.eval types e.bare = meaning.eval types e := by
  induction e using Expr.children_induction with
  | step e inductionHypothesis =>
      cases e with
      | paren id inner => exact inductionHypothesis inner List.mem_cons_self
      | _ => rfl

end Interpretation

/-- Whatever the state, the steps end in something with the property. -/
def Gives {S α : Type} (steps : StateM S α) (P : α → Prop) : Prop :=
  ∀ state, P (steps state).1

namespace Gives

variable {S α β : Type} {P : α → Prop} {Q : β → Prop}

theorem pure {a : α} (holds : P a) : Gives (Pure.pure a : StateM S α) P :=
  fun _ => holds

theorem bind {first : StateM S α} {second : α → StateM S β} (gives : Gives first P)
    (behind : ∀ a, P a → Gives (second a) Q) : Gives (first >>= second) Q :=
  fun state => behind _ (gives state) _

/-- What the first steps end in may not matter. -/
theorem after {first : StateM S α} {second : α → StateM S β} (behind : ∀ a, Gives (second a) Q) :
    Gives (first >>= second) Q :=
  fun _ => behind _ _

theorem typed {O : Type} {ty : Ty} (steps : StateM S (Typed O ty)) :
    Gives (Subtype.val <$> steps) fun value => value.IsOf ty :=
  fun state => (steps state).1.2

/-- Steps that differ only where the property fails do the same. -/
theorem bind_congr {first : StateM S α} {second second' : α → StateM S β} (gives : Gives first P)
    (same : ∀ a, P a → second a = second' a) : first >>= second = first >>= second' := by
  funext state
  exact congrFun (same _ (gives state)) _

/-- Steps behind which nothing happens do nothing. -/
theorem bind_eq_self {first : StateM S α} {second : α → StateM S α} (gives : Gives first P)
    (idle : ∀ a, P a → second a = Pure.pure a) : first >>= second = first :=
  (gives.bind_congr idle).trans (bind_pure first)

end Gives

/-! ## Values have the types of expressions -/

namespace Value

variable {O : Type} {value first second result : Value O} {ty firstTy secondTy : Ty}

theorem exists_bool (isBool : value.IsOf .bool) : ∃ truth, value = .bool truth := by
  cases value with
  | bool truth => exact ⟨truth, rfl⟩
  | int => cases isBool
  | ints => rcases isBool with ⟨_, isVector, _⟩; cases isVector
  | other => exact absurd rfl isBool.1

/-- What has integers for components is an integer or a vector of them. -/
theorem exists_ints (isOf : value.IsOf ty) (integral : ty.component? = some .int) :
    (∃ number, value = .int number) ∨ ∃ components, value = .ints components := by
  cases value with
  | bool => cases isOf; cases integral
  | int number => exact .inl ⟨number, rfl⟩
  | ints components => exact .inr ⟨components, rfl⟩
  | other => exact absurd integral isOf.2

theorem isOf_negated? {op : UnaryOp} (isOf : value.IsOf ty)
    (isNegated : value.negated? op = some result) : result.IsOf ty := by
  unfold negated? at isNegated
  split at isNegated
  · cases isNegated
    exact isOf
  · cases isNegated
    rcases isOf with ⟨width, isTy, isLength⟩
    exact ⟨width, isTy, (List.length_map _).trans isLength⟩
  · cases isNegated
    exact isOf
  · cases isNegated

/-- The operands of an arithmetic operation have components of one type, and the result has
the type of one of them: of either if they have the same, else of the one that is a vector. -/
theorem cases_of_arithmetic? {op : BinaryOp} (isTy : Check.arithmetic? op firstTy secondTy = some ty) :
    firstTy.component? = secondTy.component? ∧
      (firstTy.component? = some .int ∨ firstTy.component? = some .float) ∧
      (ty = firstTy ∧ (firstTy = secondTy ∨ secondTy.isScalar = true) ∨
        ty = secondTy ∧ firstTy.isScalar = true) := by
  unfold Check.arithmetic? at isTy
  extract_lets fits at isTy
  rcases Option.ite_none_left_eq_some.mp isTy with ⟨fitting, isTy⟩
  simp only [Bool.or_eq_true, Bool.not_eq_true', bne_iff_ne, not_or, Bool.not_eq_false, not_not,
    ne_eq] at fitting
  refine ⟨fitting.2, ?_, ?_⟩
  · have numeric := fitting.1
    unfold fits at numeric
    split at numeric
    · exact .inl (beq_iff_eq.mp numeric)
    · simpa [Ty.isNumeric] using numeric
  · split at isTy
    · rename_i alike
      cases isTy
      exact .inl ⟨rfl, by simpa using alike⟩
    · split at isTy
      · rename_i scalar
        cases isTy
        exact .inr ⟨rfl, scalar⟩
      · cases isTy

/-- The components of the result of an arithmetic operation are as many as its type says. -/
theorem isOf_componentwise? {operation : BitVec 32 → BitVec 32 → BitVec 32} {op : BinaryOp}
    (isFirst : first.IsOf firstTy) (isSecond : second.IsOf secondTy)
    (isTy : Check.arithmetic? op firstTy secondTy = some ty)
    (isResult : componentwise? operation first second = some result) : result.IsOf ty := by
  rcases cases_of_arithmetic? isTy with ⟨_, _, shape⟩
  unfold componentwise? at isResult
  split at isResult
  · cases isResult; cases isFirst; cases isSecond
    rcases shape with ⟨rfl, _⟩ | ⟨rfl, _⟩ <;> rfl
  · cases isResult; cases isFirst
    rcases isSecond with ⟨width, rfl, isLength⟩
    rcases shape with ⟨rfl, same | scalar⟩ | ⟨rfl, _⟩
    · cases same
    · cases scalar
    · exact ⟨width, rfl, (List.length_map _).trans isLength⟩
  · cases isResult; cases isSecond
    rcases isFirst with ⟨width, rfl, isLength⟩
    rcases shape with ⟨rfl, _⟩ | ⟨rfl, scalar⟩
    · exact ⟨width, rfl, (List.length_map _).trans isLength⟩
    · cases scalar
  · cases isResult
    rcases isFirst with ⟨width, rfl, isLength⟩
    rcases isSecond with ⟨width', rfl, isLength'⟩
    rcases shape with ⟨rfl, same | scalar⟩ | ⟨rfl, scalar⟩
    · cases same
      exact ⟨width, rfl, by rw [List.length_zipWith, isLength, isLength', Nat.min_self]⟩
    · cases scalar
    · cases scalar
  · cases isResult

theorem isOf_decided? {op : BinaryOp} (isFirst : first.IsOf firstTy)
    (isTy : Check.binary? op firstTy secondTy = some ty) (isResult : first.decided? op = some result) :
    result.IsOf ty := by
  unfold decided? at isResult
  split at isResult
  · cases isResult
    exact (Option.some.inj (Option.ite_none_right_eq_some.mp isTy).2).symm
  · cases isResult
    exact (Option.some.inj (Option.ite_none_right_eq_some.mp isTy).2).symm
  · cases isResult

end Value

namespace Interpretation

variable {S L O : Type} {meaning : Interpretation S L O} {types : TypeTable}

theorem isOf_combined? {op : BinaryOp} {first second result : Value O} {firstTy secondTy ty : Ty}
    (isFirst : first.IsOf firstTy) (isSecond : second.IsOf secondTy)
    (isTy : Check.binary? op firstTy secondTy = some ty)
    (isResult : meaning.combined? op first second = some result) : result.IsOf ty := by
  unfold combined? at isResult
  split at isResult
  · exact Value.isOf_componentwise? isFirst isSecond isTy isResult
  · exact Value.isOf_componentwise? isFirst isSecond isTy isResult
  · exact Value.isOf_componentwise? isFirst isSecond isTy isResult
  · exact Value.isOf_componentwise? isFirst isSecond isTy isResult
  · cases isResult
    exact (Option.some.inj (Option.ite_none_right_eq_some.mp isTy).2).symm
  · cases isResult
    exact (Option.some.inj (Option.ite_none_right_eq_some.mp isTy).2).symm
  · cases isResult

theorem gives_operated {op : BinaryOp} {first second : Value O} {firstTy secondTy ty : Ty}
    (isFirst : first.IsOf firstTy) (isSecond : second.IsOf secondTy)
    (isTy : Check.binary? op firstTy secondTy = some ty) :
    Gives (meaning.operated ty op first second) fun value => value.IsOf ty := by
  unfold operated
  split
  · rename_i result isResult
    exact .pure (isOf_combined? isFirst isSecond isTy isResult)
  · exact .typed _

theorem gives_negated {op : UnaryOp} {operand : Value O} {ty : Ty} (isOperand : operand.IsOf ty) :
    Gives (meaning.negated ty op operand) fun value => value.IsOf ty := by
  unfold negated
  split
  · rename_i result isResult
    exact .pure (Value.isOf_negated? isOperand isResult)
  · exact .typed _

/-- The value of an expression is one of its type, if the types of all its parts are those in
the table. -/
theorem gives_eval (ctx : Check.Context) {e : Expr}
    (agree : ∀ part ∈ e.subexprs, types[part.id]? = ctx.typeOf part) {ty : Ty}
    (isTy : ctx.typeOf e = some ty) : Gives (meaning.eval types e) fun value => value.IsOf ty := by
  induction e using Expr.children_induction generalizing ty with
  | step e inductionHypothesis =>
      have ofChild : ∀ child ∈ e.children, ∀ {childTy}, ctx.typeOf child = some childTy →
          Gives (meaning.eval types child) fun value => value.IsOf childTy :=
        fun child isChild _ isChildTy => inductionHypothesis child isChild
          (fun part isPart => agree part (Expr.mem_subexprs_trans isPart
            (Expr.mem_subexprs_of_mem_children isChild))) isChildTy
      have own : tyOf types e.id = ty := by
        rw [tyOf, agree e e.self_mem_subexprs, isTy, Option.getD_some]
      cases e with
      | int | bool =>
          cases isTy
          exact .pure rfl
      | float =>
          cases isTy
          exact .pure ⟨by decide, by decide⟩
      | var id name =>
          rw [← own]
          exact .typed _
      | paren id inner => exact ofChild inner List.mem_cons_self isTy
      | unary id op operand =>
          rw [eval]
          split
          · rw [← own]
            exact .after fun _ => .typed _
          · rcases typeOf_unary_eq_some_iff.mp isTy with ⟨_, operandTy, isOperand, isResult⟩
            cases Reduction.eq_of_unary_eq_ok isResult
            refine (ofChild operand List.mem_cons_self isOperand).bind fun value isOf => ?_
            rw [show tyOf types id = ty from own]
            exact gives_negated isOf
      | binary id op lhs rhs =>
          rcases typeOf_binary_eq_some_iff.mp isTy with ⟨lhsTy, rhsTy, isLhs, isRhs, isResult⟩
          rw [eval]
          refine (ofChild lhs List.mem_cons_self isLhs).bind fun first isFirst => ?_
          split
          · rename_i value isDecided
            exact .pure (Value.isOf_decided? isFirst isResult isDecided)
          · refine (ofChild rhs (List.mem_cons_of_mem _ List.mem_cons_self) isRhs).bind
              fun second isSecond => ?_
            rw [show tyOf types id = ty from own]
            exact gives_operated isFirst isSecond isResult
      | assign id op target value =>
          rw [← own]
          exact .after fun _ => .after fun _ => .typed _
      | ternary id cond whenTrue whenFalse =>
          rcases typeOf_ternary_eq_some_iff.mp isTy with ⟨_, isTrue, isFalse⟩
          rw [eval]
          refine .after fun value => ?_
          split
          · exact ofChild whenFalse (by simp [Expr.children]) isFalse
          · exact ofChild whenTrue (by simp [Expr.children]) isTrue
      | call id callee args =>
          rw [← own]
          exact .after fun _ => .typed _
      | member id base field =>
          rw [← own]
          exact .after fun _ => .typed _
      | index id base position =>
          rw [← own]
          exact .after fun _ => .after fun _ => .typed _

end Interpretation
end Meaning
end Whittle
