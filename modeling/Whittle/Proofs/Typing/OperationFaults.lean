import Whittle.Check.Stmt

namespace Whittle
namespace Check

/-!
# The faults of operations

What is wrong with an operation is a matter of types and names.  So the fault that is reported
names no node, and has nothing to do with the statements around the operation.
-/

/-- The faults that an expression may have when each of its parts has a type. -/
def Fault.isOfOperation : Fault → Bool
  | .undeclared _ | .conditionType _ _ | .notOperand _ | .numericOperand _ _ | .operands _ _ _
  | .notAssignable | .assignmentType _ _ | .choiceTypes _ _ | .indexType _ | .notIndexable _
  | .noField _ _ | .noSelection _ _ | .noFunction _ | .argumentCount _ _ _ | .argumentType _ _ _
  | .fieldArguments _ | .markerCount _ | .markerTypes _ | .markerType _ _ _ | .noOverload _ _
  | .notConstructible _ | .constructorEmpty _ | .constructedFrom _ _ | .tooFewComponents _
  | .tooManyArguments _ => true
  | _ => false

/-- If the result is a fault, it is one of an operation. -/
def OfOperation {α : Type} (result : Except Fault α) : Prop :=
  ∀ fault, result = .error fault → fault.isOfOperation = true

variable {α β : Type}

namespace OfOperation

theorem ok (a : α) : OfOperation (.ok a) :=
  fun _ impossible => nomatch impossible

theorem error {fault : Fault} (isOf : fault.isOfOperation = true) :
    OfOperation (.error fault : Except Fault α) := by
  rintro _ ⟨⟩
  exact isOf

theorem bind {first : Except Fault α} {second : α → Except Fault β} (isOf : OfOperation first)
    (behind : ∀ a, OfOperation (second a)) : OfOperation (first >>= second) := by
  cases first with
  | ok a => exact behind a
  | error fault => exact .error (isOf fault rfl)

end OfOperation

theorem ofOperation_unary (op : UnaryOp) (operand : Ty) : OfOperation (unary op operand) := by
  unfold unary
  split <;> split <;> first | exact .ok _ | exact .error rfl

theorem ofOperation_binary (op : BinaryOp) (lhs rhs : Ty) : OfOperation (binary op lhs rhs) := by
  unfold binary
  split
  · exact .ok _
  · exact .error rfl

theorem ofOperation_assign (op : AssignOp) (target value : Ty) :
    OfOperation (assign op target value) := by
  have tested : ∀ result : Ty, OfOperation
      (if result == target then pure target else throw (.assignmentType value target)) := by
    intro result
    split
    · exact .ok target
    · exact .error rfl
  unfold assign
  dsimp only
  split
  · exact .bind (.ok value) tested
  · exact .bind (ofOperation_binary _ target value) tested

theorem ofOperation_componentCounts (target : Ty) (args : List Ty) :
    OfOperation (componentCounts target args) := by
  induction args with
  | nil => exact .ok []
  | cons arg rest inductionHypothesis =>
      unfold componentCounts
      split
      · exact .error rfl
      · cases areCounts : componentCounts target rest with
        | ok counts => exact .ok _
        | error fault => exact .error (inductionHypothesis fault areCounts)

theorem ofOperation_construct (target : Ty) (args : List Ty) :
    OfOperation (construct target args) := by
  unfold construct
  split
  · exact .error rfl
  · dsimp only
    split
    · exact .error rfl
    · refine .bind (ofOperation_componentCounts target args) fun sizes => ?_
      split
      · split
        · exact .ok target
        · exact .error rfl
      · split
        · exact .error rfl
        · split
          · exact .error rfl
          · split
            · exact .error rfl
            · exact .ok target

theorem ofOperation_constructStruct (decl : StructDecl) (args : List Ty) :
    OfOperation (Context.constructStruct decl args) := by
  unfold Context.constructStruct
  split
  · exact .ok _
  · exact .error rfl

theorem ofOperation_callMarker (marker : Marker) (args : List Ty) :
    OfOperation (callMarker marker args) := by
  have tested : ∀ (holds : Bool) (ty : Ty) {fault : Fault}, fault.isOfOperation = true →
      OfOperation (if holds then .ok ty else .error fault) := by
    intro holds ty fault isOf
    cases holds with
    | true => exact .ok ty
    | false => exact .error isOf
  unfold callMarker
  split <;> first | exact tested _ _ rfl | exact .ok _ | exact .error rfl

theorem ofOperation_callFunction (f : Function) (args : List Ty) :
    OfOperation (Context.callFunction f args) := by
  unfold Context.callFunction
  split
  · exact .error rfl
  · split
    · exact .error rfl
    · exact .ok _

theorem ofOperation_callBuiltin (name : String) (args : List Ty) :
    OfOperation (callBuiltin name args) := by
  unfold callBuiltin
  dsimp only
  split
  · exact .ok _
  · exact .error rfl

theorem ofOperation_call (ctx : Context) (callee : String) (args : List Ty) :
    OfOperation (ctx.call callee args) := by
  unfold Context.call
  split
  · exact ofOperation_construct _ args
  · split
    · exact ofOperation_constructStruct _ args
    · split
      · exact ofOperation_callMarker _ args
      · split
        · exact ofOperation_callFunction _ args
        · split
          · exact ofOperation_callBuiltin callee args
          · exact .error rfl

theorem ofOperation_member (ctx : Context) (base : Ty) (field : String) :
    OfOperation (ctx.member base field) := by
  unfold Context.member
  split <;> split <;> first | exact .ok _ | exact .error rfl

end Check
end Whittle
