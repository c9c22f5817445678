import Whittle.Check.Log

namespace Whittle
namespace Check

/-!
# Types of expressions

Every sub-expression is typed, also behind a fault, so that one pass finds all
problems; an expression with an untyped operand has no type and reports nothing
of its own.
-/

/-- The part of a written expression that cannot be written, if there is one: a
variable that is not writable, a selection that names a component twice, or
something that is no location at all. -/
def unwritable? (ctx : Context) (types : TypeTable) : Expr → Option NodeId
  | .var id name =>
      if (ctx.lookup? name).any Binding.writable then none else some id
  | .paren _ inner => unwritable? ctx types inner
  | .index _ base _ => unwritable? ctx types base
  | .member id base field =>
      if types[base.id]?.any Ty.isVector && repeatsLetter field then some id
      else unwritable? ctx types base
  | e => some e.id

/-- Whether an expression may be written; if not, this is reported. -/
def writable (ctx : Context) (e : Expr) : Checker Bool := do
  match unwritable? ctx (← get).types e with
  | none => pure true
  | some node => do
      report node .notAssignable
      pure false

/-- The type of a choice between two values. -/
def choice (id condId : NodeId) (cond whenTrue whenFalse : Ty) : Checker (Option Ty) :=
  if cond != .bool then settle condId (.error (.conditionType .choice cond))
  else if whenTrue != whenFalse then settle id (.error (.choiceTypes whenTrue whenFalse))
  else pure (some whenTrue)

def indexed (id positionId : NodeId) (base position : Ty) : Checker (Option Ty) :=
  if position != .int then settle positionId (.error (.indexType position))
  else
    match base with
    | .vector component _ => pure (some (.scalar component))
    | _ => settle id (.error (.notIndexable base))

/-- The type of a unary operation, which may write its operand. -/
def settleUnary (ctx : Context) (id : NodeId) (op : UnaryOp) (operand : Expr) (operandTy : Ty) :
    Checker (Option Ty) :=
  whenSome (settle id (unary op operandTy)) fun ty =>
    if op.writesOperand then do
      if ← writable ctx operand then pure (some ty) else pure none
    else pure (some ty)

/-- The type of an assignment, whose target must be writable. -/
def settleAssign (ctx : Context) (id : NodeId) (op : AssignOp) (target : Expr)
    (targetTy valueTy : Ty) : Checker (Option Ty) := do
  if ← writable ctx target then settle id (assign op targetTy valueTy) else pure none

mutual

/-- Work out the type of an expression and of all its parts. -/
def infer (ctx : Context) : Expr → Checker (Option Ty)
  | .int id _ => recorded id (pure (some .int))
  | .float id _ => recorded id (pure (some .float))
  | .bool id _ => recorded id (pure (some .bool))
  | .var id name => recorded id do
      match ctx.lookup? name with
      | some binding => pure (some binding.ty)
      | none => settle id (.error (.undeclared name))
  | .paren id inner => recorded id (infer ctx inner)
  | .unary id op operand =>
      recorded id (whenSome (infer ctx operand) (settleUnary ctx id op operand))
  | .binary id op lhs rhs =>
      recorded id (whenBoth (infer ctx lhs) (infer ctx rhs) fun lhsTy rhsTy =>
        settle id (binary op lhsTy rhsTy))
  | .assign id op target value =>
      recorded id (whenBoth (infer ctx target) (infer ctx value) (settleAssign ctx id op target))
  | .ternary id cond whenTrue whenFalse =>
      let values := whenBoth (infer ctx whenTrue) (infer ctx whenFalse) fun trueTy falseTy =>
        pure (some (trueTy, falseTy))
      recorded id (whenBoth (infer ctx cond) values fun condTy (trueTy, falseTy) =>
        choice id cond.id condTy trueTy falseTy)
  | .call id callee args =>
      recorded id (whenSome (inferList ctx args) fun argTys => settle id (ctx.call callee argTys))
  | .member id base field =>
      recorded id (whenSome (infer ctx base) fun baseTy => settle id (ctx.member baseTy field))
  | .index id base position =>
      recorded id (whenBoth (infer ctx base) (infer ctx position) (indexed id position.id))

/-- Work out the types of all expressions of a list; there is a result only if
each of them has a type. -/
def inferList (ctx : Context) : List Expr → Checker (Option (List Ty))
  | [] => pure (some [])
  | e :: rest =>
      whenBoth (infer ctx e) (inferList ctx rest) fun ty tys => pure (some (ty :: tys))

end

end Check
end Whittle
