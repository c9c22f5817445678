import Whittle.Syntax.Shader

namespace Whittle
namespace Reduction

/-!
# Calls and their arguments

When a parameter or a field goes away, every call loses the argument at its
position.  The calls are collected by identifier before anything changes.
-/

/-- The call statement's target, if its result is assigned, and its call. -/
structure CallSite where
  target : Option Expr
  callId : NodeId
  callee : String
  args : List Expr

/-- The call that a statement consists of, alone or as the value of a plain
assignment. -/
def callSite? : Stmt → Option CallSite
  | .expr _ (.call id callee args) => some ⟨none, id, callee, args⟩
  | .expr _ (.assign _ .set target (.call id callee args)) => some ⟨some target, id, callee, args⟩
  | _ => none

/-- The expression without the argument at a position, if it is a call that has
one there. -/
def withoutArg (position : Nat) : Expr → Expr
  | .call id callee args => .call id callee (args.eraseIdx position)
  | e => e

/-- The identifiers of the calls of a name, in the order of the text. -/
def callIds (exprs : List Expr) (callee : String) : List NodeId :=
  (exprs.filter fun e => e.calls callee).map Expr.id

end Reduction
end Whittle
