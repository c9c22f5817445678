import Whittle.Check.Log
import Whittle.Reduction.Site
import Whittle.Syntax.Target

namespace Whittle
namespace Reduction

/-!
# Replacing expressions by their operands

A compound expression can be replaced by an operand of the same type, such as
`a + b` by `a`.  The first argument of an identity or of made-up code stands for
the whole call, and calls of functions of the shader stay.
-/

def haveSameType (types : TypeTable) (first second : Expr) : Bool :=
  types[first.id]?.isSome && types[first.id]? == types[second.id]?

/-- The operands that may replace an expression. -/
def promotable (types : TypeTable) (shader : Shader) (e : Expr) : List Expr :=
  match e with
  | .binary _ _ lhs rhs => [lhs, rhs].filter fun operand => haveSameType types operand e
  | .unary _ op operand => if op.writesOperand then [] else [operand]
  | .ternary _ cond whenTrue whenFalse =>
      [cond, whenTrue, whenFalse].filter fun operand => haveSameType types operand e
  | .call _ callee args =>
      match Marker.ofName? callee with
      | some marker => if marker.isTransparent then args.take 1 else []
      | none =>
          if (shader.function? callee).isSome then []
          else args.filter fun arg => haveSameType types arg e
  | _ => []

structure OperandPromotion where
  expr : NodeId
  operand : NodeId
deriving DecidableEq

namespace OperandPromotion

/-- Whether an expression counts as injected: it lies in injected code, or is a
marker that stands for its first argument. -/
def isTargeted (injected : List NodeId) (e : Expr) : Bool :=
  injected.contains e.id || (Marker.of? e).any Marker.isTransparent

/-- The replacements of one expression, which must have a value. -/
def ofExpr (types : TypeTable) (shader : Shader) (e : Expr) : List OperandPromotion :=
  if types[e.id]?.any fun ty => ty != .void then
    (promotable types shader e).map fun operand => ⟨e.id, operand.id⟩
  else []

/-- The replacements in a shader, one for each operand that fits. -/
def find (everywhere : Bool) (types : TypeTable) (shader : Shader) : List OperandPromotion :=
  let injected := injectedIds shader
  let targets := (rvalues shader).filter fun e => everywhere || isTargeted injected e
  targets.flatMap (ofExpr types shader)

/-- Put the operand, with its identifiers, in the place of the expression. -/
def apply (edit : OperandPromotion) (shader : Shader) : Shader :=
  shader.promoteExpr edit.expr edit.operand

/-- The line that announces the edit. -/
def describe (edit : OperandPromotion) : String :=
  "replace expression " ++ edit.expr.text ++ " with its sub-expression " ++ edit.operand.text

end OperandPromotion
end Reduction
end Whittle
