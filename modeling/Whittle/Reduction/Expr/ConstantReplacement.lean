import Whittle.Check.Log
import Whittle.Reduction.Site
import Whittle.Syntax.Target

namespace Whittle
namespace Reduction

/-!
# Replacing expressions by constants

An expression of scalar or vector type can be replaced by the constant one of
its type.  Literals, and constructors of literals, are as small as they get and
stay; so do expressions that write something.
-/

/-- Whether an expression is a literal or a constructor of literals, seen
through parentheses. -/
def isConstant (e : Expr) : Bool :=
  e.bare.isLiteral ||
    e.bare.call?.any fun (callee, args) =>
      (Ty.ofKeyword? callee).isSome && args.all fun arg => arg.bare.isLiteral

/-- The literal for one, or for truth, in a scalar type. -/
def oneLiteral (id : NodeId) : Scalar → Expr
  | .int => .int id 1
  | .float => .float id .one
  | .bool => .bool id true

structure ConstantReplacement where
  expr : NodeId
  ty : Ty
deriving DecidableEq

namespace ConstantReplacement

def ofExpr? (types : TypeTable) (e : Expr) : Option ConstantReplacement := do
  let ty ← types[e.id]?
  if e.written?.isNone && !isConstant e && (ty.isScalar || ty.isVector) then some ⟨e.id, ty⟩
  else none

/-- The replacements in a shader.  A target of assignment is no value, so only
expressions that are read are in question. -/
def find (everywhere : Bool) (types : TypeTable) (shader : Shader) : List ConstantReplacement :=
  let injected := injectedIds shader
  let targets := (rvalues shader).filter fun e => everywhere || injected.contains e.id
  targets.filterMap (ofExpr? types)

/-- Put the constant in place.  A scalar takes over the identifier of the
expression; a vector is a constructor call around a new literal, which spreads
to all components. -/
def apply (edit : ConstantReplacement) (shader : Shader) : Shader :=
  match edit.ty with
  | .scalar component => (shader.replaceExpr edit.expr (oneLiteral edit.expr component)).1
  | .vector component _ =>
      let (id, drawn) := shader.freshId
      let constant := .call edit.expr edit.ty.text [oneLiteral id component]
      (drawn.replaceExpr edit.expr constant).1
  | .void | .struct _ => shader

/-- The line that announces the edit. -/
def describe (edit : ConstantReplacement) : String :=
  "replace expression " ++ edit.expr.text ++ " with a constant " ++ edit.ty.text

end ConstantReplacement
end Reduction
end Whittle
