import Whittle.Reduction.Names
import Whittle.Reduction.Site
import Whittle.Reduction.Substitution

namespace Whittle
namespace Reduction

/-!
# Inlining initialisers

Each reference to a local variable can be replaced by the initialiser of the
variable if the variable is never written, the initialiser has no effect, and
nothing that the initialiser reads is ever written.  The declaration stays; as
an unused one it can be removed later.
-/

structure InitInlining where
  declStmt : NodeId
  name : String
deriving DecidableEq

namespace InitInlining

/-- Whether a name means the same everywhere and its value never changes. -/
def isStable (names : Names) (name : String) : Bool :=
  names.declarations name ≤ 1 && !names.assigns name

def isInlinable (shader : Shader) (names : Names) (var : VarDecl) (init : Expr) : Bool :=
  names.declarations var.name == 1 && !names.assigns var.name &&
    names.references var.name > 0 && isPure shader init &&
    (Names.ofExpr init).referenced.all (isStable names)

def ofStmt? (everywhere : Bool) (shader : Shader) (names : Names) (s : Stmt) :
    Option InitInlining := do
  let var ← s.declared?
  let init ← var.init
  if (everywhere || isInjectedName var.name) && isInlinable shader names var init then
    some ⟨s.id, var.name⟩
  else none

/-- The local variables in a shader that can be replaced by their initialisers. -/
def find (everywhere : Bool) (shader : Shader) : List InitInlining :=
  let names := Names.ofShader shader
  (sites shader).filterMap fun site => ofStmt? everywhere shader names site.stmt

/-- Put a new copy of an expression, in parentheses, in the place of another
expression. -/
def replaceByCopy (init : Expr) (shader : Shader) (target : NodeId) : Shader :=
  let (copy, drawn) := shader.refreshExpr init
  let (replacement, drawn) := parenthesized drawn copy
  (drawn.replaceExpr target replacement).1

/-- Put a copy in the place of every reference.  Each copy has identifiers of its
own, and parentheses keep the operators around it from pulling it apart. -/
def apply (edit : InitInlining) (shader : Shader) : Shader :=
  match (shader.findStmt? edit.declStmt).bind fun s => s.declared?.bind VarDecl.init with
  | none => shader
  | some init =>
      let references := shader.exprs.filter fun e => e.varName? == some edit.name
      (references.map Expr.id).foldl (replaceByCopy init) shader

/-- The line that announces the edit. -/
def describe (edit : InitInlining) : String :=
  "inline the initializer of '" ++ edit.name ++ "' at its uses"

end InitInlining
end Reduction
end Whittle
