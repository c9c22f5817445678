import Whittle.Reduction.Names
import Whittle.Reduction.Site
import Whittle.Syntax.Target

namespace Whittle
namespace Reduction

/-!
# Removing unused variables

A variable that nothing refers to can go.  If the initialiser of a local has
effects, it stays behind as a statement.
-/

inductive VarSite where
  | global (decl : NodeId)
  | removedLocal (stmt : NodeId)
  | keptInit (stmt : NodeId)
deriving DecidableEq

structure VarRemoval where
  site : VarSite
  name : String
deriving DecidableEq

namespace VarRemoval

/-- Whether a variable is in question and nothing refers to it. -/
def isUnreferenced (everywhere : Bool) (names : Names) (var : VarDecl) : Bool :=
  names.references var.name == 0 && (everywhere || isInjectedName var.name)

def hasPureInit (shader : Shader) (var : VarDecl) : Bool :=
  var.init.all (isPure shader)

/-- The removal of the variable that a statement declares.  Nothing but the
initialiser may be left behind as the only statement of a function. -/
def ofSite? (everywhere : Bool) (shader : Shader) (names : Names) (site : Site) :
    Option VarRemoval := do
  let var ← site.stmt.declared?
  if !isUnreferenced everywhere names var then none
  else if !hasPureInit shader var then some ⟨.keptInit site.stmt.id, var.name⟩
  else if site.list.isSoleStmt then none
  else some ⟨.removedLocal site.stmt.id, var.name⟩

/-- The removals of variables that a declaration declares.  Outputs stay. -/
def ofDecl (everywhere : Bool) (shader : Shader) (names : Names) : Decl → List VarRemoval
  | .global var =>
      if var.qualifier != some .output && hasPureInit shader var &&
          isUnreferenced everywhere names var then
        [⟨.global var.id, var.name⟩]
      else []
  | .function f => (functionSites f).filterMap (ofSite? everywhere shader names)
  | .precision _ | .struct _ => []

def find (everywhere : Bool) (shader : Shader) : List VarRemoval :=
  shader.decls.flatMap (ofDecl everywhere shader (Names.ofShader shader))

def initStmt : Stmt → Stmt
  | .decl id var =>
      match var.init with
      | some init => .expr id init
      | none => .decl id var
  | s => s

/-- Take the declaration out, or leave its initialiser in its place. -/
def apply (edit : VarRemoval) (shader : Shader) : Shader :=
  match edit.site with
  | .global decl => (shader.removeDecl decl).1
  | .removedLocal stmt => (shader.removeStmt stmt).1
  | .keptInit stmt => (shader.modifyStmt? stmt initStmt).getD shader

/-- The line that announces the edit. -/
def describe (edit : VarRemoval) : String :=
  match edit.site with
  | .global _ => "remove unused global '" ++ edit.name ++ "'"
  | .removedLocal _ => "remove unused declaration of '" ++ edit.name ++ "'"
  | .keptInit _ =>
      "remove unused declaration of '" ++ edit.name ++ "', keeping its initializer"

end VarRemoval
end Reduction
end Whittle
