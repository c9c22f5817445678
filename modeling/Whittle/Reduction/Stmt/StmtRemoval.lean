import Whittle.Reduction.Site
import Whittle.Syntax.Target

namespace Whittle
namespace Reduction

/-!
# Removing statements

A statement in a list can go, unless it declares something, transfers control,
or leaves its function without a body or without the value it has to return.
Apart from empty statements, a targeted search only removes statements that
mention injected names or lie in injected code.
-/

structure StmtRemoval where
  stmt : NodeId
deriving DecidableEq

namespace StmtRemoval

/-- Whether a statement neither declares anything nor transfers control.  Ending
the work on a fragment does not count as a transfer. -/
def isRemovable : Stmt → Bool
  | .decl .. | .breakOut _ | .continueLoop _ | .ret .. => false
  | _ => true

/-- Whether a statement is empty, mentions an injected name or lies in injected
code. -/
def isTargeted (injected : List NodeId) (s : Stmt) : Bool :=
  s.isEmpty || injected.contains s.id || s.exprs.any Expr.namesInjected

def ofSite? (everywhere : Bool) (injected : List NodeId) (site : Site) : Option StmtRemoval :=
  if !site.list.isSoleStmt && isRemovable site.stmt &&
      !holdsRequiredReturn site.function site.stmt &&
      (everywhere || isTargeted injected site.stmt) then
    some ⟨site.stmt.id⟩
  else none

/-- The statements in a shader that can go. -/
def find (everywhere : Bool) (shader : Shader) : List StmtRemoval :=
  (sites shader).filterMap (ofSite? everywhere (injectedIds shader))

/-- Take the statement out of its list. -/
def apply (edit : StmtRemoval) (shader : Shader) : Shader :=
  (shader.removeStmt edit.stmt).1

/-- The line that announces the edit. -/
def describe (edit : StmtRemoval) : String :=
  "remove statement " ++ edit.stmt.text

end StmtRemoval
end Reduction
end Whittle
