import Whittle.Parse.Shader
import Whittle.Print.Shader
import Whittle.Reduction.Discovery
import Whittle.Syntax.Numbering

namespace Whittle

/-!
# Sessions

A session is a shader that is edited step by step, with a list of edits to
choose from.  The list stays when the shader changes, so that an edit may be
applied to a shader other than the one it was found in; that edits name their
targets by identifier is what makes this harmless.
-/

namespace Shader

/-- Put a new expression, under new identifiers, in the place of another one.
The identifiers are spent even if there is no such place. -/
def putExpr (shader : Shader) (target : NodeId) (e : Expr) : Shader × Bool :=
  let (fresh, drawn) := shader.refreshExpr e
  drawn.replaceExpr target fresh

/-- Put a new statement, under new identifiers, in the place of another one. -/
def putStmt (shader : Shader) (target : NodeId) (s : Stmt) : Shader × Bool :=
  let (fresh, drawn) := shader.refreshStmt s
  drawn.replaceStmt target fresh

/-- Put new statements, under new identifiers, in the place of another one. -/
def putStmts (shader : Shader) (target : NodeId) (stmts : List Stmt) : Shader × Bool :=
  let (fresh, drawn) := shader.refreshStmts stmts
  drawn.replaceStmtWith target fresh

/-- Put a copy of an expression, with its identifiers, in the place of another
one.  There is no result if there is nothing to copy. -/
def copyExpr (shader : Shader) (source target : NodeId) : Option (Shader × Bool) :=
  (shader.findExpr? source).map fun e => shader.replaceExpr target e

/-- Put a copy of a statement, with its identifiers, in the place of another
one. -/
def copyStmt (shader : Shader) (source target : NodeId) : Option (Shader × Bool) :=
  (shader.findStmt? source).map fun s => shader.replaceStmt target s

end Shader

/-- A shader in the course of its simplification. -/
structure Session where
  /-- The shader that the session started with. -/
  loaded : Shader
  shader : Shader
  /-- The edits to choose from. -/
  worklist : List Reduction.Edit

namespace Session

def start (shader : Shader) : Session := ⟨shader, shader, []⟩

def forget (session : Session) : Session :=
  { session with worklist := [] }

/-- Discover edits and keep them to choose from.  A failure leaves none. -/
def scan (session : Session) (kinds : List Reduction.Kind) (scan : Reduction.Scan)
    (verify : Bool) : Except Reduction.Failure (List Reduction.Edit) × Session :=
  match Reduction.discover kinds scan verify session.shader with
  | .ok edits => (.ok edits, { session with worklist := edits })
  | .error failure => (.error failure, session.forget)

/-- Apply one of the edits.  Counting starts over behind the last one, so that
every number chooses an edit if there is one. -/
def applyNth (session : Session) (index : Nat) : Option Reduction.Edit × Session :=
  match session.worklist[index % session.worklist.length]? with
  | some edit => (some edit, { session with shader := edit.apply session.shader })
  | none => (none, session)

/-- Applying an edit keeps the edits to choose from. -/
theorem worklist_applyNth (session : Session) (index : Nat) :
    (session.applyNth index).2.worklist = session.worklist := by
  unfold applyNth
  split <;> rfl

/-- Go back to the shader that the session started with. -/
def reset (session : Session) : Session :=
  { session with shader := session.loaded }

/-- Write the shader and read it back, which numbers its nodes anew.  If the
text cannot be read, the shader stays as it is. -/
def reparse (session : Session) : Except Parse.Failure Session :=
  (Shader.parse session.shader.text).map fun shader => { session with shader }

end Session
end Whittle
