import Whittle.Reduction.Jumps
import Whittle.Reduction.Names
import Whittle.Reduction.Site
import Whittle.Syntax.Target

namespace Whittle
namespace Reduction

/-!
# Unwrapping statements

A statement that wraps others can be replaced by what it wraps, in the list that
holds it.  Wrappers are blocks, conditions and loops that cannot end early.  A
targeted search only takes off wrappers that were injected; a search everywhere
also takes off plain blocks, loops, and conditions without a second branch.
-/

/-- A wrapper, with the part of it that is kept. -/
inductive Wrapper where
  | block
  | branchTrue
  | branchFalse
  | whileLoop
  | forLoop
deriving DecidableEq

/-- How a description names a wrapper. -/
def Wrapper.text : Wrapper → String
  | .block => "block"
  | .branchTrue | .branchFalse => "if"
  | .whileLoop => "while loop"
  | .forLoop => "for loop"

/-- How a description names the part that is kept. -/
def Wrapper.partText : Wrapper → String
  | .block | .whileLoop | .forLoop => "body"
  | .branchTrue => "then branch"
  | .branchFalse => "else branch"

structure Unwrapping where
  stmt : NodeId
  wrapper : Wrapper
deriving DecidableEq

namespace Unwrapping

/-- Whether the initialiser of a loop is nothing the body needs: it is missing,
or a declaration of a variable that the body does not refer to. -/
def isIdleInit (init : Option Stmt) (body : Stmt) : Bool :=
  match init with
  | none => true
  | some (.decl _ var) => (Names.ofStmts [body]).references var.name == 0
  | some _ => false

/-- The wrapper that a statement is, and the part that is dropped with it. -/
def wrapper? (everywhere : Bool) : Stmt → Option (Wrapper × Option Stmt)
  | .block .. => if everywhere then some (.block, none) else none
  | .branch _ cond _ none =>
      if everywhere || Marker.of? cond == some .wrappedIfTrue then some (.branchTrue, none)
      else none
  | .branch _ cond whenTrue (some whenFalse) =>
      match Marker.of? cond with
      | some .wrappedIfTrue => some (.branchTrue, some whenFalse)
      | some .wrappedIfFalse => some (.branchFalse, some whenTrue)
      | _ => none
  | .whileLoop _ cond body =>
      if (everywhere || Marker.of? cond == some .wrappedLoop) && !(Jumps.ofStmt body).escape then
        some (.whileLoop, none)
      else none
  | .forLoop _ init cond _ body =>
      let wrapped := cond.any fun cond => Marker.of? cond == some .wrappedLoop
      if (everywhere || wrapped) && isIdleInit init body && !(Jumps.ofStmt body).escape then
        some (.forLoop, none)
      else none
  | _ => none

def bodyStmts : Stmt → List Stmt
  | .block _ _ stmts => stmts
  | s => [s]

def kept? : Wrapper → Stmt → Option (List Stmt)
  | .block, .block _ _ stmts => some stmts
  | .branchTrue, .branch _ _ whenTrue _ => some (bodyStmts whenTrue)
  | .branchFalse, .branch _ _ _ (some whenFalse) => some (bodyStmts whenFalse)
  | .whileLoop, .whileLoop _ _ body | .whileLoop, .forLoop _ _ _ _ body => some (bodyStmts body)
  | .forLoop, .whileLoop _ _ body | .forLoop, .forLoop _ _ _ _ body => some (bodyStmts body)
  | _, _ => none

/-- Whether the declarations that move outwards neither clash with others nor
capture references: their names are declared once in the function, and referred
to in the moved statements only. -/
def isHygienic (function : Function) (moved : List Stmt) : Bool :=
  let around := Names.ofFunction function
  let inside := Names.ofStmts moved
  (moved.filterMap Stmt.declared?).all fun var =>
    around.declarations var.name == 1 &&
      around.references var.name == inside.references var.name

def ofSite? (everywhere : Bool) (site : Site) : Option Unwrapping := do
  let (wrapper, dropped) ← wrapper? everywhere site.stmt
  let moved ← kept? wrapper site.stmt
  if dropped.any (holdsRequiredReturn site.function) ||
      (moved.isEmpty && site.list.isSoleStmt) || !isHygienic site.function moved then
    none
  else some ⟨site.stmt.id, wrapper⟩

/-- The wrappers in a shader that can be taken off. -/
def find (everywhere : Bool) (shader : Shader) : List Unwrapping :=
  (sites shader).filterMap (ofSite? everywhere)

/-- Put what the wrapper keeps in its place. -/
def apply (edit : Unwrapping) (shader : Shader) : Shader :=
  match (shader.findStmt? edit.stmt).bind (kept? edit.wrapper) with
  | some moved => (shader.replaceStmtWith edit.stmt moved).1
  | none => shader

/-- The line that announces the edit. -/
def describe (edit : Unwrapping) : String :=
  "unwrap " ++ edit.wrapper.text ++ " " ++ edit.stmt.text ++ " to its " ++ edit.wrapper.partText

end Unwrapping
end Reduction
end Whittle
