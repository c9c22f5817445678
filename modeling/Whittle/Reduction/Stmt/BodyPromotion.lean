import Whittle.Reduction.Jumps
import Whittle.Reduction.Names
import Whittle.Reduction.Site
import Whittle.Syntax.Target

namespace Whittle
namespace Reduction

/-!
# Replacing statements by a body of theirs

A condition or a loop can be replaced by a block that holds one of its bodies.
The block has a scope of its own, so this works wherever the statement stands,
and whatever the body declares stays inside.  A targeted search only replaces
statements whose condition mentions an injected name.
-/

/-- A body that a statement may have. -/
inductive Part where
  | whenTrue
  | whenFalse
  | loopBody
deriving DecidableEq

/-- How a description names a part. -/
def Part.text : Part → String
  | .whenTrue => "then branch"
  | .whenFalse => "else branch"
  | .loopBody => "body"

/-- How a description names a statement that has such bodies. -/
def compoundText : Stmt → String
  | .whileLoop .. => "while loop"
  | .forLoop .. => "for loop"
  | _ => "if"

def condition? : Stmt → Option Expr
  | .branch _ cond _ _ | .whileLoop _ cond _ => some cond
  | .forLoop _ _ cond _ _ => cond
  | _ => none

def bodyIn? : Part → Stmt → Option Stmt
  | .whenTrue, .branch _ _ whenTrue _ => some whenTrue
  | .whenFalse, .branch _ _ _ whenFalse => whenFalse
  | .loopBody, .whileLoop _ _ body | .loopBody, .forLoop _ _ _ _ body => some body
  | _, _ => none

/-- Whether a body refers to the variable that the initialiser of its loop
declares. -/
def needsInit (init : Option Stmt) (body : Stmt) : Bool :=
  (init.bind Stmt.declared?).any fun var => (Names.ofStmts [body]).references var.name != 0

/-- The parts of a statement of a function that may replace it.  The other
branch must not hold a required `return`, and a loop must not be left early. -/
def replacingParts (function : Function) : Stmt → List Part
  | .branch _ _ _ none => [.whenTrue]
  | .branch _ _ whenTrue (some whenFalse) =>
      (if holdsRequiredReturn function whenFalse then [] else [.whenTrue]) ++
        (if holdsRequiredReturn function whenTrue then [] else [.whenFalse])
  | .whileLoop _ _ body => if (Jumps.ofStmt body).escape then [] else [.loopBody]
  | .forLoop _ init _ _ body =>
      if (Jumps.ofStmt body).escape || needsInit init body then [] else [.loopBody]
  | _ => []

/-- The replacement of a statement by one of its bodies. -/
structure BodyPromotion where
  stmt : NodeId
  part : Part
  compound : String
deriving DecidableEq

namespace BodyPromotion

def ofStmt (everywhere : Bool) (function : Function) (s : Stmt) : List BodyPromotion :=
  if everywhere || (condition? s).any Expr.mentionsInjected then
    (replacingParts function s).map fun part => ⟨s.id, part, compoundText s⟩
  else []

/-- The replacements in a shader, at any depth. -/
def find (everywhere : Bool) (shader : Shader) : List BodyPromotion :=
  shader.functions.flatMap fun function => function.stmts.flatMap (ofStmt everywhere function)

/-- Put the block in the place of the statement, under its identifier.  A body
that is a block stays that block; any other gets a block around it. -/
def apply (edit : BodyPromotion) (shader : Shader) : Shader :=
  match (shader.findStmt? edit.stmt).bind (bodyIn? edit.part) with
  | none => shader
  | some (.block _ scope stmts) =>
      (shader.replaceStmt edit.stmt (.block edit.stmt scope stmts)).1
  | some kept =>
      let (scope, drawn) := shader.freshId
      (drawn.replaceStmt edit.stmt (.block edit.stmt scope [kept])).1

/-- The line that announces the edit. -/
def describe (edit : BodyPromotion) : String :=
  "replace " ++ edit.compound ++ " " ++ edit.stmt.text ++ " with its " ++ edit.part.text ++
    " as a block"

end BodyPromotion
end Reduction
end Whittle
