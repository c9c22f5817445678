import Whittle.Print.Stmt
import Whittle.Reduction.Jumps
import Whittle.Reduction.Names
import Whittle.Reduction.Site
import Whittle.Syntax.Target

namespace Whittle
namespace Reduction

/-!
# Merging loops

Two `for` loops in a row that count one variable over adjacent ranges and have
the same body do what a single loop over both ranges does.  Bodies are the same
if their texts are, since identifiers never are.
-/

/-- A loop that counts a variable up by one and whose body neither writes the
variable nor ends the loop early. -/
structure CountedLoop where
  id : NodeId
  counter : String
  start : Int
  stop : Int
  stopId : NodeId
  body : Stmt

/-- The counted loop that a statement is, if it is one. -/
def countedLoop? : Stmt → Option CountedLoop
  | .forLoop id (some (.decl _ ⟨_, none, ty, counter, some (.int _ start)⟩))
      (some (.binary _ .lt lhs (.int stopId stop))) (some (.unary _ op operand)) body =>
      let counts := ty == .int && (op == .postIncrement || op == .preIncrement) &&
        lhs.varName? == some counter && operand.varName? == some counter
      let undisturbed := !(Names.ofStmts [body]).assigns counter && (Jumps.ofStmt body).breaks == 0
      if counts && undisturbed then some ⟨id, counter, start, stop, stopId, body⟩ else none
  | _ => none

/-- Whether the second loop goes on where the first one ends. -/
def CountedLoop.continues (first second : CountedLoop) : Bool :=
  first.counter == second.counter && first.start ≤ first.stop && first.stop == second.start &&
    second.start ≤ second.stop && first.body.text == second.body.text

/-- The merging of two loops in a row: the bound of the first one is raised, and
the second one goes away. -/
structure LoopMerge where
  first : NodeId
  bound : NodeId
  second : NodeId
  counter : String
  newBound : Int
deriving DecidableEq

namespace LoopMerge

/-- The merging of two statements, if they are such loops. -/
def ofPair? (first second : Stmt) : Option LoopMerge :=
  match countedLoop? first, countedLoop? second with
  | some first, some second =>
      if first.continues second then
        some ⟨first.id, first.stopId, second.id, first.counter, second.stop⟩
      else none
  | _, _ => none

def ofNeighbours : List Stmt → List LoopMerge
  | first :: second :: rest =>
      (ofPair? first second).toList ++ ofNeighbours (second :: rest)
  | _ => []

/-- The pairs of loops in a shader that can be merged.  Of three in a row, both
pairs are found. -/
def find (shader : Shader) : List LoopMerge :=
  shader.functions.flatMap fun function =>
    (stmtLists function).flatMap fun list => ofNeighbours list.stmts

/-- Raise the bound of the first loop and take the second one out.  Without the
second loop or the bound nothing is done, as one half alone would change what
the program does. -/
def apply (edit : LoopMerge) (shader : Shader) : Shader :=
  if (shader.findStmt? edit.second).isNone || (shader.findExpr? edit.bound).isNone then shader
  else
    let (id, drawn) := shader.freshId
    let (raised, _) := drawn.replaceExpr edit.bound (.int id edit.newBound)
    (raised.removeStmt edit.second).1

/-- The line that announces the edit. -/
def describe (edit : LoopMerge) : String :=
  "merge loops " ++ edit.first.text ++ " and " ++ edit.second.text ++ " over '" ++
    edit.counter ++ "'"

end LoopMerge
end Reduction
end Whittle
