import Whittle.Reduction.Site
import Whittle.Syntax.Target

namespace Whittle
namespace Reduction

/-!
# Removing writes to the colour output

A fuzzer injects writes to the colour output in blocks that leave no trace: the
block first saves the output in a variable with an injected name and restores
it at its end.  Such a block becomes an empty statement.
-/

/-- The variables that hold the colour of the fragment: the predefined one where
the version of the shader has it, and otherwise all outputs of four floats. -/
def colourOutputs (shader : Shader) : List String :=
  if shader.version.hasFragColor then ["gl_FragColor"]
  else
    let outputs := shader.globals.filter fun var =>
      var.qualifier == some .output && var.ty == .vector .float .four
    outputs.map VarDecl.name

/-- The name of a variable that saves an output, and the output. -/
def savedOutput? : Stmt → Option (String × String)
  | .decl _ var =>
      if var.ty == .vector .float .four && isInjectedName var.name then
        (var.init.bind Expr.varName?).map fun output => (var.name, output)
      else none
  | _ => none

def restores (backup output : String) : Stmt → Bool
  | .expr _ (.assign _ .set target value) =>
      target.varName? == some output && value.varName? == some backup
  | _ => false

def guardedOutput? (outputs : List String) : List Stmt → Option String
  | first :: second :: rest => do
      let (backup, output) ← savedOutput? first
      let last := (second :: rest).getLast (List.cons_ne_nil second rest)
      if outputs.contains output && restores backup output last then some output else none
  | _ => none

structure ColourWrite where
  block : NodeId
  output : String
deriving DecidableEq

namespace ColourWrite

def ofStmt? (outputs : List String) (function : Function) : Stmt → Option ColourWrite
  | .block id scope stmts =>
      if holdsRequiredReturn function (.block id scope stmts) then none
      else (guardedOutput? outputs stmts).map fun output => ⟨id, output⟩
  | _ => none

/-- The guarded writes in a shader, wherever they stand.  Which outputs there are
depends on the version that the shader itself names. -/
def find (shader : Shader) : List ColourWrite :=
  shader.functions.flatMap fun function =>
    function.stmts.filterMap (ofStmt? (colourOutputs shader) function)

/-- Put an empty statement in the place of the block, so that nothing else has to
move. -/
def apply (edit : ColourWrite) (shader : Shader) : Shader :=
  (shader.replaceStmt edit.block (.empty edit.block)).1

/-- The line that announces the edit. -/
def describe (edit : ColourWrite) : String :=
  "remove live write to '" ++ edit.output ++ "' in block " ++ edit.block.text

end ColourWrite
end Reduction
end Whittle
