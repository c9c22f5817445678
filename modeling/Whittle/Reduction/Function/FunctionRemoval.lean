import Whittle.Reduction.Names
import Whittle.Syntax.Target
import Whittle.Syntax.Marker

namespace Whittle
namespace Reduction

/-!
# Removing unused functions

A function that nothing calls can go, except for `main`, which the shader
starts with.  Calls count wherever they stand, so a function that only calls
itself stays.
-/

/-- The name of the function that a shader starts with. -/
def entryName : String := "main"

structure FunctionRemoval where
  decl : NodeId
  name : String
deriving DecidableEq

namespace FunctionRemoval

/-- The functions in a shader that nothing calls. -/
def find (everywhere : Bool) (shader : Shader) : List FunctionRemoval :=
  let names := Names.ofShader shader
  let unused := shader.functions.filter fun function =>
    function.name != entryName && (everywhere || isInjectedName function.name) &&
      names.calls function.name == 0
  unused.map fun function => ⟨function.id, function.name⟩

/-- Take the declaration out. -/
def apply (edit : FunctionRemoval) (shader : Shader) : Shader :=
  (shader.removeDecl edit.decl).1

/-- The line that announces the edit. -/
def describe (edit : FunctionRemoval) : String :=
  "remove unused function '" ++ edit.name ++ "'"

end FunctionRemoval
end Reduction
end Whittle
