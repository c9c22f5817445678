import Whittle.Reduction.Function.CallSite
import Whittle.Reduction.Function.FunctionRemoval

namespace Whittle
namespace Reduction

/-!
# Removing unused parameters

A parameter that the body of its function does not refer to can go, together
with its argument in every call.  The function and the parameter are found
again by their names, and the calls are looked for when the parameter is gone,
so calls that came into being after the search lose their argument too.
-/

/-- The removal of a parameter.  Its identifier tells it from others of the same
name, but the edit goes by the names. -/
structure ParamRemoval where
  function : String
  param : String
  id : NodeId
deriving DecidableEq

namespace ParamRemoval

def ofFunction (everywhere : Bool) (function : Function) : List ParamRemoval :=
  if function.name == entryName then []
  else
    let names := Names.ofFunction function
    let unused := function.params.filter fun param =>
      (everywhere || isInjectedName param.name) && names.references param.name == 0
    unused.map fun param => ⟨function.name, param.name, param.id⟩

/-- The unused parameters in a shader.  A search in injected code goes by the
name of the parameter, not by that of the function. -/
def find (everywhere : Bool) (shader : Shader) : List ParamRemoval :=
  shader.functions.flatMap (ofFunction everywhere)

/-- Take the parameter and its arguments out. -/
def apply (edit : ParamRemoval) (shader : Shader) : Shader :=
  match shader.function? edit.function with
  | none => shader
  | some function =>
      match function.paramIndex? edit.param with
      | none => shader
      | some position =>
          let shortened := shader.replaceFunction edit.function
            { function with params := function.params.eraseIdx position }
          shortened.modifyExprs (callIds shortened.exprs edit.function) (withoutArg position)

/-- The line that announces the edit. -/
def describe (edit : ParamRemoval) : String :=
  "remove unused parameter '" ++ edit.param ++ "' of '" ++ edit.function ++ "'"

end ParamRemoval
end Reduction
end Whittle
