import Whittle.Reduction.Names
import Whittle.Syntax.Target
import Whittle.Syntax.Marker

namespace Whittle
namespace Reduction

/-!
# Removing unused structs

A struct that is the type of nothing and whose constructor is never called can
go.
-/

structure StructRemoval where
  decl : NodeId
  name : String
deriving DecidableEq

namespace StructRemoval

def find (everywhere : Bool) (shader : Shader) : List StructRemoval :=
  let names := Names.ofShader shader
  let unused := shader.structs.filter fun decl =>
    (everywhere || isInjectedName decl.name) &&
      names.typeUses decl.name == 0 && names.calls decl.name == 0
  unused.map fun decl => ⟨decl.id, decl.name⟩

/-- Take the declaration out. -/
def apply (edit : StructRemoval) (shader : Shader) : Shader :=
  (shader.removeDecl edit.decl).1

/-- The line that announces the edit. -/
def describe (edit : StructRemoval) : String :=
  "remove unused struct '" ++ edit.name ++ "'"

end StructRemoval
end Reduction
end Whittle
