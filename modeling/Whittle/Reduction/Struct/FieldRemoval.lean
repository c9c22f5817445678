import Whittle.Reduction.Function.CallSite
import Whittle.Reduction.Struct.FieldAccess
import Whittle.Syntax.Target

namespace Whittle
namespace Reduction

/-!
# Removing a field of a struct

A field that is never accessed can go, together with its argument in every call
of the constructor.  The last field stays, because a struct needs one.
-/

structure FieldRemoval where
  struct : String
  field : NodeId
  fieldName : String
  position : Nat
  constructors : List NodeId
deriving DecidableEq

namespace FieldRemoval

def ofStruct (everywhere : Bool) (types : TypeTable) (exprs : List Expr) (decl : StructDecl) :
    List FieldRemoval :=
  if decl.fields.length < 2 then []
  else
    decl.fields.zipIdx.filterMap fun (field, position) =>
      if exprs.any (accessesField types decl.name field.name) then none
      else if everywhere || isInjectedName decl.name || isInjectedName field.name then
        some ⟨decl.name, field.id, field.name, position, callIds exprs decl.name⟩
      else none

/-- The fields in a shader that are never accessed. -/
def find (everywhere : Bool) (types : TypeTable) (shader : Shader) : List FieldRemoval :=
  shader.structs.flatMap (ofStruct everywhere types shader.exprs)

/-- Take the field and its arguments out.  The field is looked for again by its
identifier, while the constructor calls and the position of the argument are
those of the search. -/
def apply (edit : FieldRemoval) (shader : Shader) : Shader :=
  match shader.struct? edit.struct with
  | none => shader
  | some decl =>
      match decl.fields.findIdx? fun field => field.id == edit.field with
      | none => shader
      | some position =>
          let shortened := shader.replaceStruct edit.struct
            { decl with fields := decl.fields.eraseIdx position }
          shortened.modifyExprs edit.constructors (withoutArg edit.position)

/-- The line that announces the edit. -/
def describe (edit : FieldRemoval) : String :=
  "remove field '" ++ edit.fieldName ++ "' of struct '" ++ edit.struct ++ "'"

end FieldRemoval
end Reduction
end Whittle
