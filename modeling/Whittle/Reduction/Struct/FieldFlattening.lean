import Whittle.Reduction.Struct.FieldAccess
import Whittle.Syntax.Target
import Whittle.Syntax.Numbering

namespace Whittle
namespace Reduction

/-!
# Flattening nested structs

A field that is itself a struct can be replaced by the fields of that struct:
`o.f.g` becomes `o.f_g`, and the arguments of the inner constructor move into
the outer one.
-/

def flattenedName (field inner : String) : String :=
  field ++ "_" ++ inner

/-- Whether a constructor call has, at a position, a call of the constructor of
a struct with an argument for each of its fields. -/
def isSpliceable (inner : StructDecl) (position : Nat) (e : Expr) : Bool :=
  match e with
  | .call _ _ args =>
      (args[position]?.bind Expr.call?).any fun (callee, nested) =>
        callee == inner.name && nested.length == inner.fields.length
  | _ => false

structure FieldFlattening where
  outer : String
  inner : String
  field : NodeId
  fieldName : String
  position : Nat
  constructors : List NodeId
  accesses : List NodeId
deriving DecidableEq

namespace FieldFlattening

/-- The flattening of the field at a position, if every access goes on to an
inner field, every constructor call has a constructor call there, and no name
is taken. -/
def ofField? (everywhere : Bool) (types : TypeTable) (shader : Shader) (exprs : List Expr)
    (outer : StructDecl) (field : Field) (position : Nat) : Option FieldFlattening := do
  let innerName ← field.ty.structName?
  let inner ← shader.struct? innerName
  let targeted := everywhere || isInjectedName outer.name || isInjectedName innerName
  let collides := inner.fields.any fun nested =>
    outer.fields.any fun other => other.name == flattenedName field.name nested.name
  let projections := (exprs.filter (projectsField types outer.name field.name)).map Expr.id
  let reads := exprs.countP (accessesField types outer.name field.name)
  let constructors := exprs.filter fun e => e.calls outer.name
  if targeted && !collides && reads == projections.length &&
      constructors.all (isSpliceable inner position) then
    some ⟨outer.name, inner.name, field.id, field.name, position, constructors.map Expr.id,
      projections⟩
  else none

def find (everywhere : Bool) (types : TypeTable) (shader : Shader) : List FieldFlattening :=
  let exprs := shader.exprs
  shader.structs.flatMap fun outer =>
    outer.fields.zipIdx.filterMap fun (field, position) =>
      ofField? everywhere types shader exprs outer field position

/-- The fields that replace the flattened one, numbered from `start`. -/
def flattened (edit : FieldFlattening) (start : NodeId) (inner : StructDecl) : List Field :=
  Field.numberedList start (inner.fields.map fun nested =>
    { nested with name := flattenedName edit.fieldName nested.name })

/-- The constructor call with the arguments of the inner call in its place.
Anything else in that place is dropped. -/
def spliceArgs (position : Nat) : Expr → Expr
  | .call id callee args =>
      match args[position]? with
      | none => .call id callee args
      | some (.call _ _ nested) =>
          .call id callee (args.take position ++ nested ++ args.drop (position + 1))
      | some _ => .call id callee (args.eraseIdx position)
  | e => e

def flattenAccess : Expr → Expr
  | .member id (.member _ base field) inner => .member id base (flattenedName field inner)
  | e => e

/-- Change the struct, its constructor calls and the accesses.  The calls and
accesses are those of the search; the struct must still have the field where it
was found. -/
def apply (edit : FieldFlattening) (shader : Shader) : Shader :=
  match shader.struct? edit.inner with
  | none => shader
  | some inner =>
      let fields := edit.flattened shader.nextId inner
      let drawn := { shader with nextId := shader.nextId + fields.length }
      match drawn.struct? edit.outer with
      | none => drawn
      | some outer =>
          if outer.fields[edit.position]?.map Field.id != some edit.field then drawn
          else
            let widened := drawn.replaceStruct edit.outer
              { outer with
                fields := outer.fields.take edit.position ++ fields ++
                  outer.fields.drop (edit.position + 1) }
            let constructed := widened.modifyExprs edit.constructors (spliceArgs edit.position)
            constructed.modifyExprs edit.accesses flattenAccess

/-- The line that announces the edit. -/
def describe (edit : FieldFlattening) : String :=
  "inline field '" ++ edit.fieldName ++ "' of struct '" ++ edit.outer ++ "'"

end FieldFlattening
end Reduction
end Whittle
