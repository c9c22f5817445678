import Whittle.Reduction.Struct.FieldAccess
import Whittle.Reduction.Names
import Whittle.Reduction.Site
import Whittle.Syntax.Target

namespace Whittle
namespace Reduction

/-!
# Replacing a struct by its only field

A local variable whose struct has a single field can be that field, if it is
only ever used through it.
-/

/-- The replacement of a local variable by its only field. -/
structure SoleField where
  declStmt : NodeId
  varName : String
  struct : String
  field : String
  fieldTy : Ty
  accesses : List NodeId
deriving DecidableEq

namespace SoleField

/-- The replacement of the variable declared in a statement. -/
def ofStmt? (everywhere : Bool) (shader : Shader) (names : Names) (exprs : List Expr)
    (s : Stmt) : Option SoleField := do
  let var ← s.declared?
  let struct ← var.ty.structName?
  let decl ← shader.struct? struct
  match decl.fields with
  | [field] =>
      let targeted := everywhere || isInjectedName struct || isInjectedName var.name
      let accesses := (exprs.filter (isMemberOf var.name field.name)).map Expr.id
      if targeted && names.declarations var.name == 1 &&
          accesses.length == names.references var.name then
        some ⟨s.id, var.name, struct, field.name, field.ty, accesses⟩
      else none
  | _ => none

/-- The local variables in a shader that can be replaced.  Every reference to the
name must be an access to the field, and the name must be declared once. -/
def find (everywhere : Bool) (shader : Shader) : List SoleField :=
  let names := Names.ofShader shader
  let exprs := shader.exprs
  (sites shader).filterMap fun site => ofStmt? everywhere shader names exprs site.stmt

/-- The initialiser of the field: the argument of the constructor, or else the
field of what the initialiser was. -/
def fieldInit (edit : SoleField) (memberId : NodeId) (init : Expr) : Expr :=
  match init with
  | .call _ callee [arg] =>
      if callee == edit.struct then arg else .member memberId init edit.field
  | _ => .member memberId init edit.field

def fieldDecl (edit : SoleField) (memberId : NodeId) : Stmt → Stmt
  | .decl id var =>
      .decl id { var with ty := edit.fieldTy, init := var.init.map (edit.fieldInit memberId) }
  | s => s

/-- Put a new reference to the variable in the place of an access. -/
def replaceAccess (edit : SoleField) (shader : Shader) (access : NodeId) : Shader :=
  let (id, drawn) := shader.freshId
  (drawn.replaceExpr access (.var id edit.varName)).1

/-- Change the declaration and the accesses.  An identifier for the access that
the initialiser may need is drawn in any case. -/
def apply (edit : SoleField) (shader : Shader) : Shader :=
  let (memberId, drawn) := shader.freshId
  match (drawn.findStmt? edit.declStmt).bind Stmt.declared? with
  | none => drawn
  | some _ =>
      let declared := (drawn.modifyStmt? edit.declStmt (edit.fieldDecl memberId)).getD drawn
      edit.accesses.foldl edit.replaceAccess declared

/-- The line that announces the edit. -/
def describe (edit : SoleField) : String :=
  "replace struct variable '" ++ edit.varName ++ "' with its field '" ++ edit.field ++ "'"

end SoleField
end Reduction
end Whittle
