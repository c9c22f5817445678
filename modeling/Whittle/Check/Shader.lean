import Whittle.Check.Stmt

namespace Whittle
namespace Check

/-!
# Checking shaders

A shader is valid if a check finds no problem.  The check then yields the type
of every expression.
-/

/-- Check the fields of a struct.  The names of the fields in front of them are
given as `before`. -/
def checkFields (ctx : Context) (struct : String) (before : List String) :
    List Field → Checker Unit
  | [] => pure ()
  | field :: rest => do
      noteId field.id
      let _ ← usable ctx field.id field.ty false
      reportIf (before.contains field.name) field.id (.repeatedField struct field.name)
      checkFields ctx struct (field.name :: before) rest

/-- Declare the parameters of a function. -/
def checkParams (ctx : Context) : List Param → Checker Context
  | [] => pure ctx
  | param :: rest => do
      noteId param.id
      let _ ← usable ctx param.id param.ty false
      let behind ← declare ctx param.id param.name ⟨param.ty, true⟩
      checkParams behind rest

/-- Check a struct.  If its name is taken, nothing else is looked at. -/
def checkStruct (ctx : Context) (decl : StructDecl) : Checker Context := do
  if ctx.taken.contains decl.name then
    report decl.id (.taken decl.name)
    pure ctx
  else
    reportIf decl.fields.isEmpty decl.id (.structWithoutFields decl.name)
    checkFields ctx decl.name [] decl.fields
    pure { ctx with taken := decl.name :: ctx.taken, structs := decl :: ctx.structs }

def checkGlobalQualifier (version : Version) (var : VarDecl) : Checker Unit :=
  let exchanged := var.qualifier == some .input || var.qualifier == some .output
  let supplied := var.qualifier == some .uniform || var.qualifier == some .input
  if exchanged && !version.hasInOutGlobals then report var.id (.noInOutGlobals version)
  else reportIf (supplied && var.init.isSome) var.id (.noInitializerAllowed var.name)

/-- Check a global variable.  If its name is taken, nothing else is looked at. -/
def checkGlobal (ctx : Context) (var : VarDecl) : Checker Context := do
  if ctx.taken.contains var.name then
    report var.id (.taken var.name)
    pure ctx
  else
    checkGlobalQualifier ctx.version var
    checkVar { ctx with taken := var.name :: ctx.taken } var

/-- Check a function.  Its parameters and its body share a scope.  If its name
is taken, it is checked all the same but cannot be called. -/
def checkFunction (ctx : Context) (function : Function) : Checker Context := do
  let isTaken := ctx.taken.contains function.name
  reportIf isTaken function.id (.taken function.name)
  reportIf (isReservedName function.name) function.id .reservedFunctionName
  let _ ← usable ctx function.id function.returnTy true
  let body ← checkParams ctx.opened function.params
  noteId function.body.id
  reportIf function.body.stmts.isEmpty function.id (.emptyBody function.name)
  let _ ← checkStmts { body with returnTy := some function.returnTy } function.body.stmts
  reportIf (function.returnTy != .void && !function.body.holdsReturn) function.id
    (.returnMissing function.name)
  pure (if isTaken then ctx
    else { ctx with
      taken := function.name :: ctx.taken
      functions := function :: ctx.functions })

def checkDecl (ctx : Context) (decl : Decl) : Checker Context := do
  noteId decl.id
  match decl with
  | .precision precision =>
      reportIf (precision.ty != .float && precision.ty != .int) precision.id
        (.precisionOf precision.ty)
      pure ctx
  | .struct decl => checkStruct ctx decl
  | .global var => checkGlobal ctx var
  | .function f => checkFunction ctx f

def checkDecls (ctx : Context) : List Decl → Checker Context
  | [] => pure ctx
  | decl :: rest => do
      let behind ← checkDecl ctx decl
      checkDecls behind rest

/-- Check that there is a `main` function, and that it takes and returns
nothing.  Of two such functions the second one's name was taken already. -/
def checkMain (shader : Shader) : Checker Unit :=
  match shader.functions.filter fun function => function.name == "main" with
  | [] => reportNowhere .noMain
  | [main] =>
      reportIf (main.returnTy != .void || !main.params.isEmpty) main.id .mainSignature
  | _ => pure ()

/-- Check a shader against the rules of a version. -/
def checkShader (shader : Shader) (version : Version) : Checker Unit := do
  let _ ← checkDecls (.initial version) shader.decls
  checkMain shader

end Check

/-- The types of all expressions of a valid shader, or the problems of one that
is not. -/
def Shader.check (shader : Shader) (version : Version) :
    Except (List Check.Problem) TypeTable :=
  let log := ((Check.checkShader shader version).run .empty).2
  if log.problems.isEmpty then .ok log.types else .error log.problems

/-- Whether a shader is valid in a version. -/
def Shader.IsValid (shader : Shader) (version : Version) : Prop :=
  ∃ types, shader.check version = .ok types

instance Shader.decidableIsValid (shader : Shader) (version : Version) :
    Decidable (shader.IsValid version) :=
  match checked : shader.check version with
  | .ok types => .isTrue ⟨types, checked⟩
  | .error problems => .isFalse fun ⟨types, isOk⟩ => by rw [checked] at isOk; cases isOk

end Whittle
