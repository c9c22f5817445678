import Whittle.Check.Operation

namespace Whittle
namespace Check

/-!
# What is declared where

A context holds what a piece of program may refer to, and what surrounds it.
Opening a scope gives a new context and leaves the old one as it was, so the end
of a scope needs no action.
-/

/-- What a name in scope stands for. -/
structure Binding where
  ty : Ty
  writable : Bool
deriving DecidableEq

/-- The names of one scope, the latest declaration first. -/
abbrev Scope := List (String × Binding)

/-- What surrounds a piece of program.  A function is among the `functions`
only behind its definition, so it does not see itself. -/
structure Context where
  version : Version
  structs : List StructDecl
  functions : List Function
  /-- The names taken at the top level, by whatever they stand for. -/
  taken : List String
  inner : Scope
  /-- The scopes around the innermost one, from the inside to the outside. -/
  outer : List Scope
  returnTy : Option Ty
  loops : Nat
  switches : Nat

namespace Context

/-- The variables that every shader of a version has. -/
def predefined (version : Version) : Scope :=
  (if version.hasFragColor then [("gl_FragColor", ⟨.vector .float .four, true⟩)] else []) ++
    [("gl_FragCoord", ⟨.vector .float .four, false⟩)]

/-- The context of the first declaration of a shader. -/
def initial (version : Version) : Context where
  version := version
  structs := []
  functions := []
  taken := []
  inner := predefined version
  outer := []
  returnTy := none
  loops := 0
  switches := 0

/-- What a name stands for, in the innermost scope that has it. -/
def lookup? (ctx : Context) (name : String) : Option Binding :=
  (ctx.inner :: ctx.outer).findSome? fun scope => scope.lookup name

def struct? (ctx : Context) (name : String) : Option StructDecl :=
  ctx.structs.find? fun decl => decl.name == name

def function? (ctx : Context) (name : String) : Option Function :=
  ctx.functions.find? fun function => function.name == name

/-- The context inside a new scope. -/
def opened (ctx : Context) : Context :=
  { ctx with inner := [], outer := ctx.inner :: ctx.outer }

def inLoop (ctx : Context) : Context :=
  { ctx with loops := ctx.loops + 1 }

/-- The context inside a switch.  Loops around it stay visible to `continue`. -/
def inSwitch (ctx : Context) : Context :=
  { ctx with switches := ctx.switches + 1 }

/-- The context with one more name in the innermost scope. -/
def bound (ctx : Context) (name : String) (binding : Binding) : Context :=
  { ctx with inner := (name, binding) :: ctx.inner }

/-- The type of a member: a field of a struct, or a selection of components. -/
def member (ctx : Context) (base : Ty) (field : String) : Except Fault Ty :=
  match base with
  | .struct name =>
      match (ctx.struct? name).bind fun decl => decl.field? field with
      | some found => .ok found.ty
      | none => .error (.noField name field)
  | _ =>
      match select? base field.toList with
      | some ty => .ok ty
      | none => .error (.noSelection field base)

/-- The first parameter whose argument has another type, with both types. -/
def mismatch? : List Param → List Ty → Option (Ty × Ty)
  | param :: params, arg :: args =>
      if param.ty == arg then mismatch? params args else some (param.ty, arg)
  | _, _ => none

/-- The type of a call of a function of the shader. -/
def callFunction (function : Function) (args : List Ty) : Except Fault Ty :=
  if function.params.length != args.length then
    .error (.argumentCount function.name function.params.length args.length)
  else
    match mismatch? function.params args with
    | some (expected, found) => .error (.argumentType function.name expected found)
    | none => .ok function.returnTy

def constructStruct (decl : StructDecl) (args : List Ty) : Except Fault Ty :=
  if decl.fields.map Field.ty == args then .ok (.struct decl.name)
  else .error (.fieldArguments decl.name)

/-- The type of a call.  A name may stand for several things at once; types come
before structs, these before markers, then the functions of the shader, and the
builtin functions last. -/
def call (ctx : Context) (callee : String) (args : List Ty) : Except Fault Ty :=
  match Ty.ofKeyword? callee with
  | some target => construct target args
  | none =>
      match ctx.struct? callee with
      | some decl => constructStruct decl args
      | none =>
          match Marker.ofName? callee with
          | some marker => callMarker marker args
          | none =>
              match ctx.function? callee with
              | some function => callFunction function args
              | none =>
                  if isBuiltin callee then callBuiltin callee args
                  else .error (.noFunction callee)

end Context
end Check
end Whittle
