import Whittle.Syntax.Stmt
import Whittle.Version

namespace Whittle

/-!
# Shaders

A shader is a version and a list of declarations, together with the next
identifier to hand out.  Names are looked up by position: of several
declarations with one name, the first is meant.
-/

/-- The precision that a shader asks for. -/
inductive Precision where
  | low
  | medium
  | high
deriving DecidableEq

def Precision.keyword : Precision → String
  | .low => "lowp"
  | .medium => "mediump"
  | .high => "highp"

/-- The default precision of a type, as in `precision mediump float;`. -/
structure PrecisionDecl where
  id : NodeId
  precision : Precision
  ty : Ty

structure Field where
  id : NodeId
  ty : Ty
  name : String
deriving DecidableEq

structure StructDecl where
  id : NodeId
  name : String
  fields : List Field
deriving DecidableEq

def StructDecl.field? (decl : StructDecl) (name : String) : Option Field :=
  decl.fields.find? fun field => field.name == name

def StructDecl.fieldIndex? (decl : StructDecl) (name : String) : Option Nat :=
  decl.fields.findIdx? fun field => field.name == name

structure Param where
  id : NodeId
  ty : Ty
  name : String
deriving DecidableEq

/-- A block that is not a statement, such as the body of a function. -/
structure Block where
  id : NodeId
  stmts : List Stmt

/-- Whether a `return` stands anywhere in the block. -/
def Block.holdsReturn (block : Block) : Bool :=
  block.stmts.any Stmt.holdsReturn

structure Function where
  id : NodeId
  returnTy : Ty
  name : String
  params : List Param
  body : Block

namespace Function

def paramIndex? (function : Function) (name : String) : Option Nat :=
  function.params.findIdx? fun param => param.name == name

def stmts (function : Function) : List Stmt :=
  function.body.stmts.flatMap Stmt.substmts

/-- The outermost expressions of the body. -/
def roots (function : Function) : List Expr :=
  function.body.stmts.flatMap Stmt.roots

/-- The expressions of the body, each before its operands. -/
def exprs (function : Function) : List Expr :=
  function.roots.flatMap Expr.subexprs

end Function

/-- Top-level declarations. -/
inductive Decl where
  | precision (decl : PrecisionDecl)
  | struct (decl : StructDecl)
  | global (var : VarDecl)
  | function (f : Function)

namespace Decl

/-- The identifier of a declaration; a global has that of its variable. -/
def id : Decl → NodeId
  | .precision decl => decl.id
  | .struct decl => decl.id
  | .global var => var.id
  | .function f => f.id

/-- The struct that is declared, if it is one. -/
def struct? : Decl → Option StructDecl
  | .struct decl => some decl
  | _ => none

def global? : Decl → Option VarDecl
  | .global var => some var
  | _ => none

def function? : Decl → Option Function
  | .function f => some f
  | _ => none

/-- The statements of a declaration, which only a function has. -/
def stmts : Decl → List Stmt
  | .function f => f.stmts
  | _ => []

def roots : Decl → List Expr
  | .global var => var.init.toList
  | .function f => f.roots
  | .precision _ | .struct _ => []

end Decl

structure Shader where
  version : Version
  decls : List Decl
  nextId : NodeId

namespace Shader

def functions (shader : Shader) : List Function :=
  shader.decls.filterMap Decl.function?

def structs (shader : Shader) : List StructDecl :=
  shader.decls.filterMap Decl.struct?

/-- The global variables in order. -/
def globals (shader : Shader) : List VarDecl :=
  shader.decls.filterMap Decl.global?

/-- The first function with the given name. -/
def function? (shader : Shader) (name : String) : Option Function :=
  shader.functions.find? fun function => function.name == name

/-- The first struct with the given name. -/
def struct? (shader : Shader) (name : String) : Option StructDecl :=
  shader.structs.find? fun decl => decl.name == name

def global? (shader : Shader) (name : String) : Option VarDecl :=
  shader.globals.find? fun var => var.name == name

/-- Every statement of the shader in the order of the text, each before the
statements in it. -/
def stmts (shader : Shader) : List Stmt :=
  shader.decls.flatMap Decl.stmts

def roots (shader : Shader) : List Expr :=
  shader.decls.flatMap Decl.roots

/-- Every expression of the shader in the order of the text, each before its
operands. -/
def exprs (shader : Shader) : List Expr :=
  shader.roots.flatMap Expr.subexprs

/-- The next identifier, and the shader that will not hand it out again. -/
def freshId (shader : Shader) : NodeId × Shader :=
  (shader.nextId, { shader with nextId := shader.nextId + 1 })

end Shader
end Whittle
