import Whittle.Syntax.Shader

namespace Whittle
namespace Reduction

/-!
# Use of names

Names are compared as text.  A simplification that replaces references first
makes sure that the names in question are declared once, and then comparing
texts and resolving names come to the same.

A piece of program uses a name in several ways.  Each way is a list with one
entry per use, so how often is a matter of counting and in which order does not
matter.
-/

/-- The names in a piece of program, by how they are used. -/
structure Names where
  /-- Variables, parameters, functions and structs that are declared. -/
  declared : List String
  /-- Variables that are referred to, also in order to write them. -/
  referenced : List String
  /-- Variables that are written, in whole or in part. -/
  assigned : List String
  /-- Functions and constructors that are called. -/
  called : List String
  /-- Structs that serve as the type of something. -/
  typed : List String

namespace Names

def none : Names := ⟨[], [], [], [], []⟩

/-- The names in two pieces of program. -/
def join (first second : Names) : Names where
  declared := first.declared ++ second.declared
  referenced := first.referenced ++ second.referenced
  assigned := first.assigned ++ second.assigned
  called := first.called ++ second.called
  typed := first.typed ++ second.typed

def ofExprs (roots : List Expr) : Names :=
  let exprs := roots.flatMap Expr.subexprs
  { none with
    referenced := exprs.filterMap Expr.varName?
    assigned := exprs.filterMap fun e => e.written?.bind Expr.writtenVar?
    called := exprs.filterMap fun e => e.call?.map Prod.fst }

def ofExpr (e : Expr) : Names :=
  ofExprs [e]

def ofStmts (stmts : List Stmt) : Names :=
  let vars := (stmts.flatMap Stmt.substmts).filterMap Stmt.declared?
  { ofExprs (stmts.flatMap Stmt.roots) with
    declared := vars.map VarDecl.name
    typed := vars.filterMap fun var => var.ty.structName? }

/-- The names in a function, its own and those of its parameters included. -/
def ofFunction (function : Function) : Names :=
  let body := ofStmts function.body.stmts
  { body with
    declared := function.name :: function.params.map Param.name ++ body.declared
    typed := function.returnTy.structName?.toList ++
      function.params.filterMap (fun param => param.ty.structName?) ++ body.typed }

def ofDecl : Decl → Names
  | .precision _ => none
  | .struct decl =>
      { none with
        declared := [decl.name]
        typed := decl.fields.filterMap fun field => field.ty.structName? }
  | .global var =>
      { ofExprs var.init.toList with
        declared := [var.name]
        typed := var.ty.structName?.toList }
  | .function f => ofFunction f

def ofShader (shader : Shader) : Names :=
  shader.decls.foldr (fun decl rest => (ofDecl decl).join rest) none

def declarations (names : Names) (name : String) : Nat :=
  names.declared.count name

/-- How often a name is referred to. -/
def references (names : Names) (name : String) : Nat :=
  names.referenced.count name

def calls (names : Names) (name : String) : Nat :=
  names.called.count name

/-- How often a struct is used as a type. -/
def typeUses (names : Names) (name : String) : Nat :=
  names.typed.count name

/-- Declarations of two pieces of program add up. -/
theorem declarations_join (first second : Names) (name : String) :
    (first.join second).declarations name =
      first.declarations name + second.declarations name := by
  exact List.count_append

/-- References of two pieces of program add up. -/
theorem references_join (first second : Names) (name : String) :
    (first.join second).references name = first.references name + second.references name := by
  exact List.count_append

/-- Whether a variable is written anywhere. -/
def assigns (names : Names) (name : String) : Bool :=
  names.assigned.contains name

/-- Whether a name is declared, referred to or called at all. -/
def mentions (names : Names) (name : String) : Bool :=
  names.declared.contains name || names.referenced.contains name || names.called.contains name

end Names

/-- Whether the outermost node of an expression has no effect: it writes nothing
and calls no function of the shader. -/
def isEffectFree (shader : Shader) (e : Expr) : Bool :=
  e.written?.isNone && !e.call?.any fun (callee, _) => (shader.function? callee).isSome

/-- Whether evaluating an expression has no effect. -/
def isPure (shader : Shader) (e : Expr) : Bool :=
  e.subexprs.all (isEffectFree shader)

end Reduction
end Whittle
