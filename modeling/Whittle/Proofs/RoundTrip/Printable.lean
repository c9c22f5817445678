import Whittle.Proofs.RoundTrip.Plain
import Whittle.Syntax.Shader

namespace Whittle

/-!
# Printable trees

A tree is printable if its text can be read at all and says what the tree does.
Names have to be names, literals have to exist, and a declaration has to stand
where declarations may.  A branch in front of an `else` must not end in a branch
without one, which would take the `else` for itself.

What is asked of expressions is a parameter.
-/

/-- Whether the text of an expression is read as the expression: no node of it
is a literal that does not exist, and none has a name that is not one. -/
def Expr.isPrintable (e : Expr) : Bool :=
  e.subexprs.all fun part => part.isReadable && !part.isInfinity

def Ty.isPrintable : Ty → Bool
  | .struct name => Parse.isName name
  | _ => true

/-- Whether the number of a label, without its sign, can be written. -/
def Label.isPrintable : Label → Bool
  | .value number => number.natAbs ≤ Parse.largestInt
  | .otherwise => true

section

variable (fits : Expr → Bool)

/-- Whether a variable can be written. -/
def VarDecl.isPrintable (var : VarDecl) : Bool :=
  var.ty.isPrintable && Parse.isName var.name && var.init.all fits

/-- Whether a variable can be written as a local one. -/
def VarDecl.isPrintableLocal (var : VarDecl) : Bool :=
  var.isPrintable fits && (var.qualifier.isNone || var.qualifier == some .const)

namespace Stmt

/-- Whether an `else` behind the statement would belong to a branch at its
end. -/
def endsOpen : Stmt → Bool
  | .branch _ _ _ none => true
  | .branch _ _ _ (some s) => s.endsOpen
  | .forLoop _ _ _ _ body | .whileLoop _ _ body => body.endsOpen
  | _ => false

/-- Whether a statement can be written as the first part of the header of a
loop. -/
def isPrintableInit : Option Stmt → Bool
  | none => true
  | some (.decl _ var) => var.isPrintableLocal fits
  | some (.expr _ e) => fits e
  | some _ => false

mutual

/-- Whether a statement can be written. -/
def isPrintable : Stmt → Bool
  | .decl _ var => var.isPrintableLocal fits
  | .expr _ e => fits e
  | .block _ _ stmts => isPrintableList stmts
  | .branch _ cond whenTrue none => fits cond && whenTrue.isPrintable
  | .branch _ cond whenTrue (some whenFalse) =>
      fits cond && whenTrue.isPrintable && whenFalse.isPrintable && !whenTrue.endsOpen
  | .forLoop _ init cond step body =>
      isPrintableInit fits init && cond.all fits && step.all fits && body.isPrintable
  | .whileLoop _ cond body => fits cond && body.isPrintable
  | .switch _ selector cases => fits selector && isPrintableCases cases
  | .ret _ value => value.all fits
  | .breakOut _ | .continueLoop _ | .discard _ | .empty _ => true

def isPrintableList : List Stmt → Bool
  | [] => true
  | s :: rest => s.isPrintable && isPrintableList rest

def isPrintableCases : List Case → Bool
  | [] => true
  | .mk _ label body :: rest =>
      label.isPrintable && isPrintableList body && isPrintableCases rest

end

end Stmt

/-- Whether a field can be written. -/
def Field.isPrintable (field : Field) : Bool :=
  field.ty.isPrintable && Parse.isName field.name

/-- Whether a parameter can be written.  The word `void` in its place would say
that there are no parameters. -/
def Param.isPrintable (param : Param) : Bool :=
  param.ty.isPrintable && param.ty != .void && Parse.isName param.name

/-- Whether a declaration can be written. -/
def Decl.isPrintable : Decl → Bool
  | .precision decl => decl.ty.isPrintable
  | .struct decl => Parse.isName decl.name && decl.fields.all Field.isPrintable
  | .global var => var.isPrintable fits
  | .function f =>
      f.returnTy.isPrintable && Parse.isName f.name && f.params.all Param.isPrintable &&
        Stmt.isPrintableList fits f.body.stmts

end

/-- Whether a shader can be written: all its declarations can. -/
def Shader.isPrintable (shader : Shader) : Bool :=
  shader.decls.all (Decl.isPrintable Expr.isPrintable)

end Whittle
