import Whittle.Check.Operation
import Whittle.Check.Log
import Whittle.Reduction.Names
import Whittle.Reduction.Site
import Whittle.Syntax.Target

namespace Whittle
namespace Reduction

/-!
# Splitting vectors

A local vector that is only ever used one component at a time can be split into
one scalar variable for each component.  Its initialiser must be a call with
one scalar argument for each component.
-/

/-- The letters that name the variables for the components. -/
def splitLetters : List String := ["x", "y", "z", "w"]

/-- The name of the variable for a component of a vector. -/
def splitName (name : String) (component : Nat) : String :=
  name ++ "_" ++ (splitLetters[component]?).getD ""

/-- The component that a field selects, if it selects a single one. -/
def singleComponent? (field : String) : Option Nat :=
  match field.toList with
  | [letter] => Check.componentIndex? letter
  | _ => none

/-- The component of a variable that an expression selects, among the first
`count` ones. -/
def componentOf? (varName : String) (count : Nat) : Expr → Option Nat
  | .member _ base field =>
      if base.varName? == some varName then (singleComponent? field).filter (· < count) else none
  | _ => none

structure VectorSplit where
  declStmt : NodeId
  varName : String
  count : Nat
  /-- The identifier of each access with the component that it selects. -/
  accesses : List (NodeId × Nat)
deriving DecidableEq

namespace VectorSplit

/-- Whether a variable is built from as many scalars as it has components. -/
def isBuiltFromScalars (types : TypeTable) (count : Nat) (args : List Expr) : Bool :=
  args.length == count && args.all fun arg => types[arg.id]?.any Ty.isScalar

def accessesOf (exprs : List Expr) (varName : String) (count : Nat) : List (NodeId × Nat) :=
  exprs.filterMap fun e => (componentOf? varName count e).map fun component => (e.id, component)

/-- The splitting of the variable declared in a statement. -/
def ofStmt? (everywhere : Bool) (types : TypeTable) (names : Names) (exprs : List Expr)
    (s : Stmt) : Option VectorSplit := do
  let var ← s.declared?
  let count ← var.ty.components?
  let (_, args) ← var.init.bind Expr.call?
  let targeted := everywhere || isInjectedName var.name
  let namesAreFree := (List.range count).all fun component =>
    !names.mentions (splitName var.name component)
  let accesses := accessesOf exprs var.name count
  if targeted && var.ty.isVector && var.qualifier.isNone &&
      isBuiltFromScalars types count args && names.declarations var.name == 1 &&
      namesAreFree && accesses.length == names.references var.name then
    some ⟨s.id, var.name, count, accesses⟩
  else none

def find (everywhere : Bool) (types : TypeTable) (shader : Shader) : List VectorSplit :=
  let names := Names.ofShader shader
  let exprs := shader.exprs
  (sites shader).filterMap fun site => ofStmt? everywhere types names exprs site.stmt

/-- The declarations of the variables for the components from `component` on,
each with new identifiers. -/
def scalarDecls (varName : String) (ty : Scalar) (shader : Shader) (component : Nat) :
    List Expr → List Stmt × Shader
  | [] => ([], shader)
  | arg :: rest =>
      let (varId, drawn) := shader.freshId
      let (stmtId, drawn) := drawn.freshId
      let var : VarDecl := ⟨varId, none, .scalar ty, splitName varName component, some arg⟩
      let (others, drawn) := scalarDecls varName ty drawn (component + 1) rest
      (.decl stmtId var :: others, drawn)

/-- Put a new reference to the variable for a component in the place of an
access. -/
def replaceAccess (edit : VectorSplit) (shader : Shader) (access : NodeId × Nat) : Shader :=
  let (id, drawn) := shader.freshId
  (drawn.replaceExpr access.1 (.var id (splitName edit.varName access.2))).1

/-- Put the declarations of the scalars in the place of the vector, and a scalar
in the place of each access. -/
def apply (edit : VectorSplit) (shader : Shader) : Shader :=
  let parts := do
    let var ← (shader.findStmt? edit.declStmt).bind Stmt.declared?
    let ty ← var.ty.component?
    let (_, args) ← var.init.bind Expr.call?
    some (ty, args)
  match parts with
  | none => shader
  | some (ty, args) =>
      let (scalars, drawn) := scalarDecls edit.varName ty shader 0 args
      let (split, _) := drawn.replaceStmtWith edit.declStmt scalars
      edit.accesses.foldl edit.replaceAccess split

/-- The line that announces the edit. -/
def describe (edit : VectorSplit) : String :=
  "split vector '" ++ edit.varName ++ "' into " ++ toString edit.count ++ " scalars"

end VectorSplit
end Reduction
end Whittle
