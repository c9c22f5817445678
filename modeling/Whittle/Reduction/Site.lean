import Whittle.Syntax.Marker
import Whittle.Syntax.Shader

namespace Whittle
namespace Reduction

/-!
# Where simplifications apply

Most simplifications concern statements that stand in a list, because only
these can go away without leaving a gap, or expressions that are evaluated for
their value, because only these can be replaced by another value.  A targeted
search further restricts itself to injected code.
-/

/-- A list of statements, and whether it is the whole body of a function. -/
structure StmtList where
  stmts : List Stmt
  isBody : Bool

/-- Whether the list would leave a function without a body if it lost a
statement. -/
def StmtList.isSoleStmt (list : StmtList) : Bool :=
  list.isBody && list.stmts.length == 1

/-- The lists that the outermost node of a statement holds. -/
def ownLists : Stmt → List (List Stmt)
  | .block _ _ stmts => [stmts]
  | .switch _ _ cases => cases.map Case.body
  | _ => []

/-- All lists of statements of a function: its body, and then those within it
in the order of the text. -/
def stmtLists (function : Function) : List StmtList :=
  ⟨function.body.stmts, true⟩ ::
    (function.stmts.flatMap ownLists).map fun stmts => ⟨stmts, false⟩

structure Site where
  function : Function
  list : StmtList
  stmt : Stmt

def functionSites (function : Function) : List Site :=
  (stmtLists function).flatMap fun list =>
    list.stmts.map fun stmt => ⟨function, list, stmt⟩

/-- The statements in the lists of all functions. -/
def sites (shader : Shader) : List Site :=
  shader.functions.flatMap functionSites

/-- Whether a statement may hold the only `return` of a function that has to
return something. -/
def holdsRequiredReturn (function : Function) (s : Stmt) : Bool :=
  function.returnTy != .void && s.holdsReturn

mutual

/-- An expression and those of its parts that are evaluated for their value,
each before its own parts.  What is written is a location; within it, only the
operands of an index are values. -/
def values : Expr → List Expr
  | .assign id op target value => .assign id op target value :: (valuesWithin target ++ values value)
  | .unary id op operand =>
      .unary id op operand :: (if op.writesOperand then valuesWithin operand else values operand)
  | .binary id op lhs rhs => .binary id op lhs rhs :: (values lhs ++ values rhs)
  | .ternary id cond whenTrue whenFalse =>
      .ternary id cond whenTrue whenFalse :: (values cond ++ values whenTrue ++ values whenFalse)
  | .call id callee args => .call id callee args :: valuesOfList args
  | .member id base field => .member id base field :: values base
  | .index id base position => .index id base position :: (values base ++ values position)
  | .paren id inner => .paren id inner :: values inner
  | e => [e]

/-- The parts of a location that are evaluated for their value. -/
def valuesWithin : Expr → List Expr
  | .member _ base _ => valuesWithin base
  | .paren _ inner => valuesWithin inner
  | .index _ base position => valuesWithin base ++ values position
  | _ => []

def valuesOfList : List Expr → List Expr
  | [] => []
  | e :: rest => values e ++ valuesOfList rest

end

/-- Every expression of the shader that is evaluated for its value, in the order
of the text. -/
def rvalues (shader : Shader) : List Expr :=
  shader.roots.flatMap values

/-- The identifiers in the guarded part of a statement, if that part never
runs. -/
def deadIds : Stmt → List NodeId
  | .branch _ cond whenTrue _ =>
      if Marker.of? cond == some .dead then
        whenTrue.substmts.map Stmt.id ++ whenTrue.exprs.map Expr.id
      else []
  | _ => []

/-- The identifiers in the argument of an expression, if that argument was made
up. -/
def fuzzedIds : Expr → List NodeId
  | .call _ callee args =>
      if Marker.ofName? callee == some .fuzzed then
        (args.flatMap Expr.subexprs).map Expr.id
      else []
  | _ => []

/-- The identifiers of all statements and expressions in injected code. -/
def injectedIds (shader : Shader) : List NodeId :=
  shader.stmts.flatMap deadIds ++ shader.exprs.flatMap fuzzedIds

end Reduction
end Whittle
