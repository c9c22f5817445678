import Whittle.Reduction.Function.CallSite
import Whittle.Reduction.Function.FunctionRemoval
import Whittle.Reduction.Site
import Whittle.Syntax.Numbering

namespace Whittle
namespace Reduction

/-!
# Inlining calls

A statement `f(args);` or `x = f(args);` becomes a block that declares each
parameter with its argument, runs the body of the function, and ends with what
the function returns.  The only `return` of the function must be its last
statement, and the names it declares must be new to the caller, so that nothing
in the block is captured.
-/

/-- The number of statements that a function may have at most to be inlined. -/
def inlinedStmtLimit : Nat := 8

/-- The statements of a function and the value that it returns behind them. -/
structure StraightBody where
  stmts : List Stmt
  returned : Option Expr

/-- The statements in front of a `return` at the end of a list, and its value. -/
def beforeReturn (stmts : List Stmt) : StraightBody :=
  match stmts.getLast? with
  | some (.ret _ value) => ⟨stmts.dropLast, value⟩
  | _ => ⟨stmts, none⟩

/-- The body of a function that returns at its end or nowhere.  There is none
if the function lacks the value it has to return. -/
def straightBody? (function : Function) : Option StraightBody :=
  let body := beforeReturn function.body.stmts
  let returnsEarly := body.stmts.any Stmt.holdsReturn
  let lacksValue := function.returnTy != .void && body.returned.isNone
  if returnsEarly || lacksValue then none else some body

structure CallInlining where
  stmt : NodeId
  callee : String
deriving DecidableEq

namespace CallInlining

/-- Whether the names in a function mean the same in a block of the caller: its
own names are new there, and the globals it refers to are not shadowed. -/
def isHygienic (shader : Shader) (caller callee : Function) : Bool :=
  let callerNames := Names.ofFunction caller
  let calleeNames := Names.ofFunction callee
  let ownNames := calleeNames.declared.filter fun name => name != callee.name
  (ownNames.all fun name => !callerNames.mentions name) &&
    calleeNames.referenced.all fun name =>
      calleeNames.declared.contains name || (shader.global? name).isNone ||
        callerNames.declarations name == 0

/-- Whether a call in a function can be inlined. -/
def isInlinable (shader : Shader) (caller callee : Function) (site : CallSite) : Bool :=
  callee.name != entryName && callee.name != caller.name &&
    callee.body.stmts.length ≤ inlinedStmtLimit && (straightBody? callee).isSome &&
    isHygienic shader caller callee && (site.target.isNone || callee.returnTy != .void)

def ofStmt? (everywhere : Bool) (shader : Shader) (caller : Function) (s : Stmt) :
    Option CallInlining := do
  let site ← callSite? s
  let callee ← shader.function? site.callee
  if (everywhere || isInjectedName site.callee) && isInlinable shader caller callee site then
    some ⟨s.id, site.callee⟩
  else none

def find (everywhere : Bool) (shader : Shader) : List CallInlining :=
  (sites shader).filterMap fun site => ofStmt? everywhere shader site.function site.stmt

def paramDecl (param : Param) (arg : Expr) : Stmt :=
  .decl .unnumbered ⟨.unnumbered, none, param.ty, param.name, some arg⟩

/-- The statement for the returned value: an assignment to the target of the
call, or else the value alone. -/
def resultStmt (target : Option Expr) (value : Expr) : Stmt :=
  match target with
  | some target => .expr .unnumbered (.assign .unnumbered .set target value)
  | none => .expr .unnumbered value

/-- The statements that replace a call of a function, yet to be numbered. -/
def inlinedStmts (site : CallSite) (callee : Function) (body : StraightBody) : List Stmt :=
  List.zipWith paramDecl callee.params site.args ++ body.stmts ++
    (body.returned.map (resultStmt site.target)).toList

/-- Put the block in the place of the statement.  The shader may have changed
since the search, so call and function are looked at again; that the names are
still new is not. -/
def apply (edit : CallInlining) (shader : Shader) : Shader :=
  let inlined? := do
    let site ← (shader.findStmt? edit.stmt).bind callSite?
    let callee ← shader.function? edit.callee
    let body ← straightBody? callee
    some (inlinedStmts site callee body)
  match inlined? with
  | none => shader
  | some stmts =>
      let (stmts, drawn) := shader.refreshStmts stmts
      let (scope, drawn) := drawn.freshId
      (drawn.replaceStmt edit.stmt (.block edit.stmt scope stmts)).1

/-- The line that announces the edit. -/
def describe (edit : CallInlining) : String :=
  "inline call to '" ++ edit.callee ++ "' in statement " ++ edit.stmt.text

end CallInlining
end Reduction
end Whittle
