import Whittle.Reduction.Function.CallSite
import Whittle.Reduction.Names
import Whittle.Reduction.Site
import Whittle.Reduction.Substitution

namespace Whittle
namespace Reduction

/-!
# Undoing outlining

An assignment `x = f(args);` of a function that does nothing but return an
expression becomes an assignment of that expression, with the arguments in the
place of the parameters.
-/

/-- The expression that a function returns, if that is all it does. -/
def returnedExpr? (function : Function) : Option Expr :=
  match function.body.stmts with
  | [.ret _ value] => value
  | _ => none

structure OutlinedCall where
  stmt : NodeId
  call : NodeId
  callee : String
deriving DecidableEq

namespace OutlinedCall

/-- Whether every name in a returned expression means the same where the call
stands: parameters are replaced, and globals must not be shadowed. -/
def isResolvable (shader : Shader) (callerNames : Names) (function : Function) (body : Expr) :
    Bool :=
  (Names.ofExpr body).referenced.all fun name =>
    (function.paramIndex? name).isSome ||
      ((shader.global? name).isSome && callerNames.declarations name == 0)

def ofStmt? (everywhere : Bool) (shader : Shader) (callerNames : Names) (s : Stmt) :
    Option OutlinedCall := do
  let site ← callSite? s
  let function ← shader.function? site.callee
  let body ← returnedExpr? function
  if site.target.isSome && (everywhere || isInjectedName site.callee) && isPure shader body &&
      site.args.all (isPure shader) && isResolvable shader callerNames function body then
    some ⟨s.id, site.callId, site.callee⟩
  else none

/-- The outlined statements in a shader.  Arguments may be repeated or dropped
in the result, so they must be as free of effects as what is returned. -/
def find (everywhere : Bool) (shader : Shader) : List OutlinedCall :=
  shader.functions.flatMap fun caller =>
    let callerNames := Names.ofFunction caller
    (functionSites caller).filterMap fun site => ofStmt? everywhere shader callerNames site.stmt

/-- What each parameter is replaced by.  Of several parameters with one name the
last one counts. -/
def binding? (params : List Param) (args : List Expr) (name : String) : Option Expr :=
  ((params.map Param.name).zip args).reverse.lookup name

/-- Put the returned expression in the place of the call.  Each argument and the
whole are in parentheses, so no operator around them can pull them apart, and
all identifiers are new, because an argument may occur twice. -/
def apply (edit : OutlinedCall) (shader : Shader) : Shader :=
  let parts := do
    let (_, args) ← (shader.findExpr? edit.call).bind Expr.call?
    let function ← shader.function? edit.callee
    let body ← returnedExpr? function
    some (args, function, body)
  match parts with
  | none => shader
  | some (args, function, body) =>
      let passed := args.take function.params.length
      let (args, drawn) := parenthesizedList shader passed
      let (inlined, drawn) :=
        parenthesized drawn (substituted (binding? function.params args) body)
      let (fresh, drawn) := drawn.refreshExpr inlined
      (drawn.replaceExpr edit.call fresh).1

/-- The line that announces the edit. -/
def describe (edit : OutlinedCall) : String :=
  "inline outlined call to '" ++ edit.callee ++ "' in statement " ++ edit.stmt.text

end OutlinedCall
end Reduction
end Whittle
