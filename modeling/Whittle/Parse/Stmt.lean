import Whittle.Parse.Expr
import Whittle.Syntax.Stmt

namespace Whittle
namespace Parse

/-!
# Reading statements

A statement announces itself by its first character or word, except that a
declaration and an expression may begin alike.  What can be read as a
declaration up to its semicolon is one; failing that, an expression is read from
the same start, and it is its failure that counts.
-/

def variableRest (fuel : Nat) (qualifier : Option Qualifier) (ty : Ty) (name : String) :
    Reader VarDecl := do
  let init ←
    if ← atToken "=" then
      token "="
      let e ← expression fuel
      pure (some e)
    else pure none
  token ";"
  return ⟨.unnumbered, qualifier, ty, name, init⟩

def declStmt (fuel : Nat) : Reader Stmt := do
  gap
  let qualifier ←
    if ← atKeyword "const" then
      keyword "const"
      pure (some Qualifier.const)
    else pure none
  let ty ← typeName
  let name ← identifier
  let var ← variableRest fuel qualifier ty name
  return .decl .unnumbered var

def exprStmt (fuel : Nat) : Reader Stmt := do
  let e ← expression fuel
  token ";"
  return .expr .unnumbered e

/-- Read a declaration or an expression with its semicolon. -/
def simpleStmt (fuel : Nat) : Reader Stmt :=
  Reader.either (declStmt fuel) (exprStmt fuel)

/-- Read an expression, unless a given piece of punctuation is already there. -/
def expressionUnless (closing : String) (fuel : Nat) : Reader (Option Expr) := do
  if ← atToken closing then return none
  else
    let e ← expression fuel
    return some e

def braced (inner : Reader Stmt) (fuel : Nat) : Reader (List Stmt) := do
  token "\x7b"
  let stmts ← Reader.manyUntil (atToken "\x7d") inner fuel
  token "\x7d"
  return stmts

/-- Read a conditional statement.  An `else` belongs to the nearest one. -/
def branchStmt (inner : Reader Stmt) (fuel : Nat) : Reader Stmt := do
  keyword "if"
  token "("
  let cond ← expression fuel
  token ")"
  let whenTrue ← inner
  gap
  if ← atKeyword "else" then
    keyword "else"
    let whenFalse ← inner
    return .branch .unnumbered cond whenTrue (some whenFalse)
  else return .branch .unnumbered cond whenTrue none

/-- Read the first part of the header of a counting loop with its semicolon. -/
def loopInit (fuel : Nat) : Reader (Option Stmt) := do
  if ← atToken ";" then
    token ";"
    return none
  else
    let s ← simpleStmt fuel
    return some s

/-- Read a counting loop. -/
def forStmt (inner : Reader Stmt) (fuel : Nat) : Reader Stmt := do
  keyword "for"
  token "("
  let init ← loopInit fuel
  let cond ← expressionUnless ";" fuel
  token ";"
  let step ← expressionUnless ")" fuel
  token ")"
  let body ← inner
  return .forLoop .unnumbered init cond step body

/-- Read a loop with a condition alone. -/
def whileStmt (inner : Reader Stmt) (fuel : Nat) : Reader Stmt := do
  keyword "while"
  token "("
  let cond ← expression fuel
  token ")"
  let body ← inner
  return .whileLoop .unnumbered cond body

def minusSign : Reader Bool := do
  gap
  match ← get with
  | '-' :: rest =>
      set rest
      return true
  | _ => return false

/-- Read the number of a label.  It may have a minus sign. -/
def labelNumber : Reader Int := do
  let negative ← minusSign
  gap
  match digits? (← get) with
  | some (digits, rest) =>
      set rest
      let value := Binary64.digitsValue digits
      if value ≤ largestInt then return if negative then -Int.ofNat value else value
      else Reader.fail .unexpected
  | none => Reader.fail .unexpected

/-- Read a label with its colon. -/
def caseLabel : Reader Label := do
  gap
  let label ←
    if ← atKeyword "default" then
      keyword "default"
      pure Label.otherwise
    else
      keyword "case"
      let number ← labelNumber
      pure (Label.value number)
  token ":"
  return label

/-- Whether the statements behind a label end here. -/
def atCaseEnd : Reader Bool := do
  gap
  match ← get with
  | [] => return true
  | '\x7d' :: _ => return true
  | _ => return (← atKeyword "case") || (← atKeyword "default")

/-- Read a label and the statements behind it. -/
def switchCase (inner : Reader Stmt) (fuel : Nat) : Reader Case := do
  let label ← caseLabel
  let body ← Reader.manyUntil atCaseEnd inner fuel
  return .mk .unnumbered label body

/-- Read a selection by number. -/
def switchStmt (inner : Reader Stmt) (fuel : Nat) : Reader Stmt := do
  keyword "switch"
  token "("
  let selector ← expression fuel
  token ")"
  token "\x7b"
  let cases ← Reader.manyUntil (atToken "\x7d") (switchCase inner fuel) fuel
  token "\x7d"
  return .switch .unnumbered selector cases

/-- Read a return with its value, if there is one. -/
def returnStmt (fuel : Nat) : Reader Stmt := do
  keyword "return"
  let value ← expressionUnless ";" fuel
  token ";"
  return .ret .unnumbered value

def wordStmt (name : String) (s : Stmt) : Reader Stmt := do
  keyword name
  token ";"
  return s

/-- Read a statement that its first word tells from the others, or one that no
word does. -/
def wordedStmt (inner : Reader Stmt) (fuel : Nat) : Reader Stmt := do
  if ← atKeyword "if" then branchStmt inner fuel
  else if ← atKeyword "for" then forStmt inner fuel
  else if ← atKeyword "while" then whileStmt inner fuel
  else if ← atKeyword "switch" then switchStmt inner fuel
  else if ← atKeyword "return" then returnStmt fuel
  else if ← atKeyword "break" then wordStmt "break" (.breakOut .unnumbered)
  else if ← atKeyword "continue" then wordStmt "continue" (.continueLoop .unnumbered)
  else if ← atKeyword "discard" then wordStmt "discard" (.discard .unnumbered)
  else simpleStmt fuel

/-- Read a statement, with `inner` for the statements in it. -/
def statementWith (inner : Reader Stmt) (fuel : Nat) : Reader Stmt := do
  gap
  match ← get with
  | '\x7b' :: _ =>
      let stmts ← braced inner fuel
      return .block .unnumbered .unnumbered stmts
  | ';' :: rest =>
      set rest
      return .empty .unnumbered
  | _ => wordedStmt inner fuel

/-- Read a statement with at most `fuel` levels of nesting. -/
def statement : Nat → Reader Stmt
  | 0 => Reader.fail .unexpected
  | fuel + 1 => statementWith (statement fuel) (fuel + 1)

end Parse
end Whittle
