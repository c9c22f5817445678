import Whittle.Syntax.Expr
import Whittle.Syntax.Ty

namespace Whittle

/-!
# Statements

Statements nest: a branch or a loop body is one statement, while blocks and the
cases of a `switch` hold lists.  A declaration statement and the variable it
declares have identifiers of their own, and so have a block statement and its
block.
-/

inductive Qualifier where
  | const
  | uniform
  | input
  | output
deriving DecidableEq

def Qualifier.keyword : Qualifier → String
  | .const => "const"
  | .uniform => "uniform"
  | .input => "in"
  | .output => "out"

/-- A declaration of a single variable, global or local. -/
structure VarDecl where
  id : NodeId
  qualifier : Option Qualifier
  ty : Ty
  name : String
  init : Option Expr

inductive Label where
  | value (number : Int)
  | otherwise
deriving DecidableEq

mutual

inductive Stmt where
  | decl (id : NodeId) (var : VarDecl)
  | expr (id : NodeId) (e : Expr)
  | block (id : NodeId) (scope : NodeId) (stmts : List Stmt)
  | branch (id : NodeId) (cond : Expr) (whenTrue : Stmt) (whenFalse : Option Stmt)
  | forLoop (id : NodeId) (init : Option Stmt) (cond step : Option Expr) (body : Stmt)
  | whileLoop (id : NodeId) (cond : Expr) (body : Stmt)
  | switch (id : NodeId) (selector : Expr) (cases : List Case)
  | ret (id : NodeId) (value : Option Expr)
  | breakOut (id : NodeId)
  | continueLoop (id : NodeId)
  | discard (id : NodeId)
  | empty (id : NodeId)

/-- One label of a `switch` and the statements up to the next label. -/
inductive Case where
  | mk (id : NodeId) (label : Label) (body : List Stmt)

end

namespace Case

def id : Case → NodeId
  | .mk id _ _ => id

def label : Case → Label
  | .mk _ label _ => label

/-- The statements behind the label. -/
def body : Case → List Stmt
  | .mk _ _ body => body

end Case

namespace Stmt

def id : Stmt → NodeId
  | .decl id _ | .expr id _ | .block id _ _ | .branch id _ _ _ | .forLoop id _ _ _ _
  | .whileLoop id _ _ | .switch id _ _ | .ret id _ | .breakOut id | .continueLoop id
  | .discard id | .empty id => id

/-- The same statement under another identifier. -/
def withId (id : NodeId) : Stmt → Stmt
  | .decl _ var => .decl id var
  | .expr _ e => .expr id e
  | .block _ scope stmts => .block id scope stmts
  | .branch _ cond whenTrue whenFalse => .branch id cond whenTrue whenFalse
  | .forLoop _ init cond step body => .forLoop id init cond step body
  | .whileLoop _ cond body => .whileLoop id cond body
  | .switch _ selector cases => .switch id selector cases
  | .ret _ value => .ret id value
  | .breakOut _ => .breakOut id
  | .continueLoop _ => .continueLoop id
  | .discard _ => .discard id
  | .empty _ => .empty id

/-- A statement has the identifier that it was given last. -/
theorem id_withId (s : Stmt) (id : NodeId) : (s.withId id).id = id := by
  cases s <;> rfl

def declared? : Stmt → Option VarDecl
  | .decl _ var => some var
  | _ => none

/-- Whether the statement is a `return`, with or without a value. -/
def isReturn : Stmt → Bool
  | .ret .. => true
  | _ => false

/-- Whether the statement is a `break`. -/
def isBreak : Stmt → Bool
  | .breakOut _ => true
  | _ => false

/-- Whether the statement is a lone semicolon. -/
def isEmpty : Stmt → Bool
  | .empty _ => true
  | _ => false

/-- Whether the statement may initialise a `for` loop. -/
def isLoopInit : Stmt → Bool
  | .decl .. | .expr .. => true
  | _ => false

mutual

/-- All statements within a statement with the statement itself in front, each
before the statements in it. -/
def substmts : Stmt → List Stmt
  | .block id scope stmts => .block id scope stmts :: substmtsOfList stmts
  | .branch id cond whenTrue whenFalse =>
      .branch id cond whenTrue whenFalse :: (whenTrue.substmts ++ substmtsOfOption whenFalse)
  | .forLoop id init cond step body =>
      .forLoop id init cond step body :: (substmtsOfOption init ++ body.substmts)
  | .whileLoop id cond body => .whileLoop id cond body :: body.substmts
  | .switch id selector cases => .switch id selector cases :: substmtsOfCases cases
  | s => [s]

def substmtsOfList : List Stmt → List Stmt
  | [] => []
  | s :: rest => s.substmts ++ substmtsOfList rest

def substmtsOfOption : Option Stmt → List Stmt
  | none => []
  | some s => s.substmts

def substmtsOfCases : List Case → List Stmt
  | [] => []
  | .mk _ _ body :: rest => substmtsOfList body ++ substmtsOfCases rest

end

mutual

/-- The expressions that stand in a statement and in no other expression, in
the order of the text. -/
def roots : Stmt → List Expr
  | .decl _ var => var.init.toList
  | .expr _ e => [e]
  | .block _ _ stmts => rootsOfList stmts
  | .branch _ cond whenTrue whenFalse => cond :: (whenTrue.roots ++ rootsOfOption whenFalse)
  | .forLoop _ init cond step body =>
      rootsOfOption init ++ cond.toList ++ step.toList ++ body.roots
  | .whileLoop _ cond body => cond :: body.roots
  | .switch _ selector cases => selector :: rootsOfCases cases
  | .ret _ value => value.toList
  | .breakOut _ | .continueLoop _ | .discard _ | .empty _ => []

def rootsOfList : List Stmt → List Expr
  | [] => []
  | s :: rest => s.roots ++ rootsOfList rest

def rootsOfOption : Option Stmt → List Expr
  | none => []
  | some s => s.roots

def rootsOfCases : List Case → List Expr
  | [] => []
  | .mk _ _ body :: rest => rootsOfList body ++ rootsOfCases rest

end

theorem self_mem_substmts (s : Stmt) : s ∈ s.substmts := by
  cases s <;> exact List.mem_cons_self

/-- The statements within a list are those within its members. -/
theorem substmtsOfList_eq_flatMap (stmts : List Stmt) :
    substmtsOfList stmts = stmts.flatMap substmts := by
  induction stmts with
  | nil => rfl
  | cons s rest ih => simp [substmtsOfList, ih]

/-- The outermost expressions of a list are those of its members. -/
theorem rootsOfList_eq_flatMap (stmts : List Stmt) :
    rootsOfList stmts = stmts.flatMap roots := by
  induction stmts with
  | nil => rfl
  | cons s rest ih => simp [rootsOfList, ih]

/-- The statements within cases are those within their bodies. -/
theorem substmtsOfCases_eq_flatMap (cases : List Case) :
    substmtsOfCases cases = cases.flatMap fun one => one.body.flatMap substmts := by
  induction cases with
  | nil => rfl
  | cons one rest ih => cases one; simp [substmtsOfCases, substmtsOfList_eq_flatMap, Case.body, ih]

/-- The outermost expressions of cases are those of their bodies. -/
theorem rootsOfCases_eq_flatMap (cases : List Case) :
    rootsOfCases cases = cases.flatMap fun one => one.body.flatMap roots := by
  induction cases with
  | nil => rfl
  | cons one rest ih => cases one; simp [rootsOfCases, rootsOfList_eq_flatMap, Case.body, ih]

/-- Every expression of a statement in the order of the text, each before its
operands. -/
def exprs (s : Stmt) : List Expr :=
  s.roots.flatMap Expr.subexprs

/-- Whether a `return` stands anywhere in the statement. -/
def holdsReturn (s : Stmt) : Bool :=
  s.substmts.any isReturn

end Stmt
end Whittle
