import Whittle.Syntax.Shader

namespace Whittle

/-!
# Lists of statements

Where a list holds a statement, any number of statements can take its place.  A
list is searched as a whole before any of its members is entered, so the target
is a direct member of the outermost list that has one.
-/

def Stmt.spliceMember? (target : NodeId) (replacement : List Stmt) :
    List Stmt → Option (List Stmt)
  | [] => none
  | s :: rest =>
      if s.id == target then some (replacement ++ rest)
      else (Stmt.spliceMember? target replacement rest).map (s :: ·)

mutual

/-- The statement with a member of the first possible list in it replaced. -/
def Stmt.splice? (target : NodeId) (replacement : List Stmt) : Stmt → Option Stmt
  | .block id scope stmts =>
      (Stmt.spliceMember? target replacement stmts <|>
        Stmt.spliceWithin? target replacement stmts).map (.block id scope)
  | .branch id cond whenTrue whenFalse =>
      (whenTrue.splice? target replacement).map (.branch id cond · whenFalse) <|>
        (Stmt.spliceOption? target replacement whenFalse).map (.branch id cond whenTrue)
  | .forLoop id init cond step body =>
      (body.splice? target replacement).map (.forLoop id init cond step)
  | .whileLoop id cond body => (body.splice? target replacement).map (.whileLoop id cond)
  | .switch id selector cases =>
      (Stmt.spliceCases? target replacement cases).map (.switch id selector)
  | _ => none

/-- The list with a member of the first possible list within its members
replaced. -/
def Stmt.spliceWithin? (target : NodeId) (replacement : List Stmt) :
    List Stmt → Option (List Stmt)
  | [] => none
  | s :: rest =>
      (s.splice? target replacement).map (· :: rest) <|>
        (Stmt.spliceWithin? target replacement rest).map (s :: ·)

/-- The statement that may be missing, with a member of a list in it
replaced. -/
def Stmt.spliceOption? (target : NodeId) (replacement : List Stmt) :
    Option Stmt → Option (Option Stmt)
  | none => none
  | some s => (s.splice? target replacement).map some

def Stmt.spliceCases? (target : NodeId) (replacement : List Stmt) :
    List Case → Option (List Case)
  | [] => none
  | .mk id label body :: rest =>
      (Stmt.spliceMember? target replacement body <|>
        Stmt.spliceWithin? target replacement body).map (.mk id label · :: rest) <|>
        (Stmt.spliceCases? target replacement rest).map (.mk id label body :: ·)

end

def Stmt.spliceList? (target : NodeId) (replacement : List Stmt) (stmts : List Stmt) :
    Option (List Stmt) :=
  Stmt.spliceMember? target replacement stmts <|> Stmt.spliceWithin? target replacement stmts

mutual

/-- The lists within a statement, in the order in which they are searched. -/
def Stmt.lists : Stmt → List (List Stmt)
  | .block _ _ stmts => stmts :: Stmt.listsWithin stmts
  | .branch _ _ whenTrue whenFalse => whenTrue.lists ++ Stmt.listsOfOption whenFalse
  | .forLoop _ _ _ _ body => body.lists
  | .whileLoop _ _ body => body.lists
  | .switch _ _ cases => Stmt.listsOfCases cases
  | _ => []

def Stmt.listsWithin : List Stmt → List (List Stmt)
  | [] => []
  | s :: rest => s.lists ++ Stmt.listsWithin rest

def Stmt.listsOfOption : Option Stmt → List (List Stmt)
  | none => []
  | some s => s.lists

def Stmt.listsOfCases : List Case → List (List Stmt)
  | [] => []
  | .mk _ _ body :: rest => (body :: Stmt.listsWithin body) ++ Stmt.listsOfCases rest

end

end Whittle
