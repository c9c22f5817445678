import Whittle.Syntax.Shader

namespace Whittle

/-!
# Changing a node

A change names its target by identifier.  On a tree whose identifiers are all
different there is one target at most, and the order of the search does not
matter.  Trees with repeated identifiers are changed too, so the order is fixed
here: a change of an expression looks at the expressions that stand directly in
a statement before it looks into the statements within, and a change of a
statement looks at a statement before those within it.  There is no result if
there is no target.
-/

/-- The changed node if its identifier is the target, and otherwise what the
search inside the node yields. -/
@[macro_inline] def Expr.changedOr (e : Expr) (target : NodeId) (change : Expr → Expr)
    (inside : Option Expr) : Option Expr :=
  if e.id == target then some (change e) else inside

mutual

/-- The expression with the first sub-expression of the given identifier
changed. -/
def Expr.modify? (target : NodeId) (change : Expr → Expr) : Expr → Option Expr
  | .int id value => (Expr.int id value).changedOr target change none
  | .float id value => (Expr.float id value).changedOr target change none
  | .bool id value => (Expr.bool id value).changedOr target change none
  | .var id name => (Expr.var id name).changedOr target change none
  | .unary id op operand =>
      (Expr.unary id op operand).changedOr target change
        ((operand.modify? target change).map (.unary id op))
  | .binary id op lhs rhs =>
      (Expr.binary id op lhs rhs).changedOr target change
        ((lhs.modify? target change).map (.binary id op · rhs) <|>
          (rhs.modify? target change).map (.binary id op lhs))
  | .assign id op written value =>
      (Expr.assign id op written value).changedOr target change
        ((written.modify? target change).map (.assign id op · value) <|>
          (value.modify? target change).map (.assign id op written))
  | .ternary id cond whenTrue whenFalse =>
      (Expr.ternary id cond whenTrue whenFalse).changedOr target change
        ((cond.modify? target change).map (.ternary id · whenTrue whenFalse) <|>
          (whenTrue.modify? target change).map (.ternary id cond · whenFalse) <|>
          (whenFalse.modify? target change).map (.ternary id cond whenTrue))
  | .call id callee args =>
      (Expr.call id callee args).changedOr target change
        ((Expr.modifyList? target change args).map (.call id callee))
  | .member id base field =>
      (Expr.member id base field).changedOr target change
        ((base.modify? target change).map (.member id · field))
  | .index id base position =>
      (Expr.index id base position).changedOr target change
        ((base.modify? target change).map (.index id · position) <|>
          (position.modify? target change).map (.index id base))
  | .paren id inner =>
      (Expr.paren id inner).changedOr target change
        ((inner.modify? target change).map (.paren id))

def Expr.modifyList? (target : NodeId) (change : Expr → Expr) : List Expr → Option (List Expr)
  | [] => none
  | e :: rest =>
      (e.modify? target change).map (· :: rest) <|>
        (Expr.modifyList? target change rest).map (e :: ·)

end

/-- The expression that may be missing, with one of its sub-expressions
changed. -/
def Expr.modifyOption? (target : NodeId) (change : Expr → Expr) :
    Option Expr → Option (Option Expr)
  | none => none
  | some e => (e.modify? target change).map some

def VarDecl.modifyExpr? (target : NodeId) (change : Expr → Expr) (var : VarDecl) :
    Option VarDecl :=
  (Expr.modifyOption? target change var.init).map fun init => { var with init }

mutual

def Stmt.modifyExpr? (target : NodeId) (change : Expr → Expr) : Stmt → Option Stmt
  | .decl id var => (var.modifyExpr? target change).map (.decl id)
  | .expr id e => (e.modify? target change).map (.expr id)
  | .block id scope stmts => (Stmt.modifyExprList? target change stmts).map (.block id scope)
  | .branch id cond whenTrue whenFalse =>
      (cond.modify? target change).map (.branch id · whenTrue whenFalse) <|>
        (whenTrue.modifyExpr? target change).map (.branch id cond · whenFalse) <|>
        (Stmt.modifyExprOption? target change whenFalse).map (.branch id cond whenTrue)
  | .forLoop id init cond step body =>
      (Expr.modifyOption? target change cond).map (.forLoop id init · step body) <|>
        (Expr.modifyOption? target change step).map (.forLoop id init cond · body) <|>
        (Stmt.modifyExprOption? target change init).map (.forLoop id · cond step body) <|>
        (body.modifyExpr? target change).map (.forLoop id init cond step)
  | .whileLoop id cond body =>
      (cond.modify? target change).map (.whileLoop id · body) <|>
        (body.modifyExpr? target change).map (.whileLoop id cond)
  | .switch id selector cases =>
      (selector.modify? target change).map (.switch id · cases) <|>
        (Stmt.modifyExprCases? target change cases).map (.switch id selector)
  | .ret id value => (Expr.modifyOption? target change value).map (.ret id)
  | .breakOut _ | .continueLoop _ | .discard _ | .empty _ => none

def Stmt.modifyExprList? (target : NodeId) (change : Expr → Expr) :
    List Stmt → Option (List Stmt)
  | [] => none
  | s :: rest =>
      (s.modifyExpr? target change).map (· :: rest) <|>
        (Stmt.modifyExprList? target change rest).map (s :: ·)

def Stmt.modifyExprOption? (target : NodeId) (change : Expr → Expr) :
    Option Stmt → Option (Option Stmt)
  | none => none
  | some s => (s.modifyExpr? target change).map some

def Stmt.modifyExprCases? (target : NodeId) (change : Expr → Expr) :
    List Case → Option (List Case)
  | [] => none
  | .mk id label body :: rest =>
      (Stmt.modifyExprList? target change body).map (.mk id label · :: rest) <|>
        (Stmt.modifyExprCases? target change rest).map (.mk id label body :: ·)

end

/-- The changed statement if its identifier is the target, and otherwise what
the search inside the statement yields. -/
@[macro_inline] def Stmt.changedOr (s : Stmt) (target : NodeId) (change : Stmt → Stmt)
    (inside : Option Stmt) : Option Stmt :=
  if s.id == target then some (change s) else inside

mutual

def Stmt.modify? (target : NodeId) (change : Stmt → Stmt) : Stmt → Option Stmt
  | .block id scope stmts =>
      (Stmt.block id scope stmts).changedOr target change
        ((Stmt.modifyList? target change stmts).map (.block id scope))
  | .branch id cond whenTrue whenFalse =>
      (Stmt.branch id cond whenTrue whenFalse).changedOr target change
        ((whenTrue.modify? target change).map (.branch id cond · whenFalse) <|>
          (Stmt.modifyOption? target change whenFalse).map (.branch id cond whenTrue))
  | .forLoop id init cond step body =>
      (Stmt.forLoop id init cond step body).changedOr target change
        ((Stmt.modifyOption? target change init).map (.forLoop id · cond step body) <|>
          (body.modify? target change).map (.forLoop id init cond step))
  | .whileLoop id cond body =>
      (Stmt.whileLoop id cond body).changedOr target change
        ((body.modify? target change).map (.whileLoop id cond))
  | .switch id selector cases =>
      (Stmt.switch id selector cases).changedOr target change
        ((Stmt.modifyCases? target change cases).map (.switch id selector))
  | s => s.changedOr target change none

def Stmt.modifyList? (target : NodeId) (change : Stmt → Stmt) : List Stmt → Option (List Stmt)
  | [] => none
  | s :: rest =>
      (s.modify? target change).map (· :: rest) <|>
        (Stmt.modifyList? target change rest).map (s :: ·)

def Stmt.modifyOption? (target : NodeId) (change : Stmt → Stmt) :
    Option Stmt → Option (Option Stmt)
  | none => none
  | some s => (s.modify? target change).map some

def Stmt.modifyCases? (target : NodeId) (change : Stmt → Stmt) : List Case → Option (List Case)
  | [] => none
  | .mk id label body :: rest =>
      (Stmt.modifyList? target change body).map (.mk id label · :: rest) <|>
        (Stmt.modifyCases? target change rest).map (.mk id label body :: ·)

end

def Function.withStmts (function : Function) (stmts : List Stmt) : Function :=
  { function with body := ⟨function.body.id, stmts⟩ }

def Decl.modifyExpr? (target : NodeId) (change : Expr → Expr) : Decl → Option Decl
  | .global var => (var.modifyExpr? target change).map .global
  | .function f =>
      (Stmt.modifyExprList? target change f.body.stmts).map fun stmts =>
        .function (f.withStmts stmts)
  | .precision _ | .struct _ => none

/-- The declaration with the statements of its body changed, if it is a
function and the change is possible. -/
def Decl.modifyBody? (change? : List Stmt → Option (List Stmt)) : Decl → Option Decl
  | .function f => (change? f.body.stmts).map fun stmts => .function (f.withStmts stmts)
  | _ => none

def Decl.modifyFirst? (change? : Decl → Option Decl) : List Decl → Option (List Decl)
  | [] => none
  | decl :: rest =>
      (change? decl).map (· :: rest) <|> (Decl.modifyFirst? change? rest).map (decl :: ·)

end Whittle
