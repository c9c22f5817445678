import Whittle.Syntax.Modify
import Whittle.Syntax.Splice

namespace Whittle

/-!
# Nodes of a shader by identifier

Nodes of a shader are found, replaced and removed by identifier.  An edit that
has no target leaves the declarations as they are and says so.
-/

namespace Shader

/-- The first expression with the given identifier, in the order of the text. -/
def findExpr? (shader : Shader) (target : NodeId) : Option Expr :=
  shader.exprs.find? fun e => e.id == target

/-- The first statement with the given identifier, in the order of the text. -/
def findStmt? (shader : Shader) (target : NodeId) : Option Stmt :=
  shader.stmts.find? fun s => s.id == target

/-- The list that directly holds the statement with the given identifier, and
the position of the statement in it. -/
def findList? (shader : Shader) (target : NodeId) : Option (List Stmt × Nat) :=
  shader.functions.findSome? fun function =>
    (function.body.stmts :: Stmt.listsWithin function.body.stmts).findSome? fun stmts =>
      (stmts.findIdx? fun s => s.id == target).map fun position => (stmts, position)

/-- The function whose body is or contains the block, statement or expression
with the given identifier. -/
def enclosingFunction? (shader : Shader) (target : NodeId) : Option Function :=
  shader.functions.find? fun function =>
    function.body.id == target ||
      (function.exprs.any fun e => e.id == target) ||
      (function.stmts.any fun s => s.id == target)

def modifyDecl? (shader : Shader) (change? : Decl → Option Decl) : Option Shader :=
  (Decl.modifyFirst? change? shader.decls).map fun decls => { shader with decls }

def modifyExpr? (shader : Shader) (target : NodeId) (change : Expr → Expr) : Option Shader :=
  shader.modifyDecl? (Decl.modifyExpr? target change)

def modifyStmt? (shader : Shader) (target : NodeId) (change : Stmt → Stmt) : Option Shader :=
  shader.modifyDecl? (Decl.modifyBody? (Stmt.modifyList? target change))

/-- The shader with a member of a list of statements replaced by others. -/
def splice? (shader : Shader) (target : NodeId) (replacement : List Stmt) : Option Shader :=
  shader.modifyDecl? (Decl.modifyBody? (Stmt.spliceList? target replacement))

/-- The outcome of an edit that leaves the shader alone when it has no target:
the shader afterwards, and whether the edit took place. -/
def orUnchanged (shader : Shader) (edited : Option Shader) : Shader × Bool :=
  (edited.getD shader, edited.isSome)

/-- Put another expression in the place of the one with the given identifier. -/
def replaceExpr (shader : Shader) (target : NodeId) (replacement : Expr) : Shader × Bool :=
  shader.orUnchanged (shader.modifyExpr? target fun _ => replacement)

/-- Put another statement in the place of the one with the given identifier. -/
def replaceStmt (shader : Shader) (target : NodeId) (replacement : Stmt) : Shader × Bool :=
  shader.orUnchanged (shader.modifyStmt? target fun _ => replacement)

/-- Remove a statement.  One that no list holds, such as the body of a loop,
leaves an empty statement behind. -/
def removeStmt (shader : Shader) (target : NodeId) : Shader × Bool :=
  shader.orUnchanged
    (shader.splice? target [] <|> shader.modifyStmt? target fun s => .empty s.id)

/-- Put any number of statements in the place of one.  If no list holds it, it
becomes a block of them; the identifier of that block is drawn before the
statement is looked for, so it is drawn even in vain. -/
def replaceStmtWith (shader : Shader) (target : NodeId) (replacement : List Stmt) :
    Shader × Bool :=
  match shader.splice? target replacement with
  | some edited => (edited, true)
  | none =>
      let (scope, drawn) := shader.freshId
      drawn.orUnchanged (drawn.modifyStmt? target fun s => .block s.id scope replacement)

/-- Remove the declaration with the given identifier, and return it. -/
def removeDecl (shader : Shader) (target : NodeId) : Shader × Option Decl :=
  ({ shader with decls := shader.decls.eraseP fun decl => decl.id == target },
    shader.decls.find? fun decl => decl.id == target)

/-- Change several expressions one after the other.  An expression that is no
longer there is passed over. -/
def modifyExprs (shader : Shader) (targets : List NodeId) (change : Expr → Expr) : Shader :=
  targets.foldl (fun shader target => (shader.modifyExpr? target change).getD shader) shader

/-- Put one of its sub-expressions in the place of an expression. -/
def promoteExpr (shader : Shader) (target sub : NodeId) : Shader :=
  match (shader.findExpr? target).bind fun e => e.find? sub with
  | some kept => (shader.replaceExpr target kept).1
  | none => shader

/-- Put another declaration in the place of the struct with the given name. -/
def replaceStruct (shader : Shader) (name : String) (replacement : StructDecl) : Shader :=
  let replaced? : Decl → Option Decl
    | .struct decl => if decl.name == name then some (.struct replacement) else none
    | _ => none
  (shader.modifyDecl? replaced?).getD shader

/-- Put another declaration in the place of the function with the given name. -/
def replaceFunction (shader : Shader) (name : String) (replacement : Function) : Shader :=
  let replaced? : Decl → Option Decl
    | .function f => if f.name == name then some (.function replacement) else none
    | _ => none
  (shader.modifyDecl? replaced?).getD shader

/-- The local variable with the given identifier, and the declaration statement
that an edit of it goes to: the last one that declares it, found again by its
own identifier. -/
def localVar? (shader : Shader) (target : NodeId) : Option (NodeId × VarDecl) :=
  let declaring := shader.stmts.filter fun s =>
    match s.declared? with
    | some var => var.id == target
    | none => false
  declaring.getLast?.bind fun last =>
    (shader.findStmt? last.id).bind fun s => s.declared?.map fun var => (last.id, var)

/-- Give a local variable another name, and return its old one. -/
def renameVar (shader : Shader) (target : NodeId) (name : String) : Shader × Option String :=
  match shader.localVar? target with
  | none => (shader, none)
  | some (stmtId, var) =>
      let (renamed, _) := shader.replaceStmt stmtId (.decl stmtId { var with name })
      (renamed, some var.name)

end Shader
end Whittle
