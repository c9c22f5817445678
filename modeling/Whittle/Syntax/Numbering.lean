import Whittle.Syntax.Shader

namespace Whittle

/-!
# Numbering

Nodes are numbered in the order of the text, a node before what it contains.
Numbering from `start` gives the first node `start` and leaves the next free
number `size` further on, so the number that a part starts from is known before
its neighbours are numbered: nothing has to be passed along.
-/

mutual

def Expr.size : Expr → Nat
  | .int .. | .float .. | .bool .. | .var .. => 1
  | .unary _ _ operand => 1 + operand.size
  | .binary _ _ lhs rhs => 1 + lhs.size + rhs.size
  | .assign _ _ target value => 1 + target.size + value.size
  | .ternary _ cond whenTrue whenFalse => 1 + cond.size + whenTrue.size + whenFalse.size
  | .call _ _ args => 1 + Expr.sizeOfList args
  | .member _ base _ => 1 + base.size
  | .index _ base position => 1 + base.size + position.size
  | .paren _ inner => 1 + inner.size

def Expr.sizeOfList : List Expr → Nat
  | [] => 0
  | e :: rest => e.size + Expr.sizeOfList rest

end

mutual

/-- The expression with its nodes numbered from `start`. -/
def Expr.numbered (start : NodeId) : Expr → Expr
  | .int _ value => .int start value
  | .float _ value => .float start value
  | .bool _ value => .bool start value
  | .var _ name => .var start name
  | .unary _ op operand => .unary start op (operand.numbered (start + 1))
  | .binary _ op lhs rhs =>
      .binary start op (lhs.numbered (start + 1)) (rhs.numbered (start + 1 + lhs.size))
  | .assign _ op target value =>
      .assign start op (target.numbered (start + 1)) (value.numbered (start + 1 + target.size))
  | .ternary _ cond whenTrue whenFalse =>
      .ternary start (cond.numbered (start + 1)) (whenTrue.numbered (start + 1 + cond.size))
        (whenFalse.numbered (start + 1 + cond.size + whenTrue.size))
  | .call _ callee args => .call start callee (Expr.numberedList (start + 1) args)
  | .member _ base field => .member start (base.numbered (start + 1)) field
  | .index _ base position =>
      .index start (base.numbered (start + 1)) (position.numbered (start + 1 + base.size))
  | .paren _ inner => .paren start (inner.numbered (start + 1))

def Expr.numberedList (start : NodeId) : List Expr → List Expr
  | [] => []
  | e :: rest => e.numbered start :: Expr.numberedList (start + e.size) rest

end

/-- The outermost node has the first number. -/
theorem Expr.id_numbered (start : NodeId) (e : Expr) : (e.numbered start).id = start := by
  cases e <;> rfl

mutual

/-- Numbering changes no sizes. -/
theorem Expr.size_numbered (start : NodeId) (e : Expr) : (e.numbered start).size = e.size := by
  cases e with
  | call _ _ args => simp only [Expr.numbered, Expr.size, Expr.sizeOfList_numberedList]
  | _ => simp only [Expr.numbered, Expr.size, Expr.size_numbered]

/-- Numbering the expressions of a list does not change their sizes. -/
theorem Expr.sizeOfList_numberedList (start : NodeId) (es : List Expr) :
    Expr.sizeOfList (Expr.numberedList start es) = Expr.sizeOfList es := by
  match es with
  | [] => rfl
  | e :: rest =>
      simp only [Expr.numberedList, Expr.sizeOfList, Expr.size_numbered,
        Expr.sizeOfList_numberedList]

end

def Expr.sizeOfOption : Option Expr → Nat
  | none => 0
  | some e => e.size

/-- The number of nodes of a variable: its own and those of its initialiser. -/
def VarDecl.size (var : VarDecl) : Nat :=
  1 + Expr.sizeOfOption var.init

/-- The variable with its nodes numbered from `start`. -/
def VarDecl.numbered (start : NodeId) (var : VarDecl) : VarDecl :=
  { var with id := start, init := var.init.map (Expr.numbered (start + 1)) }

mutual

def Stmt.size : Stmt → Nat
  | .decl _ var => 1 + var.size
  | .expr _ e => 1 + e.size
  | .block _ _ stmts => 2 + Stmt.sizeOfList stmts
  | .branch _ cond whenTrue whenFalse =>
      1 + cond.size + whenTrue.size + Stmt.sizeOfOption whenFalse
  | .forLoop _ init cond step body =>
      1 + Stmt.sizeOfOption init + Expr.sizeOfOption cond + Expr.sizeOfOption step + body.size
  | .whileLoop _ cond body => 1 + cond.size + body.size
  | .switch _ selector cases => 1 + selector.size + Stmt.sizeOfCases cases
  | .ret _ value => 1 + Expr.sizeOfOption value
  | .breakOut _ | .continueLoop _ | .discard _ | .empty _ => 1

def Stmt.sizeOfList : List Stmt → Nat
  | [] => 0
  | s :: rest => s.size + Stmt.sizeOfList rest

def Stmt.sizeOfOption : Option Stmt → Nat
  | none => 0
  | some s => s.size

def Stmt.sizeOfCases : List Case → Nat
  | [] => 0
  | .mk _ _ body :: rest => 1 + Stmt.sizeOfList body + Stmt.sizeOfCases rest

end

mutual

/-- The statement with its nodes numbered from `start`. -/
def Stmt.numbered (start : NodeId) : Stmt → Stmt
  | .decl _ var => .decl start (var.numbered (start + 1))
  | .expr _ e => .expr start (e.numbered (start + 1))
  | .block _ _ stmts => .block start (start + 1) (Stmt.numberedList (start + 2) stmts)
  | .branch _ cond whenTrue whenFalse =>
      .branch start (cond.numbered (start + 1)) (whenTrue.numbered (start + 1 + cond.size))
        (Stmt.numberedOption (start + 1 + cond.size + whenTrue.size) whenFalse)
  | .forLoop _ init cond step body =>
      let behindInit := start + 1 + Stmt.sizeOfOption init
      let behindCond := behindInit + Expr.sizeOfOption cond
      .forLoop start (Stmt.numberedOption (start + 1) init)
        (cond.map (Expr.numbered behindInit)) (step.map (Expr.numbered behindCond))
        (body.numbered (behindCond + Expr.sizeOfOption step))
  | .whileLoop _ cond body =>
      .whileLoop start (cond.numbered (start + 1)) (body.numbered (start + 1 + cond.size))
  | .switch _ selector cases =>
      .switch start (selector.numbered (start + 1))
        (Stmt.numberedCases (start + 1 + selector.size) cases)
  | .ret _ value => .ret start (value.map (Expr.numbered (start + 1)))
  | .breakOut _ => .breakOut start
  | .continueLoop _ => .continueLoop start
  | .discard _ => .discard start
  | .empty _ => .empty start

def Stmt.numberedList (start : NodeId) : List Stmt → List Stmt
  | [] => []
  | s :: rest => s.numbered start :: Stmt.numberedList (start + s.size) rest

def Stmt.numberedOption (start : NodeId) : Option Stmt → Option Stmt
  | none => none
  | some s => some (s.numbered start)

def Stmt.numberedCases (start : NodeId) : List Case → List Case
  | [] => []
  | .mk _ label body :: rest =>
      .mk start label (Stmt.numberedList (start + 1) body) ::
        Stmt.numberedCases (start + 1 + Stmt.sizeOfList body) rest

end

/-- The outermost node of a statement has the first number. -/
theorem Stmt.id_numbered (start : NodeId) (s : Stmt) : (s.numbered start).id = start := by
  cases s <;> rfl

def Field.numberedList (start : NodeId) (fields : List Field) : List Field :=
  fields.mapIdx fun position field => { field with id := start + position }

def Param.numberedList (start : NodeId) (params : List Param) : List Param :=
  params.mapIdx fun position param => { param with id := start + position }

def Decl.size : Decl → Nat
  | .precision _ => 1
  | .struct decl => 1 + decl.fields.length
  | .global var => var.size
  | .function f => 2 + f.params.length + Stmt.sizeOfList f.body.stmts

/-- The declaration with its nodes numbered from `start`. -/
def Decl.numbered (start : NodeId) : Decl → Decl
  | .precision decl => .precision { decl with id := start }
  | .struct decl =>
      .struct { decl with id := start, fields := Field.numberedList (start + 1) decl.fields }
  | .global var => .global (var.numbered start)
  | .function f =>
      let behindParams := start + 1 + f.params.length
      .function { f with
        id := start
        params := Param.numberedList (start + 1) f.params
        body := ⟨behindParams, Stmt.numberedList (behindParams + 1) f.body.stmts⟩ }

def Decl.sizeOfList : List Decl → Nat
  | [] => 0
  | decl :: rest => decl.size + Decl.sizeOfList rest

def Decl.numberedList (start : NodeId) : List Decl → List Decl
  | [] => []
  | decl :: rest => decl.numbered start :: Decl.numberedList (start + decl.size) rest

namespace Shader

/-- The shader with the given version and declarations, numbered from zero. -/
def ofDecls (version : Version) (decls : List Decl) : Shader :=
  ⟨version, Decl.numberedList 0 decls, Decl.sizeOfList decls⟩

/-- The expression with new identifiers, and the shader that will not hand them
out again. -/
def refreshExpr (shader : Shader) (e : Expr) : Expr × Shader :=
  (e.numbered shader.nextId, { shader with nextId := shader.nextId + e.size })

/-- The statement with new identifiers, and the shader that will not hand them
out again. -/
def refreshStmt (shader : Shader) (s : Stmt) : Stmt × Shader :=
  (s.numbered shader.nextId, { shader with nextId := shader.nextId + s.size })

/-- The statements of a list with new identifiers, and the shader that will not
hand them out again. -/
def refreshStmts (shader : Shader) (stmts : List Stmt) : List Stmt × Shader :=
  (Stmt.numberedList shader.nextId stmts,
    { shader with nextId := shader.nextId + Stmt.sizeOfList stmts })

end Shader
end Whittle
