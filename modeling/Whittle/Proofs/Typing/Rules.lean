import Whittle.Check.Shader

namespace Whittle
namespace Check

/-!
# The rules of the language

These are the rules that a check enforces, stated without a log, without
problems and without identifiers.  An expression has a type in a context or has
none; a statement, a declaration or a shader is accepted or not.  What is
declared behind a statement does not depend on whether it is accepted.
-/

namespace Context

mutual

/-- The type of an expression, if it has one. -/
def typeOf (ctx : Context) : Expr → Option Ty
  | .int .. => some .int
  | .float .. => some .float
  | .bool .. => some .bool
  | .var _ name => (ctx.lookup? name).map Binding.ty
  | .paren _ inner => ctx.typeOf inner
  | .unary _ op operand =>
      if op.writesOperand && !ctx.mayWrite operand then none
      else (ctx.typeOf operand).bind fun ty => (unary op ty).toOption
  | .binary _ op lhs rhs =>
      (ctx.typeOf lhs).bind fun lhsTy => (ctx.typeOf rhs).bind fun rhsTy => binary? op lhsTy rhsTy
  | .assign _ op target value =>
      if !ctx.mayWrite target then none
      else (ctx.typeOf target).bind fun targetTy => (ctx.typeOf value).bind fun valueTy =>
        (assign op targetTy valueTy).toOption
  | .ternary _ cond whenTrue whenFalse =>
      if ctx.typeOf cond == some .bool && ctx.typeOf whenTrue == ctx.typeOf whenFalse then
        ctx.typeOf whenTrue
      else none
  | .call _ callee args => (ctx.typesOf args).bind fun tys => (ctx.call callee tys).toOption
  | .member _ base field => (ctx.typeOf base).bind fun ty => (ctx.member ty field).toOption
  | .index _ base position =>
      if ctx.typeOf position == some .int then
        match ctx.typeOf base with
        | some (.vector component _) => some (.scalar component)
        | _ => none
      else none

def typesOf (ctx : Context) : List Expr → Option (List Ty)
  | [] => some []
  | e :: rest => (ctx.typeOf e).bind fun ty => (ctx.typesOf rest).map (ty :: ·)

/-- Whether an expression is a location that may be written.  A selection of
components is one if it names none of them twice. -/
def mayWrite (ctx : Context) : Expr → Bool
  | .var _ name => (ctx.lookup? name).any Binding.writable
  | .paren _ inner => ctx.mayWrite inner
  | .index _ base _ => ctx.mayWrite base
  | .member _ base field =>
      !((ctx.typeOf base).any Ty.isVector && repeatsLetter field) && ctx.mayWrite base
  | _ => false

end

def entries (ctx : Context) (e : Expr) : List (NodeId × Ty) :=
  e.subexprs.filterMap fun part => (ctx.typeOf part).map fun ty => (part.id, ty)

variable {ctx : Context} {id : NodeId} {ty : Ty}

-- The equations of the rules, one for each form of expression.
attribute [grind =] typeOf typesOf

theorem toOption_eq_some_iff {result : Except Fault Ty} :
    result.toOption = some ty ↔ result = .ok ty := by
  cases result with
  | ok found => simp only [Except.toOption, Option.some.injEq, Except.ok.injEq]
  | error fault => simp only [Except.toOption, reduceCtorEq]

theorem typeOf_unary_eq_some_iff {op : UnaryOp} {operand : Expr} :
    ctx.typeOf (.unary id op operand) = some ty ↔
      (op.writesOperand = true → ctx.mayWrite operand = true) ∧
        ∃ operandTy, ctx.typeOf operand = some operandTy ∧ unary op operandTy = .ok ty := by
  rw [typeOf, Option.ite_none_left_eq_some, Option.bind_eq_some_iff]
  simp only [toOption_eq_some_iff, Bool.and_eq_true, Bool.not_eq_true', not_and, Bool.not_eq_false]

theorem typeOf_binary_eq_some_iff {op : BinaryOp} {lhs rhs : Expr} :
    ctx.typeOf (.binary id op lhs rhs) = some ty ↔
      ∃ lhsTy rhsTy, ctx.typeOf lhs = some lhsTy ∧ ctx.typeOf rhs = some rhsTy ∧
        binary? op lhsTy rhsTy = some ty := by
  simp only [typeOf, Option.bind_eq_some_iff]
  constructor
  · rintro ⟨lhsTy, isLhs, rhsTy, isRhs, isTy⟩
    exact ⟨lhsTy, rhsTy, isLhs, isRhs, isTy⟩
  · rintro ⟨lhsTy, rhsTy, isLhs, isRhs, isTy⟩
    exact ⟨lhsTy, isLhs, rhsTy, isRhs, isTy⟩

theorem typeOf_assign_eq_some_iff {op : AssignOp} {target value : Expr} :
    ctx.typeOf (.assign id op target value) = some ty ↔ ctx.mayWrite target = true ∧
      ∃ targetTy valueTy, ctx.typeOf target = some targetTy ∧ ctx.typeOf value = some valueTy ∧
        assign op targetTy valueTy = .ok ty := by
  simp only [typeOf, Option.ite_none_left_eq_some, Option.bind_eq_some_iff, toOption_eq_some_iff,
    Bool.not_eq_true', Bool.not_eq_false]
  constructor
  · rintro ⟨writable, targetTy, isTarget, valueTy, isValue, isTy⟩
    exact ⟨writable, targetTy, valueTy, isTarget, isValue, isTy⟩
  · rintro ⟨writable, targetTy, valueTy, isTarget, isValue, isTy⟩
    exact ⟨writable, targetTy, isTarget, valueTy, isValue, isTy⟩

theorem typeOf_ternary_eq_some_iff {cond whenTrue whenFalse : Expr} :
    ctx.typeOf (.ternary id cond whenTrue whenFalse) = some ty ↔
      ctx.typeOf cond = some .bool ∧ ctx.typeOf whenTrue = some ty ∧
        ctx.typeOf whenFalse = some ty := by
  rw [typeOf, Option.ite_none_right_eq_some, Bool.and_eq_true, beq_iff_eq, beq_iff_eq, and_assoc]
  constructor
  · rintro ⟨isCond, same, isTy⟩
    exact ⟨isCond, isTy, same.symm.trans isTy⟩
  · rintro ⟨isCond, isTrue, isFalse⟩
    exact ⟨isCond, isTrue.trans isFalse.symm, isTrue⟩

theorem typeOf_call_eq_some_iff {callee : String} {args : List Expr} :
    ctx.typeOf (.call id callee args) = some ty ↔
      ∃ tys, ctx.typesOf args = some tys ∧ ctx.call callee tys = .ok ty := by
  simp only [typeOf, Option.bind_eq_some_iff, toOption_eq_some_iff]

theorem typeOf_member_eq_some_iff {base : Expr} {field : String} :
    ctx.typeOf (.member id base field) = some ty ↔
      ∃ baseTy, ctx.typeOf base = some baseTy ∧ ctx.member baseTy field = .ok ty := by
  simp only [typeOf, Option.bind_eq_some_iff, toOption_eq_some_iff]

theorem typeOf_index_eq_some_iff {base position : Expr} :
    ctx.typeOf (.index id base position) = some ty ↔ ctx.typeOf position = some .int ∧
      ∃ component width, ctx.typeOf base = some (.vector component width) ∧
        ty = .scalar component := by
  rw [typeOf, Option.ite_none_right_eq_some, beq_iff_eq]
  refine and_congr_right fun _ => ?_
  constructor
  · intro isTy
    split at isTy
    · rename_i component width isBase
      exact ⟨component, width, isBase, (Option.some.inj isTy).symm⟩
    · cases isTy
  · rintro ⟨component, width, isBase, rfl⟩
    rw [isBase]

theorem typesOf_cons_eq_some_iff {e : Expr} {rest : List Expr} {tys : List Ty} :
    ctx.typesOf (e :: rest) = some tys ↔
      ∃ ty others, ctx.typeOf e = some ty ∧ ctx.typesOf rest = some others ∧
        tys = ty :: others := by
  simp only [typesOf, Option.bind_eq_some_iff, Option.map_eq_some_iff]
  constructor
  · rintro ⟨ty, isTy, others, areOthers, rfl⟩
    exact ⟨ty, others, isTy, areOthers, rfl⟩
  · rintro ⟨ty, others, isTy, areOthers, rfl⟩
    exact ⟨ty, isTy, others, areOthers, rfl⟩

/-- Whether something may have the type: it must be known, and `void` only where
`voidAllowed` says so. -/
def Knows (ctx : Context) (ty : Ty) (voidAllowed : Bool) : Prop :=
  match ty with
  | .void => voidAllowed = true
  | .struct name => (ctx.struct? name).isSome
  | _ => True

/-- The context behind a declaration of a name, which a reserved name leaves as
it is. -/
def declared (ctx : Context) (name : String) (binding : Binding) : Context :=
  if isReservedName name then ctx else ctx.bound name binding

/-- Whether a name may be declared in the innermost scope. -/
def CanDeclare (ctx : Context) (name : String) : Prop :=
  isReservedName name = false ∧ ctx.inner.lookup name = none

def behindVar (ctx : Context) (var : VarDecl) : Context :=
  ctx.declared var.name ⟨var.ty, isWritable var.qualifier⟩

structure AcceptsVar (ctx : Context) (var : VarDecl) : Prop where
  known : ctx.Knows var.ty false
  isSet : var.qualifier = some .const → var.init.isSome
  initialised : ∀ init ∈ var.init, ctx.typeOf init = some var.ty
  free : ctx.CanDeclare var.name

/-! ## Statements -/

def behind (ctx : Context) : Stmt → Context
  | .decl _ var => ctx.behindVar var
  | _ => ctx

def behindList (ctx : Context) : List Stmt → Context
  | [] => ctx
  | s :: rest => (ctx.behind s).behindList rest

/-- The context behind the cases of a switch, which share a scope. -/
def behindCases (ctx : Context) : List Case → Context
  | [] => ctx
  | .mk _ _ body :: rest => (ctx.behindList body).behindCases rest

/-- The context in the header of a loop, behind its initialiser.  What cannot
initialise a loop declares nothing. -/
def header (ctx : Context) : Option Stmt → Context
  | none => ctx.opened
  | some s => if s.isLoopInit then ctx.opened.behind s else ctx.opened

/-- Whether a `return` fits the function around it. -/
def AcceptsReturn (ctx : Context) (value : Option Expr) : Prop :=
  match ctx.returnTy, value with
  | none, _ => False
  | some expected, none => expected = .void
  | some expected, some e => expected ≠ .void ∧ ctx.typeOf e = some expected

mutual

/-- Whether a statement is accepted. -/
def Accepts (ctx : Context) : Stmt → Prop
  | .decl _ var => isLocalQualifier var.qualifier = true ∧ ctx.AcceptsVar var
  | .expr _ e => (ctx.typeOf e).isSome
  | .block _ _ stmts => ctx.opened.AcceptsList stmts
  | .branch _ cond whenTrue whenFalse =>
      ctx.typeOf cond = some .bool ∧ ctx.opened.Accepts whenTrue ∧
        ctx.opened.AcceptsOption whenFalse
  | .forLoop _ init cond step body =>
      (∀ s ∈ init, s.isLoopInit) ∧ ctx.opened.AcceptsOption init ∧
        (∀ e ∈ cond, (ctx.header init).typeOf e = some .bool) ∧
        (∀ e ∈ step, ((ctx.header init).typeOf e).isSome) ∧
        match body with
        | .block _ _ stmts => (ctx.header init).inLoop.AcceptsList stmts
        | s => (ctx.header init).inLoop.opened.Accepts s
  | .whileLoop _ cond body => ctx.typeOf cond = some .bool ∧ ctx.inLoop.opened.Accepts body
  | .switch _ selector cases =>
      ctx.version.hasSwitch ∧ ctx.typeOf selector = some .int ∧ cases ≠ [] ∧
        ctx.inSwitch.opened.AcceptsCases [] cases
  | .ret _ value => ctx.AcceptsReturn value
  | .breakOut _ => ctx.loops ≠ 0 ∨ ctx.switches ≠ 0
  | .continueLoop _ => ctx.loops ≠ 0
  | .discard _ => True
  | .empty _ => True

def AcceptsList (ctx : Context) : List Stmt → Prop
  | [] => True
  | s :: rest => ctx.Accepts s ∧ (ctx.behind s).AcceptsList rest

def AcceptsOption (ctx : Context) : Option Stmt → Prop
  | none => True
  | some s => ctx.Accepts s

/-- Whether the cases of a switch are accepted behind those with the labels
`before`. -/
def AcceptsCases (ctx : Context) (before : List Label) : List Case → Prop
  | [] => True
  | .mk _ label body :: rest =>
      label ∉ before ∧ ctx.AcceptsList body ∧
        (ctx.behindList body).AcceptsCases (label :: before) rest

end

/-- An expression that stands in no other one, with the context in which it
stands. -/
structure Placed where
  ctx : Context
  e : Expr

/-- The types of the expression and its parts, by identifier. -/
def Placed.entries (one : Placed) : List (NodeId × Ty) :=
  one.ctx.entries one.e

def placedOption (ctx : Context) (e? : Option Expr) : List Placed :=
  e?.toList.map (Placed.mk ctx)

mutual

/-- The expressions that stand in a statement and in no other expression, each
with its context. -/
def placed (ctx : Context) : Stmt → List Placed
  | .decl _ var => ctx.placedOption var.init
  | .expr _ e => [⟨ctx, e⟩]
  | .block _ _ stmts => ctx.opened.placedList stmts
  | .branch _ cond whenTrue whenFalse =>
      ⟨ctx, cond⟩ :: (ctx.opened.placed whenTrue ++ ctx.opened.placedOfOption whenFalse)
  | .forLoop _ init cond step body =>
      ctx.opened.placedOfOption init ++ ((ctx.header init).placedOption cond ++
        ((ctx.header init).placedOption step ++
          match body with
          | .block _ _ stmts => (ctx.header init).inLoop.placedList stmts
          | s => (ctx.header init).inLoop.opened.placed s))
  | .whileLoop _ cond body => ⟨ctx, cond⟩ :: ctx.inLoop.opened.placed body
  | .switch _ selector cases => ⟨ctx, selector⟩ :: ctx.inSwitch.opened.placedCases cases
  | .ret _ value => ctx.placedOption value
  | .breakOut _ => []
  | .continueLoop _ => []
  | .discard _ => []
  | .empty _ => []

def placedList (ctx : Context) : List Stmt → List Placed
  | [] => []
  | s :: rest => ctx.placed s ++ (ctx.behind s).placedList rest

def placedOfOption (ctx : Context) : Option Stmt → List Placed
  | none => []
  | some s => ctx.placed s

/-- The outermost expressions of cases, which share a scope. -/
def placedCases (ctx : Context) : List Case → List Placed
  | [] => []
  | .mk _ _ body :: rest => ctx.placedList body ++ (ctx.behindList body).placedCases rest

end

/-- The outermost expressions of the body of a loop, which has one scope with the
header if it is a block. -/
def placedBody (ctx : Context) : Stmt → List Placed
  | .block _ _ stmts => ctx.placedList stmts
  | s => ctx.opened.placed s

theorem placed_forLoop (ctx : Context) (id : NodeId) (init : Option Stmt)
    (cond step : Option Expr) (body : Stmt) :
    ctx.placed (.forLoop id init cond step body) =
      ctx.opened.placedOfOption init ++ ((ctx.header init).placedOption cond ++
        ((ctx.header init).placedOption step ++ (ctx.header init).inLoop.placedBody body)) := by
  cases body <;> rfl

/-- Whether fields are well declared behind those with the names `before`. -/
def AcceptsFields (ctx : Context) (before : List String) : List Field → Prop
  | [] => True
  | field :: rest =>
      ctx.Knows field.ty false ∧ field.name ∉ before ∧
        ctx.AcceptsFields (field.name :: before) rest

def behindParams (ctx : Context) : List Param → Context
  | [] => ctx
  | param :: rest => (ctx.declared param.name ⟨param.ty, true⟩).behindParams rest

/-- Whether parameters are well declared. -/
def AcceptsParams (ctx : Context) : List Param → Prop
  | [] => True
  | param :: rest =>
      ctx.Knows param.ty false ∧ ctx.CanDeclare param.name ∧
        (ctx.declared param.name ⟨param.ty, true⟩).AcceptsParams rest

/-- The context with a name taken at the top level. -/
def taking (ctx : Context) (name : String) : Context :=
  { ctx with taken := name :: ctx.taken }

def inFunction (ctx : Context) (f : Function) : Context :=
  { ctx.opened.behindParams f.params with returnTy := some f.returnTy }

/-- Whether the qualifier of a global variable fits the version and the
initialiser. -/
def AcceptsQualifier (version : Version) (var : VarDecl) : Prop :=
  (var.qualifier = some .input ∨ var.qualifier = some .output → version.hasInOutGlobals) ∧
    (var.qualifier = some .uniform ∨ var.qualifier = some .input → var.init = none)

/-- Whether a function is accepted. -/
structure AcceptsFunction (ctx : Context) (f : Function) : Prop where
  notTaken : f.name ∉ ctx.taken
  notReserved : isReservedName f.name = false
  known : ctx.Knows f.returnTy true
  params : ctx.opened.AcceptsParams f.params
  notEmpty : f.body.stmts ≠ []
  body : (ctx.inFunction f).AcceptsList f.body.stmts
  returns : f.returnTy ≠ .void → f.body.holdsReturn = true

/-- Whether a declaration is accepted. -/
def AcceptsDecl (ctx : Context) : Decl → Prop
  | .precision decl => decl.ty = .float ∨ decl.ty = .int
  | .struct decl => decl.name ∉ ctx.taken ∧ decl.fields ≠ [] ∧ ctx.AcceptsFields [] decl.fields
  | .global var =>
      var.name ∉ ctx.taken ∧ AcceptsQualifier ctx.version var ∧
        (ctx.taking var.name).AcceptsVar var
  | .function f => ctx.AcceptsFunction f

/-- The context behind a declaration.  One whose name is taken declares
nothing. -/
def behindDecl (ctx : Context) : Decl → Context
  | .precision _ => ctx
  | .struct decl =>
      if ctx.taken.contains decl.name then ctx
      else { ctx.taking decl.name with structs := decl :: ctx.structs }
  | .global var =>
      if ctx.taken.contains var.name then ctx else (ctx.taking var.name).behindVar var
  | .function f =>
      if ctx.taken.contains f.name then ctx
      else { ctx.taking f.name with functions := f :: ctx.functions }

def behindDecls (ctx : Context) : List Decl → Context
  | [] => ctx
  | decl :: rest => (ctx.behindDecl decl).behindDecls rest

/-- Whether declarations are accepted, each behind the one before. -/
def AcceptsDecls (ctx : Context) : List Decl → Prop
  | [] => True
  | decl :: rest => ctx.AcceptsDecl decl ∧ (ctx.behindDecl decl).AcceptsDecls rest

/-- The expressions that stand in a declaration and in no other expression. -/
def placedDecl (ctx : Context) : Decl → List Placed
  | .precision _ => []
  | .struct _ => []
  | .global var => (ctx.taking var.name).placedOption var.init
  | .function f => (ctx.inFunction f).placedList f.body.stmts

/-- The outermost expressions of declarations. -/
def placedDecls (ctx : Context) : List Decl → List Placed
  | [] => []
  | decl :: rest => ctx.placedDecl decl ++ (ctx.behindDecl decl).placedDecls rest

end Context

/-- Whether a shader has a `main` function of the right form. -/
def HasMain (shader : Shader) : Prop :=
  match shader.functions.filter fun f => f.name == "main" with
  | [] => False
  | [main] => main.returnTy = .void ∧ main.params = []
  | _ => True

end Check

/-- Whether a shader follows the rules of a version. -/
structure Shader.FollowsRules (shader : Shader) (version : Version) : Prop where
  decls : (Check.Context.initial version).AcceptsDecls shader.decls
  main : Check.HasMain shader

/-- The types of all expressions of a shader by identifier, in the order of the
text. -/
def Shader.entries (shader : Shader) (version : Version) : List (NodeId × Ty) :=
  ((Check.Context.initial version).placedDecls shader.decls).flatMap Check.Context.Placed.entries

end Whittle
