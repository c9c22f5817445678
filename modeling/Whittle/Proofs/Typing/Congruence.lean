import Whittle.Proofs.Syntax.Rewriting
import Whittle.Proofs.Typing.Rules

namespace Whittle
namespace Check

/-!
# The rules on trees of one shape

The rules do not look at identifiers, and of what is declared they look at heads
alone.  So where two shaders are alike and the relation between their
expressions keeps types, one follows the rules if the other one does.
-/

namespace Context

/-- The structs have one name and are related by `S`. -/
structure NamedBy (S : StructDecl → StructDecl → Prop) (decl decl' : StructDecl) : Prop where
  name : decl'.name = decl.name
  related : S decl decl'

/-- The contexts have structs of the same names that are related by `S`, functions
with the same heads, and the same of everything else. -/
structure AlikeBy (S : StructDecl → StructDecl → Prop) (ctx ctx' : Context) : Prop where
  version : ctx'.version = ctx.version
  structs : List.Forall₂ (NamedBy S) ctx.structs ctx'.structs
  functions : List.Forall₂ Function.HeadsAlike ctx.functions ctx'.functions
  taken : ctx'.taken = ctx.taken
  inner : ctx'.inner = ctx.inner
  outer : ctx'.outer = ctx.outer
  returnTy : ctx'.returnTy = ctx.returnTy
  loops : ctx'.loops = ctx.loops
  switches : ctx'.switches = ctx.switches

/-- The contexts have declarations with the same heads, and the same of
everything else. -/
abbrev Alike : Context → Context → Prop :=
  AlikeBy StructDecl.Alike

variable {S : StructDecl → StructDecl → Prop}

theorem AlikeBy.of_refl (ctx : Context) (refl : ∀ decl ∈ ctx.structs, S decl decl) :
    ctx.AlikeBy S ctx where
  version := rfl
  structs := List.forall₂_same.mpr fun decl listed => ⟨rfl, refl decl listed⟩
  functions := List.forall₂_same.mpr fun _ _ => ⟨rfl, rfl, rfl⟩
  taken := rfl
  inner := rfl
  outer := rfl
  returnTy := rfl
  loops := rfl
  switches := rfl

theorem Alike.refl (ctx : Context) : ctx.Alike ctx :=
  .of_refl ctx fun _ _ => ⟨rfl, rfl⟩

variable {ctx ctx' : Context}

theorem AlikeBy.opened (alike : ctx.AlikeBy S ctx') : ctx.opened.AlikeBy S ctx'.opened :=
  { alike with
    inner := rfl
    outer := by rw [Context.opened, Context.opened, alike.inner, alike.outer] }

theorem AlikeBy.inLoop (alike : ctx.AlikeBy S ctx') : ctx.inLoop.AlikeBy S ctx'.inLoop :=
  { alike with loops := congrArg (· + 1) alike.loops }

theorem AlikeBy.inSwitch (alike : ctx.AlikeBy S ctx') : ctx.inSwitch.AlikeBy S ctx'.inSwitch :=
  { alike with switches := congrArg (· + 1) alike.switches }

theorem AlikeBy.declared (alike : ctx.AlikeBy S ctx') (name : String) (binding : Binding) :
    (ctx.declared name binding).AlikeBy S (ctx'.declared name binding) := by
  unfold Context.declared
  split
  · exact alike
  · exact { alike with inner := congrArg ((name, binding) :: ·) alike.inner }

theorem AlikeBy.taking (alike : ctx.AlikeBy S ctx') (name : String) :
    (ctx.taking name).AlikeBy S (ctx'.taking name) :=
  { alike with taken := congrArg (name :: ·) alike.taken }

private theorem find?_rel {α : Type} {R : α → α → Prop} {fits : α → Bool} {all all' : List α}
    (related : List.Forall₂ R all all') (same : ∀ a a', R a a' → fits a' = fits a) :
    Option.Rel R (all.find? fits) (all'.find? fits) := by
  induction related with
  | nil => exact .none
  | cons head _ inductionHypothesis =>
      rw [List.find?_cons, List.find?_cons, same _ _ head]
      split
      · exact .some head
      · exact inductionHypothesis

/-- Of two related options, either both are missing or both are there. -/
theorem option_rel_cases {α : Type} {R : α → α → Prop} {a? a?' : Option α}
    (related : Option.Rel R a? a?') :
    (a? = none ∧ a?' = none) ∨ ∃ a a', a? = some a ∧ a?' = some a' ∧ R a a' := by
  cases related with
  | none => exact .inl ⟨rfl, rfl⟩
  | some same => exact .inr ⟨_, _, rfl, rfl, same⟩

theorem AlikeBy.struct? (alike : ctx.AlikeBy S ctx') (name : String) :
    Option.Rel (NamedBy S) (ctx.struct? name) (ctx'.struct? name) :=
  find?_rel alike.structs fun _ _ same => by rw [same.name]

theorem AlikeBy.function? (alike : ctx.AlikeBy S ctx') (name : String) :
    Option.Rel Function.HeadsAlike (ctx.function? name) (ctx'.function? name) :=
  find?_rel alike.functions fun _ _ same => by rw [same.name]

theorem AlikeBy.lookup? (alike : ctx.AlikeBy S ctx') (name : String) :
    ctx'.lookup? name = ctx.lookup? name := by
  rw [Context.lookup?, Context.lookup?, alike.inner, alike.outer]

theorem AlikeBy.knows_iff (alike : ctx.AlikeBy S ctx') (ty : Ty) (voidAllowed : Bool) :
    ctx.Knows ty voidAllowed ↔ ctx'.Knows ty voidAllowed := by
  cases ty with
  | void | scalar | vector => exact .rfl
  | struct name =>
      simp only [Knows]
      rcases option_rel_cases (alike.struct? name) with
        ⟨isMissing, isMissing'⟩ | ⟨decl, decl', isDecl, isDecl', _⟩
      · rw [isMissing, isMissing']
      · rw [isDecl, isDecl']
        exact .rfl

theorem AlikeBy.canDeclare_iff (alike : ctx.AlikeBy S ctx') (name : String) :
    ctx.CanDeclare name ↔ ctx'.CanDeclare name := by
  rw [CanDeclare, CanDeclare, alike.inner]

theorem tys_eq_of_fields {fields fields' : List Field}
    (same : fields'.map Field.shape = fields.map Field.shape) :
    fields'.map Field.ty = fields.map Field.ty := by
  have := congrArg (List.map Prod.fst) same
  rwa [List.map_map, List.map_map] at this

theorem map_ty_field? {decl decl' : StructDecl} (same : decl.Alike decl') (name : String) :
    (decl'.field? name).map Field.ty = (decl.field? name).map Field.ty := by
  have shaped : ∀ fields : List Field, (fields.find? fun field => field.name == name).map Field.ty =
      ((fields.map Field.shape).find? fun shape => shape.2 == name).map Prod.fst := by
    intro fields
    rw [List.find?_map, Option.map_map]
    rfl
  rw [StructDecl.field?, StructDecl.field?, shaped, shaped, same.fields]

theorem member_struct_eq_ok_iff {name field : String} {ty : Ty} :
    ctx.member (.struct name) field = .ok ty ↔
      ∃ decl, ctx.struct? name = some decl ∧ (decl.field? field).map Field.ty = some ty := by
  simp only [Context.member]
  cases ctx.struct? name with
  | none => simp only [Option.bind_none, reduceCtorEq, false_and, exists_false]
  | some decl =>
      simp only [Option.bind_some, Option.some.injEq, exists_eq_left']
      cases decl.field? field <;> simp

/-- A member is the same where the fields of that name have one type. -/
theorem AlikeBy.member_struct (alike : ctx.AlikeBy S ctx') {name field : String}
    (same : ∀ decl decl', ctx.struct? name = some decl → S decl decl' →
      (decl'.field? field).map Field.ty = (decl.field? field).map Field.ty) :
    ctx'.member (.struct name) field = ctx.member (.struct name) field := by
  simp only [Context.member]
  rcases option_rel_cases (alike.struct? name) with
    ⟨isMissing, isMissing'⟩ | ⟨decl, decl', isDecl, isDecl', related⟩
  · rw [isMissing, isMissing']
  · rw [isDecl, isDecl', Option.bind_some, Option.bind_some]
    have sameTy := same decl decl' isDecl related.related
    cases known : decl.field? field <;> cases known' : decl'.field? field <;>
      rw [known, known'] at sameTy <;>
      simp only [Option.map_some, Option.map_none, Option.some.injEq, reduceCtorEq] at sameTy
    simp only [sameTy]

theorem AlikeBy.member (alike : ctx.AlikeBy StructDecl.Alike ctx') (base : Ty) (field : String) :
    ctx'.member base field = ctx.member base field := by
  cases base with
  | void | scalar | vector => rfl
  | struct name => exact alike.member_struct fun _ _ _ same => map_ty_field? same field

theorem mismatch?_congr {params params' : List Param} (args : List Ty)
    (same : params'.map Param.shape = params.map Param.shape) :
    mismatch? params' args = mismatch? params args := by
  induction params generalizing params' args with
  | nil =>
      rw [List.map_eq_nil_iff.mp same]
  | cons param rest inductionHypothesis =>
      rcases List.map_eq_cons_iff.mp same with ⟨param', rest', rfl, sameShape, sameRest⟩
      cases args with
      | nil => rfl
      | cons arg args =>
          have sameTy : param'.ty = param.ty := congrArg Prod.fst sameShape
          rw [mismatch?, mismatch?, sameTy, inductionHypothesis args sameRest]

theorem callFunction_congr {f f' : Function} (same : f.HeadsAlike f') (args : List Ty) :
    callFunction f' args = callFunction f args := by
  have sameLength : f'.params.length = f.params.length := by
    rw [← List.length_map Param.shape, same.params, List.length_map]
  rw [callFunction, callFunction, sameLength, same.name, same.returnTy,
    mismatch?_congr args same.params]

theorem constructStruct_congr {decl decl' : StructDecl} (same : decl.Alike decl')
    (args : List Ty) : constructStruct decl' args = constructStruct decl args := by
  rw [constructStruct, constructStruct, same.name, tys_eq_of_fields same.fields]

/-- A call is the same where the structs of that name have the same fields. -/
theorem AlikeBy.call_eq (alike : ctx.AlikeBy S ctx') {callee : String}
    (same : ∀ decl decl', ctx.struct? callee = some decl → S decl decl' → decl.Alike decl')
    (args : List Ty) : ctx'.call callee args = ctx.call callee args := by
  unfold Context.call
  split
  · rfl
  · rcases option_rel_cases (alike.struct? callee) with
      ⟨isMissing, isMissing'⟩ | ⟨decl, decl', isDecl, isDecl', related⟩
    · rw [isMissing, isMissing']
      dsimp only
      split
      · rfl
      · rcases option_rel_cases (alike.function? callee) with
          ⟨isMissing, isMissing'⟩ | ⟨f, f', isFunction, isFunction', same⟩
        · rw [isMissing, isMissing']
        · rw [isFunction, isFunction']
          exact callFunction_congr same args
    · rw [isDecl, isDecl']
      exact constructStruct_congr (same decl decl' isDecl related.related) args

theorem typesOf_map_congr {change : Expr → Expr} {es : List Expr}
    (same : ∀ e ∈ es, ctx'.typeOf (change e) = ctx.typeOf e) :
    ctx'.typesOf (es.map change) = ctx.typesOf es := by
  induction es with
  | nil => rfl
  | cons e rest inductionHypothesis =>
      rw [List.map_cons, typesOf, typesOf, same e List.mem_cons_self,
        inductionHypothesis fun e listed => same e (List.mem_cons_of_mem _ listed)]

/-- Whether an expression has a type, and which one, does not change as long as this is so
for its operands, what it stands for is the same, and the operand that it writes is as much
a location as before. -/
theorem typeOf_mapChildren {change : Expr → Expr} {e : Expr}
    (vars : ∀ name, e.varName? = some name → ctx'.lookup? name = ctx.lookup? name)
    (calls : ∀ id callee args tys, e = .call id callee args → ctx.typesOf args = some tys →
      ctx'.call callee tys = ctx.call callee tys)
    (members : ∀ id base field ty, e = .member id base field → ctx.typeOf base = some ty →
      ctx'.member ty field = ctx.member ty field)
    (children : ∀ child ∈ e.children, ctx'.typeOf (change child) = ctx.typeOf child)
    (written : ∀ operand, e.written? = some operand →
      ctx'.mayWrite (change operand) = ctx.mayWrite operand) :
    ctx'.typeOf (e.mapChildren change) = ctx.typeOf e := by
  cases e with
  | int | float | bool => rfl
  | var id name => simp only [Expr.mapChildren, typeOf, vars name rfl]
  | unary id op operand =>
      have same := children operand List.mem_cons_self
      simp only [Expr.mapChildren, typeOf, same]
      cases writes : op.writesOperand with
      | false => simp only [Bool.false_and]
      | true => rw [written operand (if_pos writes)]
  | assign id op target value =>
      simp only [Expr.children, List.forall_mem_cons] at children
      simp only [Expr.mapChildren, typeOf, children, written target rfl]
  | call id callee args =>
      have same : ctx'.typesOf (args.map change) = ctx.typesOf args := typesOf_map_congr children
      simp only [Expr.mapChildren, typeOf, same]
      exact Option.bind_congr fun tys areTys => congrArg _ (calls id callee args tys rfl areTys)
  | member id base field =>
      have same := children base List.mem_cons_self
      simp only [Expr.mapChildren, typeOf, same]
      exact Option.bind_congr fun ty isTy => congrArg _ (members id base field ty rfl isTy)
  | _ =>
      simp only [Expr.children, List.forall_mem_cons] at children
      simp only [Expr.mapChildren, typeOf, children]

/-- Whether an expression is a location does not change as long as this is so for the
operand that it is a part of. -/
theorem mayWrite_mapChildren {change : Expr → Expr} {e : Expr}
    (vars : ∀ name, e.varName? = some name → ctx'.lookup? name = ctx.lookup? name)
    (children : ∀ child ∈ e.children, ctx'.typeOf (change child) = ctx.typeOf child)
    (locations : ∀ child ∈ e.children, child.writtenVar? = e.writtenVar? →
      ctx'.mayWrite (change child) = ctx.mayWrite child) :
    ctx'.mayWrite (e.mapChildren change) = ctx.mayWrite e := by
  cases e with
  | var id name => simp only [Expr.mapChildren, mayWrite, vars name rfl]
  | member id base field =>
      simp only [Expr.mapChildren, mayWrite, children base List.mem_cons_self,
        locations base List.mem_cons_self rfl]
  | index id base position => exact locations base List.mem_cons_self rfl
  | paren id inner => exact locations inner List.mem_cons_self rfl
  | _ => rfl

/-- Whether an expression has a type, and which one, and whether it is a location, do
not change as long as this is so for its operands and what it stands for is the same. -/
theorem AlikeBy.typeOf_mapChildren (alike : ctx.AlikeBy S ctx') {change : Expr → Expr} {e : Expr}
    (calls : ∀ id callee args tys, e = .call id callee args → ctx.typesOf args = some tys →
      ctx'.call callee tys = ctx.call callee tys)
    (members : ∀ id base field ty, e = .member id base field → ctx.typeOf base = some ty →
      ctx'.member ty field = ctx.member ty field)
    (children : ∀ child ∈ e.children, ctx'.typeOf (change child) = ctx.typeOf child ∧
      ctx'.mayWrite (change child) = ctx.mayWrite child) :
    ctx'.typeOf (e.mapChildren change) = ctx.typeOf e ∧
      ctx'.mayWrite (e.mapChildren change) = ctx.mayWrite e := by
  have typed := fun child isChild => (children child isChild).1
  exact ⟨Context.typeOf_mapChildren (fun name _ => alike.lookup? name) calls members typed
      fun operand isWritten => (children operand (Expr.mem_children_of_written? isWritten)).2,
    mayWrite_mapChildren (fun name _ => alike.lookup? name) typed
      fun child isChild _ => (children child isChild).2⟩

/-- An expression has one type, and is a location or not, in alike contexts. -/
theorem AlikeBy.typeOf_and_mayWrite (alike : ctx.AlikeBy StructDecl.Alike ctx') (e : Expr) :
    ctx'.typeOf e = ctx.typeOf e ∧ ctx'.mayWrite e = ctx.mayWrite e := by
  induction e using Expr.children_induction with
  | step e inductionHypothesis =>
      have same := alike.typeOf_mapChildren
        (fun _ _ _ tys _ _ => alike.call_eq (fun _ _ _ same => same) tys)
        (fun _ _ field ty _ _ => alike.member ty field) inductionHypothesis
      rwa [Expr.mapChildren_eq_self fun _ _ => rfl] at same

theorem AlikeBy.typeOf (alike : ctx.AlikeBy StructDecl.Alike ctx') (e : Expr) : ctx'.typeOf e = ctx.typeOf e :=
  (alike.typeOf_and_mayWrite e).1

/-! ## Placed expressions -/

/-- The expressions stand in alike contexts and are related by `R`. -/
structure Placed.AlikeBy (S : StructDecl → StructDecl → Prop) (R : Expr → Expr → Prop)
    (one other : Placed) : Prop where
  ctx : one.ctx.AlikeBy S other.ctx
  e : R one.e other.e

/-- What `R` puts in the place of these expressions has their types, where the
structs are related by `S`. -/
def RetypesBy (S : StructDecl → StructDecl → Prop) (R : Expr → Expr → Prop) (all : List Placed) : Prop :=
  ∀ one ∈ all, ∀ ctx' e', one.ctx.AlikeBy S ctx' → R one.e e' → ctx'.typeOf e' = one.ctx.typeOf one.e

/-- Where these expressions stand, what `R` puts in their place has their types. -/
def Retypes (R : Expr → Expr → Prop) (all : List Placed) : Prop :=
  ∀ one ∈ all, ∀ e', R one.e e' → one.ctx.typeOf e' = one.ctx.typeOf one.e

variable {R : Expr → Expr → Prop}

/-- In an alike context as well the related expression has the same type. -/
theorem Retypes.retypesBy {all : List Placed} (retypes : Retypes R all) :
    RetypesBy StructDecl.Alike R all := fun one listed _ e' alike related =>
  (alike.typeOf e').trans (retypes one listed e' related)

theorem retypesBy_append {first second : List Placed} :
    RetypesBy S R (first ++ second) ↔ RetypesBy S R first ∧ RetypesBy S R second :=
  List.forall_mem_append

theorem RetypesBy.tail {one : Placed} {rest : List Placed} (retypes : RetypesBy S R (one :: rest)) :
    RetypesBy S R rest := fun other listed =>
  retypes other (List.mem_cons_of_mem _ listed)

theorem RetypesBy.typeOf_eq {e e' : Expr} {all : List Placed} (retypes : RetypesBy S R all)
    (alike : ctx.AlikeBy S ctx') (listed : ⟨ctx, e⟩ ∈ all) (related : R e e') :
    ctx'.typeOf e' = ctx.typeOf e :=
  retypes _ listed _ e' alike related

theorem RetypesBy.forall_iff {e? e?' : Option Expr} (retypes : RetypesBy S R (ctx.placedOption e?))
    (alike : ctx.AlikeBy S ctx') (related : Option.Rel R e? e?') (ok : Option Ty → Prop) :
    (∀ e ∈ e?, ok (ctx.typeOf e)) ↔ ∀ e ∈ e?', ok (ctx'.typeOf e) := by
  cases related with
  | none => simp only [Option.not_mem_none, false_implies, implies_true]
  | some same =>
      have sameTy := retypes.typeOf_eq alike List.mem_cons_self same
      simp only [Option.mem_def, Option.some.injEq, forall_eq', sameTy]

theorem AlikeBy.placedOption {e? e?' : Option Expr} (alike : ctx.AlikeBy S ctx')
    (related : Option.Rel R e? e?') :
    List.Forall₂ (Placed.AlikeBy S R) (ctx.placedOption e?) (ctx'.placedOption e?') := by
  cases related with
  | none => exact .nil
  | some same => exact .cons ⟨alike, same⟩ .nil

theorem AlikeBy.behindVar {var var' : VarDecl} (alike : ctx.AlikeBy S ctx') (same : var.Alike R var') :
    (ctx.behindVar var).AlikeBy S (ctx'.behindVar var') := by
  rw [Context.behindVar, Context.behindVar, same.name, same.ty, same.qualifier]
  exact alike.declared _ _

theorem acceptsVar_iff {var var' : VarDecl} (alike : ctx.AlikeBy S ctx') (same : var.Alike R var')
    (retypes : RetypesBy S R (ctx.placedOption var.init)) :
    ctx.AcceptsVar var ↔ ctx'.AcceptsVar var' := by
  have known := alike.knows_iff var.ty false
  have free := alike.canDeclare_iff var.name
  have initialised := retypes.forall_iff alike same.init (· = some var.ty)
  have isSet : var'.init.isSome = var.init.isSome := by
    rcases option_rel_cases same.init with ⟨no, no'⟩ | ⟨_, _, isInit, isInit', _⟩
    · rw [no, no']
    · rw [isInit, isInit']
      rfl
  constructor
  · intro accepted
    exact
      { known := by rw [same.ty]; exact known.mp accepted.known
        isSet := by rw [same.qualifier, isSet]; exact accepted.isSet
        initialised := by rw [same.ty]; exact initialised.mp accepted.initialised
        free := by rw [same.name]; exact free.mp accepted.free }
  · intro accepted
    exact
      { known := by rw [known, ← same.ty]; exact accepted.known
        isSet := by rw [← same.qualifier, ← isSet]; exact accepted.isSet
        initialised := by rw [initialised, ← same.ty]; exact accepted.initialised
        free := by rw [free, ← same.name]; exact accepted.free }

theorem acceptsReturn_iff {value value' : Option Expr} (alike : ctx.AlikeBy S ctx')
    (related : Option.Rel R value value') (retypes : RetypesBy S R (ctx.placedOption value)) :
    ctx.AcceptsReturn value ↔ ctx'.AcceptsReturn value' := by
  unfold AcceptsReturn
  rw [alike.returnTy]
  cases related with
  | none => cases ctx.returnTy <;> exact .rfl
  | some same =>
      cases ctx.returnTy with
      | none => exact .rfl
      | some expected =>
          dsimp only
          rw [retypes.typeOf_eq alike List.mem_cons_self same]

theorem AlikeBy.behind {s s' : Stmt} (alike : ctx.AlikeBy S ctx') (same : s.Alike R s') :
    (ctx.behind s).AlikeBy S (ctx'.behind s') := by
  cases same with
  | decl declared => exact alike.behindVar declared
  | _ => exact alike

theorem AlikeBy.behindList {stmts stmts' : List Stmt} (alike : ctx.AlikeBy S ctx')
    (same : List.Forall₂ (Stmt.Alike R) stmts stmts') :
    (ctx.behindList stmts).AlikeBy S (ctx'.behindList stmts') := by
  induction same generalizing ctx ctx' with
  | nil => exact alike
  | cons head _ inductionHypothesis => exact inductionHypothesis (alike.behind head)

theorem isLoopInit_eq {s s' : Stmt} (same : s.Alike R s') : s'.isLoopInit = s.isLoopInit := by
  cases same <;> rfl

theorem AlikeBy.header {init init' : Option Stmt} (alike : ctx.AlikeBy S ctx')
    (same : Option.Rel (Stmt.Alike R) init init') :
    (ctx.header init).AlikeBy S (ctx'.header init') := by
  cases same with
  | none => exact alike.opened
  | some same =>
      simp only [Context.header, isLoopInit_eq same]
      split
      · exact alike.opened.behind same
      · exact alike.opened

mutual

/-- A statement is accepted if an alike one is that keeps types. -/
theorem accepts_iff {ctx ctx' : Context} {s s' : Stmt} (alike : ctx.AlikeBy S ctx')
    (same : s.Alike R s') (retypes : RetypesBy S R (ctx.placed s)) :
    ctx.Accepts s ↔ ctx'.Accepts s' := by
  cases same with
  | decl declared =>
      unfold Accepts
      rw [declared.qualifier, acceptsVar_iff alike declared retypes]
  | expr evaluated =>
      unfold Accepts
      rw [retypes.typeOf_eq alike List.mem_cons_self evaluated]
  | block within => exact acceptsList_iff alike.opened within retypes
  | branch tested first second =>
      have within := retypesBy_append.mp retypes.tail
      unfold Accepts
      rw [retypes.typeOf_eq alike List.mem_cons_self tested]
      refine and_congr .rfl (and_congr (accepts_iff alike.opened first within.1) ?_)
      cases second with
      | none => exact .rfl
      | some same => exact accepts_iff alike.opened same within.2
  | whileLoop tested within =>
      unfold Accepts
      rw [retypes.typeOf_eq alike List.mem_cons_self tested]
      exact and_congr .rfl (accepts_iff alike.inLoop.opened within retypes.tail)
  | switch selected within =>
      unfold Accepts
      rw [retypes.typeOf_eq alike List.mem_cons_self selected, alike.version]
      refine and_congr .rfl (and_congr .rfl (and_congr (not_congr ?_) ?_))
      · cases within <;> simp only [reduceCtorEq]
      · exact acceptsCases_iff alike.inSwitch.opened [] within retypes.tail
  | forLoop before tested behind within =>
      rw [placed_forLoop, retypesBy_append, retypesBy_append, retypesBy_append] at retypes
      unfold Accepts
      have header := alike.header before
      refine and_congr ?_ (and_congr ?_ (and_congr
        (retypes.2.1.forall_iff header tested (· = some .bool))
        (and_congr (retypes.2.2.1.forall_iff header behind (·.isSome)) ?_)))
      · cases before with
        | none => simp only [Option.not_mem_none, false_implies, implies_true]
        | some same => simp only [Option.mem_def, Option.some.injEq, forall_eq', isLoopInit_eq same]
      · cases before with
        | none => exact .rfl
        | some same => exact accepts_iff alike.opened same retypes.1
      · cases within with
        | block within => exact acceptsList_iff header.inLoop within retypes.2.2.2
        | _ => exact accepts_iff header.inLoop.opened (by constructor <;> assumption) retypes.2.2.2
  | ret returned => exact acceptsReturn_iff alike returned retypes
  | breakOut =>
      unfold Accepts
      rw [alike.loops, alike.switches]
  | continueLoop =>
      unfold Accepts
      rw [alike.loops]
  | discard | empty => exact .rfl

theorem acceptsList_iff {ctx ctx' : Context} {stmts stmts' : List Stmt} (alike : ctx.AlikeBy S ctx')
    (same : List.Forall₂ (Stmt.Alike R) stmts stmts') (retypes : RetypesBy S R (ctx.placedList stmts)) :
    ctx.AcceptsList stmts ↔ ctx'.AcceptsList stmts' := by
  cases same with
  | nil => exact .rfl
  | cons head rest =>
      rw [placedList, retypesBy_append] at retypes
      exact and_congr (accepts_iff alike head retypes.1)
        (acceptsList_iff (alike.behind head) rest retypes.2)

theorem acceptsCases_iff {ctx ctx' : Context} {cases cases' : List Case} (alike : ctx.AlikeBy S ctx')
    (before : List Label) (same : List.Forall₂ (Case.Alike R) cases cases')
    (retypes : RetypesBy S R (ctx.placedCases cases)) :
    ctx.AcceptsCases before cases ↔ ctx'.AcceptsCases before cases' := by
  cases same with
  | nil => exact .rfl
  | cons head rest =>
      cases head with
      | mk within =>
          rw [placedCases, retypesBy_append] at retypes
          exact and_congr .rfl (and_congr (acceptsList_iff alike within retypes.1)
            (acceptsCases_iff (alike.behindList within) _ rest retypes.2))

end

mutual

/-- Alike statements have related expressions in alike places. -/
theorem AlikeBy.placed {ctx ctx' : Context} {s s' : Stmt} (alike : ctx.AlikeBy S ctx')
    (same : s.Alike R s') : List.Forall₂ (Placed.AlikeBy S R) (ctx.placed s) (ctx'.placed s') := by
  cases same with
  | decl declared => exact alike.placedOption declared.init
  | expr evaluated => exact .cons ⟨alike, evaluated⟩ .nil
  | block within => exact alike.opened.placedList within
  | branch tested first second =>
      refine .cons ⟨alike, tested⟩ (List.rel_append (alike.opened.placed first) ?_)
      cases second with
      | none => exact .nil
      | some same => exact alike.opened.placed same
  | whileLoop tested within => exact .cons ⟨alike, tested⟩ (alike.inLoop.opened.placed within)
  | switch selected within =>
      exact .cons ⟨alike, selected⟩ (alike.inSwitch.opened.placedCases within)
  | forLoop before tested behind within =>
      have header := alike.header before
      rw [placed_forLoop, placed_forLoop]
      refine List.rel_append ?_ (List.rel_append (header.placedOption tested)
        (List.rel_append (header.placedOption behind) ?_))
      · cases before with
        | none => exact .nil
        | some same => exact alike.opened.placed same
      · cases within with
        | block within => exact header.inLoop.placedList within
        | _ => exact header.inLoop.opened.placed (by constructor <;> assumption)
  | ret returned => exact alike.placedOption returned
  | breakOut | continueLoop | discard | empty => exact .nil

theorem AlikeBy.placedList {ctx ctx' : Context} {stmts stmts' : List Stmt} (alike : ctx.AlikeBy S ctx')
    (same : List.Forall₂ (Stmt.Alike R) stmts stmts') :
    List.Forall₂ (Placed.AlikeBy S R) (ctx.placedList stmts) (ctx'.placedList stmts') := by
  cases same with
  | nil => exact .nil
  | cons head rest =>
      exact List.rel_append (alike.placed head) ((alike.behind head).placedList rest)

theorem AlikeBy.placedCases {ctx ctx' : Context} {cases cases' : List Case} (alike : ctx.AlikeBy S ctx')
    (same : List.Forall₂ (Case.Alike R) cases cases') :
    List.Forall₂ (Placed.AlikeBy S R) (ctx.placedCases cases) (ctx'.placedCases cases') := by
  cases same with
  | nil => exact .nil
  | cons head rest =>
      cases head with
      | mk within =>
          exact List.rel_append (alike.placedList within)
            ((alike.behindList within).placedCases rest)

end

/-! ## Declarations -/

mutual

theorem any_isReturn_eq {s s' : Stmt} (same : s.Alike R s') :
    s'.substmts.any Stmt.isReturn = s.substmts.any Stmt.isReturn := by
  cases same with
  | block within =>
      simp only [Stmt.substmts, List.any_cons, Stmt.isReturn, any_isReturnList_eq within]
  | branch _ first second =>
      simp only [Stmt.substmts, List.any_cons, List.any_append, Stmt.isReturn,
        any_isReturn_eq first]
      cases second with
      | none => rfl
      | some same => simp only [Stmt.substmtsOfOption, any_isReturn_eq same]
  | forLoop before _ _ within =>
      simp only [Stmt.substmts, List.any_cons, List.any_append, Stmt.isReturn,
        any_isReturn_eq within]
      cases before with
      | none => rfl
      | some same => simp only [Stmt.substmtsOfOption, any_isReturn_eq same]
  | whileLoop _ within =>
      simp only [Stmt.substmts, List.any_cons, Stmt.isReturn, any_isReturn_eq within]
  | switch _ within =>
      simp only [Stmt.substmts, List.any_cons, Stmt.isReturn, any_isReturnCases_eq within]
  | decl | expr | ret | breakOut | continueLoop | discard | empty => rfl

theorem any_isReturnList_eq {stmts stmts' : List Stmt}
    (same : List.Forall₂ (Stmt.Alike R) stmts stmts') :
    (Stmt.substmtsOfList stmts').any Stmt.isReturn =
      (Stmt.substmtsOfList stmts).any Stmt.isReturn := by
  cases same with
  | nil => rfl
  | cons head rest =>
      simp only [Stmt.substmtsOfList, List.any_append, any_isReturn_eq head,
        any_isReturnList_eq rest]

theorem any_isReturnCases_eq {cases cases' : List Case}
    (same : List.Forall₂ (Case.Alike R) cases cases') :
    (Stmt.substmtsOfCases cases').any Stmt.isReturn =
      (Stmt.substmtsOfCases cases).any Stmt.isReturn := by
  cases same with
  | nil => rfl
  | cons head rest =>
      cases head with
      | mk within =>
          simp only [Stmt.substmtsOfCases, List.any_append, any_isReturnList_eq within,
            any_isReturnCases_eq rest]

end

/-- Alike bodies both hold a `return` or both hold none. -/
theorem holdsReturn_eq {body body' : Block}
    (same : List.Forall₂ (Stmt.Alike R) body.stmts body'.stmts) :
    body'.holdsReturn = body.holdsReturn := by
  have flat : ∀ stmts : List Stmt, stmts.any Stmt.holdsReturn =
      (Stmt.substmtsOfList stmts).any Stmt.isReturn := fun stmts => by
    rw [Stmt.substmtsOfList_eq_flatMap, List.any_flatMap]
    rfl
  rw [Block.holdsReturn, Block.holdsReturn, flat, flat, any_isReturnList_eq same]

theorem AlikeBy.behindParams {params params' : List Param} (alike : ctx.AlikeBy S ctx')
    (same : params'.map Param.shape = params.map Param.shape) :
    (ctx.behindParams params).AlikeBy S (ctx'.behindParams params') ∧
      (ctx.AcceptsParams params ↔ ctx'.AcceptsParams params') := by
  induction params generalizing params' ctx ctx' with
  | nil =>
      rw [List.map_eq_nil_iff.mp same]
      exact ⟨alike, .rfl⟩
  | cons param rest inductionHypothesis =>
      rcases List.map_eq_cons_iff.mp same with ⟨param', rest', rfl, sameShape, sameRest⟩
      have sameTy : param'.ty = param.ty := congrArg Prod.fst sameShape
      have sameName : param'.name = param.name := congrArg Prod.snd sameShape
      have behind := inductionHypothesis (alike.declared param.name ⟨param.ty, true⟩) sameRest
      simp only [Context.behindParams, AcceptsParams, sameTy, sameName]
      exact ⟨behind.1, and_congr (alike.knows_iff _ _)
        (and_congr (alike.canDeclare_iff _) behind.2)⟩

theorem acceptsFields_iff {fields fields' : List Field} (alike : ctx.AlikeBy S ctx')
    (before : List String) (same : fields'.map Field.shape = fields.map Field.shape) :
    ctx.AcceptsFields before fields ↔ ctx'.AcceptsFields before fields' := by
  induction fields generalizing fields' before with
  | nil =>
      rw [List.map_eq_nil_iff.mp same]
      exact .rfl
  | cons field rest inductionHypothesis =>
      rcases List.map_eq_cons_iff.mp same with ⟨field', rest', rfl, sameShape, sameRest⟩
      have sameTy : field'.ty = field.ty := congrArg Prod.fst sameShape
      have sameName : field'.name = field.name := congrArg Prod.snd sameShape
      simp only [AcceptsFields, sameTy, sameName]
      exact and_congr (alike.knows_iff _ _) (and_congr .rfl (inductionHypothesis _ sameRest))

theorem AlikeBy.inFunction {f f' : Function} (alike : ctx.AlikeBy S ctx') (same : f.HeadsAlike f') :
    (ctx.inFunction f).AlikeBy S (ctx'.inFunction f') :=
  { (alike.opened.behindParams same.params).1 with returnTy := congrArg some same.returnTy }

theorem acceptsFunction_iff {f f' : Function} (alike : ctx.AlikeBy S ctx') (same : f.Alike R f')
    (retypes : RetypesBy S R (ctx.placedDecl (.function f))) :
    ctx.AcceptsFunction f ↔ ctx'.AcceptsFunction f' := by
  have known := alike.knows_iff f.returnTy true
  have params := (alike.opened.behindParams same.params).2
  have body := acceptsList_iff (alike.inFunction same.toHeadsAlike) same.stmts retypes
  have returns := holdsReturn_eq same.stmts
  have isEmpty : f'.body.stmts = [] ↔ f.body.stmts = [] := by
    rw [← List.length_eq_zero_iff, ← List.length_eq_zero_iff, same.stmts.length_eq]
  constructor
  · intro accepted
    exact
      { notTaken := by rw [same.name, alike.taken]; exact accepted.notTaken
        notReserved := by rw [same.name]; exact accepted.notReserved
        known := by rw [same.returnTy]; exact known.mp accepted.known
        params := params.mp accepted.params
        notEmpty := mt isEmpty.mp accepted.notEmpty
        body := body.mp accepted.body
        returns := by rw [same.returnTy, returns]; exact accepted.returns }
  · intro accepted
    exact
      { notTaken := by rw [← same.name, ← alike.taken]; exact accepted.notTaken
        notReserved := by rw [← same.name]; exact accepted.notReserved
        known := by rw [known, ← same.returnTy]; exact accepted.known
        params := params.mpr accepted.params
        notEmpty := mt isEmpty.mpr accepted.notEmpty
        body := body.mpr accepted.body
        returns := by rw [← same.returnTy, ← returns]; exact accepted.returns }

theorem acceptsDecl_iff {decl decl' : Decl} (alike : ctx.AlikeBy S ctx') (same : decl.Alike R decl')
    (retypes : RetypesBy S R (ctx.placedDecl decl)) :
    ctx.AcceptsDecl decl ↔ ctx'.AcceptsDecl decl' := by
  cases same with
  | precision => exact .rfl
  | struct same =>
      have isEmpty := congrArg List.length same.fields
      rw [List.length_map, List.length_map] at isEmpty
      simp only [AcceptsDecl, same.name, alike.taken, ne_eq, ← List.length_eq_zero_iff, isEmpty,
        acceptsFields_iff alike [] same.fields]
  | global declared =>
      have isSet : ∀ {var var' : VarDecl}, var.Alike R var' → (var'.init = none ↔ var.init = none) := by
        intro var var' declared
        rcases option_rel_cases declared.init with ⟨no, no'⟩ | ⟨_, _, isInit, isInit', _⟩
        · rw [no, no']
        · rw [isInit, isInit']
          simp only [reduceCtorEq]
      simp only [AcceptsDecl, AcceptsQualifier, declared.name, declared.qualifier, alike.taken,
        alike.version, isSet declared, acceptsVar_iff (alike.taking _) declared retypes]
  | function defined => exact acceptsFunction_iff alike defined retypes

/-- `S` holds of the structs among the declarations and of all structs with the same
heads. -/
def HoldsAlike (S : StructDecl → StructDecl → Prop) (decls : List Decl) : Prop :=
  ∀ decl, .struct decl ∈ decls → ∀ decl', decl.Alike decl' → S decl decl'

theorem holdsAlike_self (decls : List Decl) : HoldsAlike StructDecl.Alike decls :=
  fun _ _ _ same => same

theorem HoldsAlike.head {decl : Decl} {rest : List Decl} (holds : HoldsAlike S (decl :: rest)) :
    HoldsAlike S [decl] := fun struct listed =>
  holds struct (List.mem_cons.mpr (.inl (List.mem_singleton.mp listed)))

theorem HoldsAlike.tail {decl : Decl} {rest : List Decl} (holds : HoldsAlike S (decl :: rest)) :
    HoldsAlike S rest := fun struct listed =>
  holds struct (List.mem_cons_of_mem _ listed)

theorem AlikeBy.behindStruct {decl decl' : StructDecl} (alike : ctx.AlikeBy S ctx')
    (related : NamedBy S decl decl') :
    (ctx.behindDecl (.struct decl)).AlikeBy S (ctx'.behindDecl (.struct decl')) := by
  simp only [Context.behindDecl, related.name, alike.taken]
  split
  · exact alike
  · exact { alike.taking _ with structs := .cons related alike.structs }

theorem AlikeBy.behindDecl {decl decl' : Decl} (alike : ctx.AlikeBy S ctx')
    (holds : HoldsAlike S [decl]) (same : decl.Alike R decl') :
    (ctx.behindDecl decl).AlikeBy S (ctx'.behindDecl decl') := by
  cases same with
  | precision => exact alike
  | struct same => exact alike.behindStruct ⟨same.name, holds _ List.mem_cons_self _ same⟩
  | global declared =>
      simp only [Context.behindDecl, declared.name, alike.taken]
      split
      · exact alike
      · exact (alike.taking _).behindVar declared
  | function defined =>
      simp only [Context.behindDecl, defined.name, alike.taken]
      split
      · exact alike
      · exact { alike.taking _ with functions := .cons defined.toHeadsAlike alike.functions }

theorem AlikeBy.placedDecl {decl decl' : Decl} (alike : ctx.AlikeBy S ctx') (same : decl.Alike R decl') :
    List.Forall₂ (Placed.AlikeBy S R) (ctx.placedDecl decl) (ctx'.placedDecl decl') := by
  cases same with
  | precision | struct => exact .nil
  | global declared =>
      simp only [Context.placedDecl, declared.name]
      exact (alike.taking _).placedOption declared.init
  | function defined => exact (alike.inFunction defined.toHeadsAlike).placedList defined.stmts

section

variable {decls decls' : List Decl} (alike : ctx.AlikeBy S ctx') (holds : HoldsAlike S decls)
  (same : List.Forall₂ (Decl.Alike R) decls decls')
include alike holds same

theorem AlikeBy.behindDecls : (ctx.behindDecls decls).AlikeBy S (ctx'.behindDecls decls') := by
  induction same generalizing ctx ctx' with
  | nil => exact alike
  | cons head _ inductionHypothesis =>
      exact inductionHypothesis (alike.behindDecl holds.head head) holds.tail

theorem acceptsDecls_iff (retypes : RetypesBy S R (ctx.placedDecls decls)) :
    ctx.AcceptsDecls decls ↔ ctx'.AcceptsDecls decls' := by
  induction same generalizing ctx ctx' with
  | nil => exact .rfl
  | cons head _ inductionHypothesis =>
      rw [placedDecls, retypesBy_append] at retypes
      exact and_congr (acceptsDecl_iff alike head retypes.1)
        (inductionHypothesis (alike.behindDecl holds.head head) holds.tail retypes.2)

theorem AlikeBy.placedDecls :
    List.Forall₂ (Placed.AlikeBy S R) (ctx.placedDecls decls) (ctx'.placedDecls decls') := by
  induction same generalizing ctx ctx' with
  | nil => exact .nil
  | cons head _ inductionHypothesis =>
      exact List.rel_append (alike.placedDecl head)
        (inductionHypothesis (alike.behindDecl holds.head head) holds.tail)

end

end Context

/-- Alike declarations have the same functions, up to what is in them. -/
theorem functions_alike {R : Expr → Expr → Prop} {decls decls' : List Decl} (fits : String → Bool)
    (same : List.Forall₂ (Decl.Alike R) decls decls') :
    List.Forall₂ Function.HeadsAlike
      ((decls.filterMap Decl.function?).filter fun f => fits f.name)
      ((decls'.filterMap Decl.function?).filter fun f => fits f.name) := by
  induction same with
  | nil => exact .nil
  | cons head _ inductionHypothesis =>
      cases head with
      | precision | struct | global => exact inductionHypothesis
      | function defined =>
          simp only [List.filterMap_cons, Decl.function?, List.filter_cons, defined.name]
          split
          · exact .cons defined.toHeadsAlike inductionHypothesis
          · exact inductionHypothesis

/-- Whether there is a `main` function is a question about the heads of functions. -/
theorem hasMain_iff_of_heads {shader shader' : Shader}
    (mains : List.Forall₂ Function.HeadsAlike
      (shader.functions.filter fun f => f.name == "main")
      (shader'.functions.filter fun f => f.name == "main")) : HasMain shader ↔ HasMain shader' := by
  unfold HasMain
  generalize (shader.functions.filter fun f => f.name == "main") = all at mains ⊢
  generalize (shader'.functions.filter fun f => f.name == "main") = all' at mains ⊢
  cases mains with
  | nil => exact .rfl
  | cons head rest =>
      cases rest with
      | nil =>
          have isEmpty := congrArg List.length head.params
          rw [List.length_map, List.length_map] at isEmpty
          simp only [head.returnTy, ← List.length_eq_zero_iff, isEmpty]
      | cons => exact .rfl

/-- Alike shaders both have a `main` function or both have none. -/
theorem hasMain_iff {R : Expr → Expr → Prop} {shader shader' : Shader}
    (same : shader.Alike R shader') : HasMain shader ↔ HasMain shader' :=
  hasMain_iff_of_heads (functions_alike (· == "main") same.decls)

end Check

/-- A shader follows the rules if an alike one does that keeps types. -/
theorem Shader.Alike.followsRules_iff {R : Expr → Expr → Prop} {shader shader' : Shader}
    {version : Version} (same : shader.Alike R shader')
    (retypes : Check.Context.Retypes R
      ((Check.Context.initial version).placedDecls shader.decls)) :
    shader.FollowsRules version ↔ shader'.FollowsRules version := by
  have decls := Check.Context.acceptsDecls_iff (Check.Context.Alike.refl _)
    (Check.Context.holdsAlike_self _) same.decls retypes.retypesBy
  have main := Check.hasMain_iff same
  exact ⟨fun follows => ⟨decls.mp follows.decls, main.mp follows.main⟩,
    fun follows => ⟨decls.mpr follows.decls, main.mpr follows.main⟩⟩

end Whittle
