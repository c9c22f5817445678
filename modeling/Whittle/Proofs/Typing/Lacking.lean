import Whittle.Proofs.Reduction.ShaderNames
import Whittle.Proofs.Typing.Calls
import Whittle.Proofs.Typing.Persistence

namespace Whittle
namespace Check
namespace Context

open Reduction (Names)

/-!
# What code does without

A variable that nothing refers to, a function that nothing calls, and a struct that is
no type of anything and whose constructor is never called can all be missing.  Code
that was accepted with them is accepted without them, and every expression keeps its
type.  For structs this needs that no value of the struct comes about anywhere.
-/

/-- The type is none of these structs. -/
def Avoids (structs : List String) (ty : Ty) : Prop :=
  ∀ name, ty.structName? = some name → name ∉ structs

section

variable {structs : List String} {ty : Ty}

theorem avoids_of_isScalar (isScalar : ty.isScalar = true) : Avoids structs ty := by
  cases ty with
  | scalar => exact fun _ isName => nomatch isName
  | _ => cases isScalar

theorem avoids_of_isVector (isVector : ty.isVector = true) : Avoids structs ty := by
  cases ty with
  | vector => exact fun _ isName => nomatch isName
  | _ => cases isVector

theorem eq_or_isScalar_of_unary {op : UnaryOp} {operand : Ty} (isTy : unary op operand = .ok ty) :
    ty = operand ∨ ty.isScalar = true := by
  unfold unary at isTy
  split at isTy
  · split at isTy <;> cases isTy
    exact .inr rfl
  · split at isTy <;> cases isTy
    exact .inl rfl

theorem eq_or_isScalar_of_binary? {op : BinaryOp} {lhs rhs : Ty} (isTy : binary? op lhs rhs = some ty) :
    ty = lhs ∨ ty = rhs ∨ ty.isScalar = true := by
  have ofArithmetic : arithmetic? op lhs rhs = some ty → ty = lhs ∨ ty = rhs ∨ ty.isScalar = true := by
    intro isTy
    unfold arithmetic? at isTy
    grind
  cases op with
  | add | sub | mul | div | rem => exact ofArithmetic isTy
  | _ =>
      simp only [binary?, Option.ite_none_right_eq_some, Option.some.injEq] at isTy
      exact .inr (.inr (by rw [← isTy.2]; rfl))

theorem eq_of_assign {op : AssignOp} {target value : Ty} (isTy : assign op target value = .ok ty) :
    ty = target := by
  simp only [assign, bind, Except.bind, pure, Except.pure, throw, throwThe,
    MonadExceptOf.throw] at isTy
  grind

theorem mem_or_isScalar_of_callMarker {marker : Marker} {args : List Ty}
    (isTy : callMarker marker args = .ok ty) : ty ∈ args ∨ ty.isScalar = true := by
  unfold callMarker at isTy
  split at isTy
  case h_1 first second =>
    split at isTy <;> cases isTy
    exact .inl List.mem_cons_self
  case h_3 =>
    cases isTy
    exact .inl List.mem_cons_self
  all_goals first | cases isTy | (split at isTy <;> cases isTy; exact .inr rfl)

theorem mem_or_isScalar_of_callBuiltin {name : String} {args : List Ty}
    (isTy : callBuiltin name args = .ok ty) : ty ∈ args ∨ ty.isScalar = true := by
  unfold callBuiltin at isTy
  dsimp only at isTy
  split at isTy
  · rename_i found isFound
    cases isTy
    match args with
    | [] | _ :: _ :: _ :: _ :: _ => cases isFound
    | [x] =>
        dsimp only [builtin1?] at isFound
        grind [Ty.isScalar]
    | [x, y] =>
        dsimp only [builtin2?] at isFound
        grind [Ty.isScalar]
    | [x, y, z] =>
        dsimp only [builtin3?] at isFound
        grind [Ty.isScalar]
  · cases isTy

theorem avoids_of_ofKeyword? {name : String} (isTy : Ty.ofKeyword? name = some ty) :
    Avoids structs ty := by
  have listed : ty ∈ Ty.builtin := List.mem_of_find?_eq_some isTy
  cases ty with
  | struct other => simp [Ty.builtin] at listed
  | _ => exact fun _ isName => nomatch isName

end

/-- The second context lacks variables, structs and functions of the first one, which has
no value of these structs. -/
structure Lacks (vars structs functions : List String) (ctx ctx' : Context) : Prop where
  version : ctx'.version = ctx.version
  returnTy : ctx'.returnTy = ctx.returnTy
  loops : ctx'.loops = ctx.loops
  switches : ctx'.switches = ctx.switches
  taken : ctx'.taken ⊆ ctx.taken
  free : ∀ name, ctx.inner.lookup name = none → ctx'.inner.lookup name = none
  lookups : ∀ name, name ∉ vars → ctx'.lookup? name = ctx.lookup? name
  struct : ∀ name, name ∉ structs → ctx'.struct? name = ctx.struct? name
  function : ∀ name, name ∉ functions → ctx'.function? name = ctx.function? name
  varTys : ∀ name binding, ctx.lookup? name = some binding → Avoids structs binding.ty
  fieldTys : ∀ decl ∈ ctx.structs, ∀ field ∈ decl.fields, Avoids structs field.ty
  returnTys : ∀ f ∈ ctx.functions, Avoids structs f.returnTy

namespace Lacks

variable {vars structs functions : List String} {ctx ctx' : Context}

theorem opened (lacks : Lacks vars structs functions ctx ctx') :
    Lacks vars structs functions ctx.opened ctx'.opened :=
  { lacks with
    free := fun _ isFree => isFree
    lookups := lacks.lookups
    varTys := lacks.varTys }

theorem declared (lacks : Lacks vars structs functions ctx ctx') (name : String) {binding : Binding}
    (avoids : Avoids structs binding.ty) :
    Lacks vars structs functions (ctx.declared name binding) (ctx'.declared name binding) := by
  have isBound : Lacks vars structs functions (ctx.bound name binding) (ctx'.bound name binding) :=
    { lacks with
      free := fun other isFree => by
        rw [bound, List.lookup_cons] at isFree ⊢
        split at isFree
        · cases isFree
        · exact lacks.free other isFree
      lookups := fun other present => by
        rw [lookup?_bound, lookup?_bound, lacks.lookups other present]
      varTys := fun other found isFound => by
        rw [lookup?_bound] at isFound
        split at isFound
        · cases isFound
          exact avoids
        · exact lacks.varTys other found isFound }
  unfold Context.declared
  split
  · exact lacks
  · exact isBound

theorem knows (lacks : Lacks vars structs functions ctx ctx') {ty : Ty} {voidAllowed : Bool}
    (avoids : Avoids structs ty) (known : ctx.Knows ty voidAllowed) : ctx'.Knows ty voidAllowed := by
  refine known.of_structs fun name isStruct isKnown => ?_
  subst isStruct
  rwa [lacks.struct name (avoids name rfl)]

theorem persistent : Persistent (Avoids structs) (Lacks vars structs functions) where
  hasSwitch lacks := by rw [lacks.version]; exact id
  returnTy lacks := lacks.returnTy
  loops lacks := lacks.loops
  switches lacks := lacks.switches
  free lacks isFree := ⟨isFree.1, lacks.free _ isFree.2⟩
  knows lacks avoids known := lacks.knows avoids known
  opened lacks := lacks.opened
  inLoop lacks := { lacks with loops := congrArg (· + 1) lacks.loops }
  inSwitch lacks := { lacks with switches := congrArg (· + 1) lacks.switches }
  declared name _ lacks avoids := lacks.declared name avoids

/-- A call of something that is not missing has its type, which is that of a value. -/
theorem call (lacks : Lacks vars structs functions ctx ctx') {callee : String} {args : List Ty} {ty : Ty}
    (isStruct : callee ∉ structs) (isFunction : callee ∉ functions)
    (avoids : ∀ arg ∈ args, Avoids structs arg) (isTy : ctx.call callee args = .ok ty) :
    ctx'.call callee args = .ok ty ∧ Avoids structs ty := by
  have same : ctx'.call callee args = ctx.call callee args := by
    unfold Context.call
    rw [lacks.struct callee isStruct, lacks.function callee isFunction]
  have ofArgs : ty ∈ args ∨ ty.isScalar = true → Avoids structs ty := fun either =>
    either.elim (avoids ty) avoids_of_isScalar
  refine ⟨same.trans isTy, ?_⟩
  unfold Context.call at isTy
  split at isTy
  · rename_i target isTarget
    rw [eq_of_construct isTy]
    exact avoids_of_ofKeyword? isTarget
  · split at isTy
    · rename_i decl isDecl
      have named : decl.name = callee := beq_iff_eq.mp (List.find?_some isDecl :)
      rw [(constructStruct_eq_ok_iff.mp isTy).2, named]
      intro name isName
      rw [← Option.some.inj isName]
      exact isStruct
    · split at isTy
      · exact ofArgs (mem_or_isScalar_of_callMarker isTy)
      · split at isTy
        · rename_i f isCallee
          rw [(callFunction_eq_ok_iff.mp isTy).2]
          exact lacks.returnTys f (List.mem_of_find?_eq_some isCallee)
        · split at isTy
          · exact ofArgs (mem_or_isScalar_of_callBuiltin isTy)
          · cases isTy

theorem member (lacks : Lacks vars structs functions ctx ctx') {base ty : Ty} {field : String}
    (avoids : Avoids structs base) (isTy : ctx.member base field = .ok ty) :
    ctx'.member base field = .ok ty ∧ Avoids structs ty := by
  cases base with
  | struct name =>
      have same : ctx'.member (.struct name) field = ctx.member (.struct name) field := by
        simp only [Context.member, lacks.struct name (avoids name rfl)]
      refine ⟨same.trans isTy, ?_⟩
      rcases member_struct_eq_ok_iff.mp isTy with ⟨decl, isDecl, isField⟩
      rcases Option.map_eq_some_iff.mp isField with ⟨found, isFound, rfl⟩
      exact lacks.fieldTys decl (List.mem_of_find?_eq_some isDecl) found
        (List.mem_of_find?_eq_some isFound)
  | vector component width =>
      refine ⟨isTy, ?_⟩
      simp only [Context.member, select?] at isTy
      split at isTy
      · rename_i selected isSelected
        cases isTy
        rcases Option.bind_eq_some_iff.mp isSelected with ⟨positions, _, isTimes⟩
        have component := Scalar.component?_of_times? isTimes
        cases ty with
        | struct => cases component
        | _ =>
            intro _ isName
            cases isName
      · cases isTy
  | void | scalar =>
      simp only [Context.member, select?] at isTy
      cases isTy

/-- The names in a piece of program are none of those that are missing. -/
structure Spares (vars structs functions : List String) (names : Names) : Prop where
  referenced : ∀ name ∈ names.referenced, name ∉ vars
  called : ∀ name ∈ names.called, name ∉ structs ∧ name ∉ functions
  typed : ∀ name ∈ names.typed, name ∉ structs

namespace Spares

theorem ofExprs_iff {roots : List Expr} :
    Spares vars structs functions (Names.ofExprs roots) ↔
      ∀ e ∈ roots, Spares vars structs functions (Names.ofExpr e) := by
  constructor
  · intro spares e listed
    have fewer : [e].flatMap Expr.subexprs ⊆ roots.flatMap Expr.subexprs := by
      rw [List.flatMap_singleton]
      exact fun part isPart => List.mem_flatMap.mpr ⟨e, listed, isPart⟩
    exact ⟨fun name isName => spares.referenced name (List.filterMap_subset _ fewer isName),
      fun name isName => spares.called name (List.filterMap_subset _ fewer isName),
      fun _ isName => nomatch isName⟩
  · intro spares
    refine ⟨fun name isName => ?_, fun name isName => ?_, fun _ isName => nomatch isName⟩
    all_goals
      rcases List.mem_filterMap.mp isName with ⟨part, isPart, same⟩
      rcases List.mem_flatMap.mp isPart with ⟨e, listed, isPart⟩
      have listed' : part ∈ [e].flatMap Expr.subexprs := by rwa [List.flatMap_singleton]
    · exact (spares e listed).referenced name (List.mem_filterMap.mpr ⟨part, listed', same⟩)
    · exact (spares e listed).called name (List.mem_filterMap.mpr ⟨part, listed', same⟩)

theorem part {e part : Expr} (spares : Spares vars structs functions (Names.ofExpr e))
    (isPart : part ∈ e.subexprs) : Spares vars structs functions (Names.ofExpr part) := by
  have fewer : part.subexprs ⊆ e.subexprs := fun inner isInner =>
    Expr.mem_subexprs_trans isInner isPart
  simp only [Names.ofExpr, Names.ofExprs, List.flatMap_singleton] at spares ⊢
  exact ⟨fun name listed => spares.referenced name (List.filterMap_subset _ fewer listed),
    fun name listed => spares.called name (List.filterMap_subset _ fewer listed),
    fun _ listed => absurd listed List.not_mem_nil⟩

theorem ofShader_iff {shader : Shader} :
    Spares vars structs functions (Names.ofShader shader) ↔
      ∀ decl ∈ shader.decls, Spares vars structs functions (Names.ofDecl decl) := by
  rw [Names.ofShader]
  induction shader.decls with
  | nil =>
      refine ⟨?_, ?_⟩
      · exact fun _ _ listed => absurd listed List.not_mem_nil
      · intro _
        constructor <;> exact fun _ isName => absurd isName List.not_mem_nil
  | cons decl rest inductionHypothesis =>
      rw [List.forall_mem_cons, ← inductionHypothesis, List.foldr_cons]
      constructor
      · intro spares
        have referenced := List.forall_mem_append.mp spares.referenced
        have called := List.forall_mem_append.mp spares.called
        have typed := List.forall_mem_append.mp spares.typed
        exact ⟨⟨referenced.1, called.1, typed.1⟩, ⟨referenced.2, called.2, typed.2⟩⟩
      · rintro ⟨first, behind⟩
        exact ⟨List.forall_mem_append.mpr ⟨first.referenced, behind.referenced⟩,
          List.forall_mem_append.mpr ⟨first.called, behind.called⟩,
          List.forall_mem_append.mpr ⟨first.typed, behind.typed⟩⟩

theorem roots {decl : Decl} (spares : Spares vars structs functions (Names.ofDecl decl)) :
    ∀ e ∈ decl.roots, Spares vars structs functions (Names.ofExpr e) := by
  refine ofExprs_iff.mp ⟨?_, ?_, fun _ isName => nomatch isName⟩
  · cases decl <;> exact spares.referenced
  · cases decl <;> exact spares.called

/-- A declaration that spares structs has types other than these. -/
theorem fitDecl {decl : Decl} (spares : Spares vars structs functions (Names.ofDecl decl)) :
    FitDecl (Avoids structs) decl := by
  have typed := spares.typed
  cases decl with
  | precision => trivial
  | struct decl =>
      exact fun field isField name isName =>
        typed name (List.mem_filterMap.mpr ⟨field, isField, isName⟩)
  | global var => exact fun name isName => typed name (Option.mem_toList.mpr isName)
  | function f =>
      have typed := List.forall_mem_append.mp typed
      have ofHead := List.forall_mem_append.mp typed.1
      refine ⟨fun name isName => ofHead.1 name (Option.mem_toList.mpr isName),
        fun param isParam name isName =>
          ofHead.2 name (List.mem_filterMap.mpr ⟨param, isParam, isName⟩),
        fun s isStmt var isVar name isName => typed.2 name ?_⟩
      rw [Stmt.substmtsOfList_eq_flatMap] at isStmt
      exact List.mem_filterMap.mpr ⟨var, List.mem_filterMap.mpr ⟨s, isStmt, isVar⟩, isName⟩

end Spares

theorem typesOf_eq_of_forall {es : List Expr} {tys : List Ty}
    (parts : ∀ e ∈ es, ∀ ty, ctx.typeOf e = some ty → ctx'.typeOf e = some ty ∧ Avoids structs ty)
    (areTys : ctx.typesOf es = some tys) :
    ctx'.typesOf es = some tys ∧ ∀ ty ∈ tys, Avoids structs ty := by
  induction es generalizing tys with
  | nil =>
      cases areTys
      exact ⟨rfl, fun _ listed => nomatch listed⟩
  | cons e rest inductionHypothesis =>
      rw [List.forall_mem_cons] at parts
      rcases typesOf_cons_eq_some_iff.mp areTys with ⟨ty, others, isTy, areOthers, rfl⟩
      have first := parts.1 ty isTy
      have behind := inductionHypothesis parts.2 areOthers
      exact ⟨typesOf_cons_eq_some_iff.mpr ⟨ty, others, first.1, behind.1, rfl⟩,
        List.forall_mem_cons.mpr ⟨first.2, behind.2⟩⟩

/-- An expression has its type where something is missing that it does not name, and may be
written there if it may be written here. -/
theorem typeOf_and_mayWrite (lacks : Lacks vars structs functions ctx ctx') {e : Expr} {ty : Ty}
    (spares : Spares vars structs functions (Names.ofExpr e)) (isTy : ctx.typeOf e = some ty) :
    (ctx'.typeOf e = some ty ∧ Avoids structs ty) ∧ ctx'.mayWrite e = ctx.mayWrite e := by
  induction e using Expr.children_induction generalizing ty with
  | step e inductionHypothesis =>
      have parts : ∀ child ∈ e.children, ∀ ty, ctx.typeOf child = some ty →
          (ctx'.typeOf child = some ty ∧ Avoids structs ty) ∧
            ctx'.mayWrite child = ctx.mayWrite child :=
        fun child isChild ty isTy => inductionHypothesis child isChild (spares.part (Expr.mem_subexprs_of_mem_children isChild)) isTy
      clear inductionHypothesis
      cases e with
      | int | float | bool =>
          cases isTy
          exact ⟨⟨rfl, avoids_of_isScalar rfl⟩, rfl⟩
      | var id name =>
          have same := lacks.lookups name (spares.referenced name (by
            simp [Names.ofExpr, Names.ofExprs, Expr.subexprs, Expr.varName?]))
          rcases Option.map_eq_some_iff.mp isTy with ⟨binding, isBinding, rfl⟩
          simp only [Context.typeOf, Context.mayWrite, same, isBinding, Option.map_some, true_and,
            and_true]
          exact lacks.varTys name binding isBinding
      | paren id inner => exact parts inner List.mem_cons_self ty isTy
      | unary id op operand =>
          rcases typeOf_unary_eq_some_iff.mp isTy with ⟨isWritable, operandTy, isOperand, isUnary⟩
          have same := parts operand List.mem_cons_self operandTy isOperand
          refine ⟨⟨typeOf_unary_eq_some_iff.mpr ⟨?_, operandTy, same.1.1, isUnary⟩, ?_⟩, rfl⟩
          · rwa [same.2]
          · rcases eq_or_isScalar_of_unary isUnary with rfl | isScalar
            · exact same.1.2
            · exact avoids_of_isScalar isScalar
      | binary id op lhs rhs =>
          rcases typeOf_binary_eq_some_iff.mp isTy with ⟨lhsTy, rhsTy, isLhs, isRhs, isBinary⟩
          have sameLhs := parts lhs List.mem_cons_self lhsTy isLhs
          have sameRhs := parts rhs (by simp [Expr.children]) rhsTy isRhs
          refine ⟨⟨typeOf_binary_eq_some_iff.mpr
            ⟨lhsTy, rhsTy, sameLhs.1.1, sameRhs.1.1, isBinary⟩, ?_⟩, rfl⟩
          rcases eq_or_isScalar_of_binary? isBinary with rfl | rfl | isScalar
          · exact sameLhs.1.2
          · exact sameRhs.1.2
          · exact avoids_of_isScalar isScalar
      | assign id op target value =>
          rcases typeOf_assign_eq_some_iff.mp isTy with
            ⟨isWritable, targetTy, valueTy, isTarget, isValue, isAssign⟩
          have sameTarget := parts target List.mem_cons_self targetTy isTarget
          have sameValue := parts value (by simp [Expr.children]) valueTy isValue
          refine ⟨⟨typeOf_assign_eq_some_iff.mpr ⟨sameTarget.2.trans isWritable, targetTy, valueTy,
            sameTarget.1.1, sameValue.1.1, isAssign⟩, ?_⟩, rfl⟩
          rw [eq_of_assign isAssign]
          exact sameTarget.1.2
      | ternary id cond whenTrue whenFalse =>
          rcases typeOf_ternary_eq_some_iff.mp isTy with ⟨isCond, isTrue, isFalse⟩
          have sameCond := parts cond List.mem_cons_self _ isCond
          have sameTrue := parts whenTrue (by simp [Expr.children]) ty isTrue
          have sameFalse := parts whenFalse (by simp [Expr.children]) ty isFalse
          exact ⟨⟨typeOf_ternary_eq_some_iff.mpr ⟨sameCond.1.1, sameTrue.1.1, sameFalse.1.1⟩,
            sameTrue.1.2⟩, rfl⟩
      | call id callee args =>
          rcases typeOf_call_eq_some_iff.mp isTy with ⟨tys, areTys, isCall⟩
          have present := spares.called callee (by
            simp [Names.ofExpr, Names.ofExprs, Expr.subexprs, Expr.call?])
          have sameArgs := typesOf_eq_of_forall (fun arg isArg ty isTy => (parts arg isArg ty isTy).1)
            areTys
          have sameCall := lacks.call present.1 present.2 sameArgs.2 isCall
          exact ⟨⟨typeOf_call_eq_some_iff.mpr ⟨tys, sameArgs.1, sameCall.1⟩, sameCall.2⟩, rfl⟩
      | member id base field =>
          rcases typeOf_member_eq_some_iff.mp isTy with ⟨baseTy, isBase, isMember⟩
          have sameBase := parts base List.mem_cons_self baseTy isBase
          have sameMember := lacks.member sameBase.1.2 isMember
          refine ⟨⟨typeOf_member_eq_some_iff.mpr ⟨baseTy, sameBase.1.1, sameMember.1⟩,
            sameMember.2⟩, ?_⟩
          rw [Context.mayWrite, Context.mayWrite, sameBase.2, sameBase.1.1, isBase]
      | index id base position =>
          rcases typeOf_index_eq_some_iff.mp isTy with ⟨isPosition, component, width, isBase, rfl⟩
          have sameBase := parts base List.mem_cons_self _ isBase
          have samePosition := parts position (by simp [Expr.children]) _ isPosition
          exact ⟨⟨typeOf_index_eq_some_iff.mpr
            ⟨samePosition.1.1, component, width, sameBase.1.1, rfl⟩, avoids_of_isScalar rfl⟩, sameBase.2⟩

/-- Typed expressions that spare what is missing keep their types. -/
theorem carries {all : List Placed}
    (spares : ∀ one ∈ all, Spares vars structs functions (Names.ofExpr one.e)) :
    Carries (Lacks vars structs functions) (fun e => e) all := by
  intro one listed ctx' lacks typed
  rcases Option.isSome_iff_exists.mp typed with ⟨ty, isTy⟩
  rw [isTy]
  exact (lacks.typeOf_and_mayWrite (spares one listed) isTy).1.1

end Lacks

/-! ## What is left of a program -/

/-- The second place has the expression of the first one, with the types that it and its
parts have there. -/
structure Placed.Keeps (one other : Placed) : Prop where
  e : other.e = one.e
  typeOf : ∀ part ∈ one.e.subexprs, (one.ctx.typeOf part).isSome →
    other.ctx.typeOf part = one.ctx.typeOf part

/-- Each expression that is placed afterwards was placed before, where it has the same
types. -/
def Leaves (all left : List Placed) : Prop :=
  ∀ other ∈ left, ∃ one ∈ all, one.Keeps other

theorem Placed.Keeps.refl (one : Placed) : one.Keeps one :=
  ⟨rfl, fun _ _ _ => rfl⟩

namespace Leaves

variable {all left all' left' : List Placed}

theorem refl (all : List Placed) : Leaves all all :=
  fun one listed => ⟨one, listed, .refl one⟩

theorem nil (all : List Placed) : Leaves all [] :=
  fun _ listed => nomatch listed

theorem append (first : Leaves all left) (second : Leaves all' left') :
    Leaves (all ++ all') (left ++ left') := by
  intro other listed
  rcases List.mem_append.mp listed with inFirst | inSecond
  · rcases first other inFirst with ⟨one, isOne, keeps⟩
    exact ⟨one, List.mem_append_left _ isOne, keeps⟩
  · rcases second other inSecond with ⟨one, isOne, keeps⟩
    exact ⟨one, List.mem_append_right _ isOne, keeps⟩

theorem cons (one : Placed) (rest : Leaves all left) : Leaves (one :: all) (one :: left) :=
  (refl [one]).append rest

end Leaves

namespace Lacks

variable {vars structs functions : List String} {ctx ctx' : Context}

theorem placed_keeps {one other : Placed}
    (spares : Spares vars structs functions (Names.ofExpr one.e))
    (becomes : one.Becomes (Lacks vars structs functions) (fun e => e) other) : one.Keeps other where
  e := becomes.e
  typeOf part isPart typed := by
    rcases Option.isSome_iff_exists.mp typed with ⟨ty, isTy⟩
    rw [isTy]
    exact (becomes.ctx.typeOf_and_mayWrite (spares.part isPart) isTy).1.1

theorem leaves {all left : List Placed}
    (spares : ∀ one ∈ all, Spares vars structs functions (Names.ofExpr one.e))
    (becomes : List.Forall₂ (Placed.Becomes (Lacks vars structs functions) fun e => e) all left) :
    Leaves all left := by
  intro other listed
  rcases exists_of_mem_right becomes listed with ⟨one, isOne, isOther⟩
  exact ⟨one, isOne, placed_keeps (spares one isOne) isOther⟩

theorem persistentTop :
    PersistentTop (Avoids structs) (Lacks vars structs functions) (fun e => e) where
  toPersistent := persistent
  hasInOutGlobals lacks := by rw [lacks.version]; exact id
  taken lacks := lacks.taken
  taking name lacks := { lacks with taken := List.cons_subset_cons name lacks.taken }
  returning ty lacks := { lacks with returnTy := rfl }
  behindDecl {ctx ctx' decl} lacks fit accepted := by
    rw [Decl.mapExprs_id]
    cases decl with
    | precision => exact lacks
    | struct decl =>
        have isNew := accepted.1
        have isNew' : decl.name ∉ ctx'.taken := fun isTaken => isNew (lacks.taken isTaken)
        rw [behindDecl, behindDecl, if_neg (by simpa using isNew), if_neg (by simpa using isNew')]
        exact { lacks with
          taken := List.cons_subset_cons _ lacks.taken
          struct := fun name present => by
            have same := lacks.struct name present
            simp only [Context.struct?, List.find?_cons] at same ⊢
            rw [same]
          fieldTys := List.forall_mem_cons.mpr ⟨fit, lacks.fieldTys⟩ }
    | global var =>
        have isNew := accepted.1
        have isNew' : var.name ∉ ctx'.taken := fun isTaken => isNew (lacks.taken isTaken)
        rw [behindDecl, behindDecl, if_neg (by simpa using isNew), if_neg (by simpa using isNew')]
        have taking : Lacks vars structs functions (ctx.taking var.name) (ctx'.taking var.name) :=
          { lacks with taken := List.cons_subset_cons _ lacks.taken }
        exact taking.declared var.name fit
    | function f =>
        have isNew := accepted.notTaken
        have isNew' : f.name ∉ ctx'.taken := fun isTaken => isNew (lacks.taken isTaken)
        rw [behindDecl, behindDecl, if_neg (by simpa using isNew), if_neg (by simpa using isNew')]
        exact { lacks with
          taken := List.cons_subset_cons _ lacks.taken
          function := fun name present => by
            have same := lacks.function name present
            simp only [Context.function?, List.find?_cons] at same ⊢
            rw [same]
          returnTys := List.forall_mem_cons.mpr ⟨fit.1, lacks.returnTys⟩ }

/-- Declarations that spare what is missing are accepted without it, and keep the types of
their expressions. -/
theorem acceptsDecls (lacks : Lacks vars structs functions ctx ctx') {decls : List Decl}
    (spares : ∀ decl ∈ decls, Spares vars structs functions (Names.ofDecl decl))
    (accepted : ctx.AcceptsDecls decls) :
    ctx'.AcceptsDecls decls ∧ Leaves (ctx.placedDecls decls) (ctx'.placedDecls decls) := by
  have sparesPlaced : ∀ one ∈ ctx.placedDecls decls,
      Spares vars structs functions (Names.ofExpr one.e) := by
    intro one listed
    have isRoot := List.mem_map_of_mem (f := Placed.e) listed
    rw [map_e_placedDecls] at isRoot
    rcases List.mem_flatMap.mp isRoot with ⟨decl, isDecl, isRoot⟩
    exact (spares decl isDecl).roots one.e isRoot
  have both := persistentTop.acceptsDecls lacks (fun decl isDecl => (spares decl isDecl).fitDecl)
    (carries sparesPlaced) accepted
  have unchanged : decls.map (Decl.mapExprs fun e => e) = decls := by
    rw [funext Decl.mapExprs_id, List.map_id']
  rw [unchanged] at both
  exact ⟨both.1, leaves sparesPlaced both.2⟩

theorem behindDecls (lacks : Lacks vars structs functions ctx ctx') {decls : List Decl}
    (spares : ∀ decl ∈ decls, Spares vars structs functions (Names.ofDecl decl))
    (accepted : ctx.AcceptsDecls decls) :
    Lacks vars structs functions (ctx.behindDecls decls) (ctx'.behindDecls decls) := by
  induction decls generalizing ctx ctx' with
  | nil => exact lacks
  | cons decl rest inductionHypothesis =>
      rw [List.forall_mem_cons] at spares
      have behind := persistentTop.behindDecl lacks spares.1.fitDecl accepted.1
      rw [Decl.mapExprs_id] at behind
      exact inductionHypothesis behind spares.2 accepted.2

/-- The top level starts with values of no struct. -/
theorem initial (version : Version) (vars structs functions : List String) :
    Lacks vars structs functions (.initial version) (.initial version) where
  version := rfl
  returnTy := rfl
  loops := rfl
  switches := rfl
  taken := List.Subset.refl _
  free _ isFree := isFree
  lookups _ _ := rfl
  struct _ _ := rfl
  function _ _ := rfl
  varTys name binding isBinding := by
    rcases List.exists_of_findSome?_eq_some isBinding with ⟨scope, isScope, found⟩
    rw [List.mem_singleton.mp isScope] at found
    rcases List.lookup_eq_some_iff.mp found with ⟨before, behind, split, _⟩
    have listed : (name, binding) ∈ (Context.initial version).inner := by
      rw [split]
      exact List.mem_append_right _ List.mem_cons_self
    have vectors : ∀ one ∈ predefined version, one.2.ty.isVector = true := by
      cases version <;> decide
    exact avoids_of_isVector (vectors _ listed)
  fieldTys _ listed := nomatch listed
  returnTys _ listed := nomatch listed

/-- In front of its declaration, a variable is missing. -/
theorem undeclared (lacks : Lacks vars structs functions ctx ctx') {name : String} {binding : Binding}
    (isMissing : name ∈ vars) (avoids : Avoids structs binding.ty) :
    Lacks vars structs functions (ctx.declared name binding) ctx' := by
  unfold Context.declared
  split
  · exact lacks
  · exact { lacks with
      free := fun other isFree => by
        rw [bound, List.lookup_cons] at isFree
        split at isFree
        · cases isFree
        · exact lacks.free other isFree
      lookups := fun other present => by
        have differ : other ≠ name := fun same => present (same ▸ isMissing)
        rw [lookup?_bound, if_neg differ, lacks.lookups other present]
      varTys := fun other found isBinding => by
        rw [lookup?_bound] at isBinding
        split at isBinding
        · cases isBinding
          exact avoids
        · exact lacks.varTys other found isBinding }

/-- What a declaration declares is among the things that are missing. -/
def Declares (vars structs functions : List String) : Decl → Prop
  | .precision _ => False
  | .struct decl => decl.name ∈ structs
  | .global var => var.name ∈ vars
  | .function f => f.name ∈ functions

/-- In front of a declaration, what it declares is missing. -/
theorem behindDecl (lacks : Lacks vars structs functions ctx ctx) {decl : Decl}
    (declares : Declares vars structs functions decl) (fit : FitDecl (Avoids structs) decl)
    (accepted : ctx.AcceptsDecl decl) :
    Lacks vars structs functions (ctx.behindDecl decl) ctx := by
  cases decl with
  | precision => cases declares
  | struct decl =>
      rw [Context.behindDecl, if_neg (by simpa using accepted.1)]
      exact { lacks with
        taken := List.subset_cons_self _ _
        struct := fun name present => by
          have other : decl.name ≠ name := fun same => present (same ▸ declares)
          simp [Context.struct?, other]
        fieldTys := List.forall_mem_cons.mpr ⟨fit, lacks.fieldTys⟩ }
  | global var =>
      rw [Context.behindDecl, if_neg (by simpa using accepted.1)]
      have taking : Lacks vars structs functions (ctx.taking var.name) ctx :=
        { lacks with taken := List.subset_cons_self _ _ }
      exact taking.undeclared declares fit
  | function f =>
      rw [Context.behindDecl, if_neg (by simpa using accepted.notTaken)]
      exact { lacks with
        taken := List.subset_cons_self _ _
        function := fun name present => by
          have other : f.name ≠ name := fun same => present (same ▸ declares)
          simp [Context.function?, other]
        returnTys := List.forall_mem_cons.mpr ⟨fit.1, lacks.returnTys⟩ }

end Lacks
end Context
end Check
end Whittle
