import Whittle.Proofs.Typing.Dropping
import Whittle.Proofs.Typing.Narrowing

namespace Whittle

/-!
# Types where a function has one parameter fewer

A parameter that the body of its function does not refer to can leave the function, and
its argument leaves every call.  The body does without the variable.  Behind the function
each call that is still there has the type it had, whatever else its arguments lose.
-/

/-- A parameter of a function. -/
structure Trimming where
  f : Function
  position : Nat
  param : Param
  isParam : f.params[position]? = some param
  isUnclaimed : IsUnclaimed f.name

namespace Trimming

/-- The function without the parameter. -/
def trimmed (plan : Trimming) : Function :=
  { plan.f with params := plan.f.params.eraseIdx plan.position }

open Check Check.Context
open Narrowing (shortened shortened_call shortened_of_calls_eq_false exists_of_calls)

/-- The second context has the function without the parameter.  The name of the function
stands for nothing else, and the contexts are the same otherwise, up to the bodies of
functions. -/
structure Trims (plan : Trimming) (ctx ctx' : Context) : Prop where
  version : ctx'.version = ctx.version
  returnTy : ctx'.returnTy = ctx.returnTy
  loops : ctx'.loops = ctx.loops
  switches : ctx'.switches = ctx.switches
  taken : ctx'.taken = ctx.taken
  inner : ctx'.inner = ctx.inner
  outer : ctx'.outer = ctx.outer
  structs : ctx'.structs = ctx.structs
  functions : ∀ name, name ≠ plan.f.name →
    Option.Rel Function.HeadsAlike (ctx.function? name) (ctx'.function? name)
  isTaken : plan.f.name ∈ ctx.taken
  noStruct : ctx.struct? plan.f.name = none
  isFunction : ctx.function? plan.f.name = some plan.f
  isTrimmed : ctx'.function? plan.f.name = some plan.trimmed

namespace Trims

variable {plan : Trimming} {ctx ctx' : Context}

theorem lookup? (trims : plan.Trims ctx ctx') (name : String) :
    ctx'.lookup? name = ctx.lookup? name := by
  rw [Context.lookup?, Context.lookup?, trims.inner, trims.outer]

theorem struct? (trims : plan.Trims ctx ctx') (name : String) :
    ctx'.struct? name = ctx.struct? name := by
  rw [Context.struct?, Context.struct?, trims.structs]

theorem persistent (plan : Trimming) : Persistent (fun _ => True) plan.Trims where
  hasSwitch trims := by rw [trims.version]; exact id
  returnTy trims := trims.returnTy
  loops trims := trims.loops
  switches trims := trims.switches
  free trims isFree := ⟨isFree.1, trims.inner ▸ isFree.2⟩
  knows trims _ known := known.of_structs fun name _ isKnown => by rwa [trims.struct? name]
  opened trims := { trims with inner := rfl, outer := by rw [opened, opened, trims.inner, trims.outer] }
  inLoop trims := { trims with loops := congrArg (· + 1) trims.loops }
  inSwitch trims := { trims with switches := congrArg (· + 1) trims.switches }
  declared {ctx ctx'} name binding trims _ := by
    unfold Context.declared
    split
    · exact trims
    · exact { trims with inner := congrArg ((name, binding) :: ·) trims.inner }

theorem call_eq (trims : plan.Trims ctx ctx') {callee : String} (isOther : callee ≠ plan.f.name)
    (args : List Ty) : ctx'.call callee args = ctx.call callee args := by
  unfold Context.call
  rw [trims.struct? callee]
  rcases option_rel_cases (trims.functions callee isOther) with
    ⟨isMissing, isMissing'⟩ | ⟨f, f', isFunction, isFunction', same⟩
  · rw [isMissing, isMissing']
  · rw [isFunction, isFunction']
    dsimp only
    rw [callFunction_congr same args]

theorem member_eq (trims : plan.Trims ctx ctx') (base : Ty) (field : String) :
    ctx'.member base field = ctx.member base field :=
  member_eq_of_structs trims.struct? base field

theorem call_name (unclaimed : IsUnclaimed plan.f.name) {ctx : Context} {f : Function}
    (noStruct : ctx.struct? plan.f.name = none) (isFunction : ctx.function? plan.f.name = some f)
    (args : List Ty) : ctx.call plan.f.name args = callFunction f args := by
  simp only [Context.call, unclaimed.1, noStruct, unclaimed.2.1, isFunction]

/-- A call of the function without the argument of the parameter. -/
theorem typeOf_call (trims : plan.Trims ctx ctx') {change : Expr → Expr} {id : NodeId}
    {args : List Expr} (typed : (ctx.typeOf (.call id plan.f.name args)).isSome)
    (same : ∀ arg ∈ args, ctx'.typeOf (change arg) = ctx.typeOf arg) :
    ctx'.typeOf (.call id plan.f.name ((args.eraseIdx plan.position).map change)) =
      ctx.typeOf (.call id plan.f.name args) := by
  rcases Option.isSome_iff_exists.mp typed with ⟨ty, isTy⟩
  rcases typeOf_call_eq_some_iff.mp isTy with ⟨tys, areTys, isCall⟩
  rw [call_name plan.isUnclaimed trims.noStruct trims.isFunction, callFunction_eq_ok_iff] at isCall
  rcases isCall with ⟨rfl, rfl⟩
  rw [isTy, typeOf_call_eq_some_iff]
  refine ⟨plan.trimmed.params.map Param.ty, ?_, ?_⟩
  · have areTys : (args.eraseIdx plan.position).map ctx.typeOf =
        (plan.trimmed.params.map Param.ty).map some := by
      rw [trimmed, ← List.eraseIdx_map, ← List.eraseIdx_map, ← List.eraseIdx_map,
        typesOf_eq_some_iff.mp areTys]
    rw [typesOf_eq_some_iff, ← areTys, List.map_map]
    exact List.map_congr_left fun arg listed => same arg (List.mem_of_mem_eraseIdx listed)
  · rw [call_name plan.isUnclaimed ((trims.struct? _).trans trims.noStruct) trims.isTrimmed]
    exact callFunction_eq_ok_iff.mpr ⟨rfl, rfl⟩

/-- A typed expression keeps its type where the function has lost the parameter, and is a
location if it was one. -/
theorem typeOf_and_mayWrite (trims : plan.Trims ctx ctx') {e : Expr} (typed : (ctx.typeOf e).isSome) :
    ctx'.typeOf (shortened plan.f.name plan.position e) = ctx.typeOf e ∧
      ctx'.mayWrite (shortened plan.f.name plan.position e) = ctx.mayWrite e := by
  induction e using Expr.children_induction with
  | step e inductionHypothesis =>
      have children : ∀ child ∈ e.children,
          ctx'.typeOf (shortened plan.f.name plan.position child) = ctx.typeOf child ∧
            ctx'.mayWrite (shortened plan.f.name plan.position child) = ctx.mayWrite child :=
        fun child isChild => inductionHypothesis child isChild
          (isSome_of_mem_subexprs typed (Expr.mem_subexprs_of_mem_children isChild))
      have typedChildren := fun child isChild => (children child isChild).1
      cases calls : e.calls plan.f.name with
      | true =>
          rcases exists_of_calls calls with ⟨id, args, rfl⟩
          rw [shortened_call]
          exact ⟨trims.typeOf_call typed typedChildren, rfl⟩
      | false =>
          rw [shortened_of_calls_eq_false calls]
          refine ⟨typeOf_mapChildren (fun name _ => trims.lookup? name) ?_
              (fun _ _ field ty _ _ => trims.member_eq ty field) typedChildren
              fun operand isWritten => (children operand (Expr.mem_children_of_written? isWritten)).2,
            mayWrite_mapChildren (fun name _ => trims.lookup? name) typedChildren
              fun child isChild _ => (children child isChild).2⟩
          rintro id callee args tys rfl _
          refine trims.call_eq (fun same => ?_) tys
          cases calls.symm.trans (beq_iff_eq.mpr same)

theorem carries (plan : Trimming) (all : List Placed) :
    Carries plan.Trims (shortened plan.f.name plan.position) all :=
  fun _ _ _ trims typed => (trims.typeOf_and_mayWrite typed).1

/-- Behind another function the function is found as before. -/
theorem function?_cons (plan : Trimming) {g : Function} (isOther : g.name ≠ plan.f.name)
    (functions : List Function) :
    { ctx with functions := g :: functions }.function? plan.f.name =
      { ctx with functions }.function? plan.f.name := by
  simp [Context.function?, isOther]

theorem ne_of_notMem_taken (trims : plan.Trims ctx ctx') {name : String} (isNew : name ∉ ctx.taken) :
    name ≠ plan.f.name := fun same => isNew (same ▸ trims.isTaken)

theorem taking (trims : plan.Trims ctx ctx') (name : String) :
    plan.Trims (ctx.taking name) (ctx'.taking name) :=
  { trims with
    taken := congrArg (name :: ·) trims.taken
    isTaken := List.mem_cons_of_mem _ trims.isTaken }

theorem behindStruct (trims : plan.Trims ctx ctx') {decl : StructDecl} (isNew : decl.name ∉ ctx.taken) :
    plan.Trims { ctx.taking decl.name with structs := decl :: ctx.structs }
      { ctx'.taking decl.name with structs := decl :: ctx'.structs } :=
  { trims.taking decl.name with
    structs := congrArg (decl :: ·) trims.structs
    noStruct := by
      have noStruct := trims.noStruct
      have isOther := beq_eq_false_iff_ne.mpr (trims.ne_of_notMem_taken isNew)
      simp only [Context.struct?, List.find?_cons, isOther] at noStruct ⊢
      exact noStruct }

theorem behindFunction (trims : plan.Trims ctx ctx') {g : Function} (isNew : g.name ∉ ctx.taken)
    (stmts : List Stmt) :
    plan.Trims { ctx.taking g.name with functions := g :: ctx.functions }
      { ctx'.taking g.name with functions := g.withStmts stmts :: ctx'.functions } := by
  have isOther := trims.ne_of_notMem_taken isNew
  have isOther' : (g.withStmts stmts).name ≠ plan.f.name := isOther
  exact { trims.taking g.name with
    functions := fun name isOtherName => by
      have related := trims.functions name isOtherName
      simp only [Context.function?, List.find?_cons] at related ⊢
      cases same : g.name == name with
      | true =>
          have same' : ((g.withStmts stmts).name == name) = true := same
          rw [same']
          exact .some ⟨rfl, rfl, rfl⟩
      | false =>
          have same' : ((g.withStmts stmts).name == name) = false := same
          rw [same']
          exact related
    isFunction := (function?_cons plan isOther ctx.functions).trans trims.isFunction
    isTrimmed := (function?_cons plan isOther' ctx'.functions).trans trims.isTrimmed }

theorem persistentTop (plan : Trimming) :
    PersistentTop (fun _ => True) plan.Trims (shortened plan.f.name plan.position) where
  toPersistent := persistent plan
  hasInOutGlobals trims := by rw [trims.version]; exact id
  taken trims := by rw [trims.taken]; exact List.Subset.refl _
  taking name trims := trims.taking name
  returning ty trims := { trims with returnTy := rfl }
  behindDecl {ctx ctx' decl} trims _ accepted := by
    -- What is new in the first context is new in the second one, where the same names are taken.
    have isNew' : ∀ {name}, name ∉ ctx.taken → ¬ (ctx'.taken.contains name = true) := by
      intro name isNew
      rw [trims.taken]
      simpa using isNew
    cases decl with
    | precision => exact trims
    | struct decl =>
        have isNew := accepted.1
        rw [Decl.mapExprs, behindDecl, behindDecl, if_neg (by simpa using isNew),
          if_neg (by exact isNew' isNew)]
        exact trims.behindStruct isNew
    | global var =>
        have isNew := accepted.1
        rw [Decl.mapExprs, behindDecl, behindDecl, if_neg (by simpa using isNew),
          if_neg (by exact isNew' isNew)]
        exact (persistent plan).behindVar (trims.taking var.name) trivial
    | function g =>
        have isNew := accepted.notTaken
        rw [Decl.mapExprs, behindDecl, behindDecl, if_neg (by simpa using isNew),
          if_neg (by exact isNew' isNew)]
        exact trims.behindFunction isNew _

/-- Where the function is declared, the parameter may be missing. -/
theorem of_behindDecl (plan : Trimming) (isNew : plan.f.name ∉ ctx.taken)
    (noStruct : ctx.struct? plan.f.name = none) :
    plan.Trims (ctx.behindDecl (.function plan.f)) (ctx.behindDecl (.function plan.trimmed)) := by
  have isNew' : plan.trimmed.name ∉ ctx.taken := isNew
  rw [behindDecl, behindDecl, if_neg (by simpa using isNew), if_neg (by simpa using isNew')]
  exact
    { version := rfl
      returnTy := rfl
      loops := rfl
      switches := rfl
      taken := rfl
      inner := rfl
      outer := rfl
      structs := rfl
      functions := fun name isOther => by
        have differ : (plan.f.name == name) = false := beq_eq_false_iff_ne.mpr isOther.symm
        have differ' : (plan.trimmed.name == name) = false := differ
        simp only [Context.function?, List.find?_cons, differ, differ']
        exact (AlikeBy.function? (Alike.refl ctx) name)
      isTaken := List.mem_cons_self
      noStruct := noStruct
      isFunction := List.find?_cons_of_pos (beq_self_eq_true plan.f.name)
      isTrimmed := List.find?_cons_of_pos (beq_self_eq_true plan.f.name) }

end Trims

open Reduction (Names)

/-- The body does without a variable to which it does not refer. -/
theorem accepts_trimmed (plan : Trimming) {ctx : Context}
    (unused : plan.param.name ∉ (Names.ofFunction plan.f).referenced)
    (accepted : ctx.AcceptsFunction plan.f) :
    ctx.AcceptsFunction plan.trimmed ∧
      Leaves ((ctx.inFunction plan.f).placedList plan.f.body.stmts)
        ((ctx.inFunction plan.trimmed).placedList plan.f.body.stmts) := by
  have missing := (Lacks.refl [plan.param.name] [] ctx.opened).behindParams_eraseIdx plan.isParam
    List.mem_cons_self accepted.params
  have spares : SparesPlaced [plan.param.name]
      ((ctx.inFunction plan.f).placedList plan.f.body.stmts) := by
    have ofBody : Lacks.Spares [plan.param.name] [] []
        (Names.ofExprs (plan.f.body.stmts.flatMap Stmt.roots)) :=
      { referenced := fun name listed isParam => unused (List.mem_singleton.mp isParam ▸ listed)
        called := fun _ _ => ⟨List.not_mem_nil, List.not_mem_nil⟩
        typed := fun _ _ => List.not_mem_nil }
    exact sparesPlaced_placedList (Lacks.Spares.ofExprs_iff.mp ofBody) _
  have carried := Carried.of_lacks
    (Lacks.persistentTop.returning plan.f.returnTy missing.2) spares accepted.body
  exact ⟨{ accepted with
    params := missing.1
    body := carried.accepted }, carried.leaves⟩

end Trimming
end Whittle
