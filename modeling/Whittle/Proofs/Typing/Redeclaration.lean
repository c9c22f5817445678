import Mathlib.Algebra.Order.BigOperators.Group.List
import Mathlib.Algebra.Order.Group.Nat
import Whittle.Proofs.Typing.Congruence
import Whittle.Proofs.Typing.Visibility

namespace Whittle

/-!
# Local variables in the place of others

A local variable may make room for others whose names are new, if nothing refers to it
afterwards.  The new ones are declared in front of it, the expressions change, and then
the old one is dropped.  Each of these steps keeps to the rules as long as the change
keeps types where the old variable and the new ones are in scope together.  Renaming a
variable is the plainest case, and by a name between the two, a variable may also make
room for another one of the same name.
-/

namespace Expr

variable {old new : String} {e : Expr}

/-- A reference by the old name becomes one by the new name. -/
def renamedVar (old new : String) : Expr → Expr
  | .var id name => .var id (if name = old then new else name)
  | e => e

def renamed (old new : String) : Expr → Expr :=
  rewrite (renamedVar old new)

theorem varName?_mapChildren (change : Expr → Expr) (e : Expr) :
    (e.mapChildren change).varName? = e.varName? := by
  cases e <;> rfl

theorem renamed_var (id : NodeId) : (Expr.var id old).renamed old new = .var id new :=
  congrArg (Expr.var id) (if_pos rfl)

theorem renamed_eq_mapChildren (noUse : e.varName? ≠ some old) :
    e.renamed old new = e.mapChildren (renamed old new) := by
  rw [renamed, rewrite_eq]
  cases e with
  | var id name => exact congrArg (Expr.var id) (if_neg fun same => noUse (congrArg some same))
  | _ => rfl

/-- No reference by the old name is left. -/
theorem varName?_ne_of_mem_renamed (differ : new ≠ old) {part : Expr}
    (isPart : part ∈ (e.renamed old new).subexprs) : part.varName? ≠ some old := by
  have changes : ∀ part ∈ e.subexprs, part.varName? = some old ∨
      part.renamed old new = part.mapChildren (renamed old new) :=
    fun part _ => (Classical.em _).imp_right renamed_eq_mapChildren
  have changed : ∀ id, (Expr.var id new).varName? ≠ some old :=
    fun _ same => differ (Option.some.inj same)
  rcases exists_of_mem_subexprs_change changes isPart with ⟨before, _, rfl | ⟨isVar, isPart⟩⟩
  · by_cases isVar : before.varName? = some old
    · cases before <;> cases isVar
      rw [renamed_var]
      exact changed _
    · rwa [renamed_eq_mapChildren isVar, varName?_mapChildren]
  · cases before <;> cases isVar
    rw [renamed_var] at isPart
    rw [List.mem_singleton.mp isPart]
    exact changed _

/-- Under a new name nothing gets lost. -/
theorem renamed_renamed (isNew : ∀ part ∈ e.subexprs, part.varName? ≠ some new) :
    (e.renamed old new).renamed new old = e := by
  induction e using children_induction with
  | step e inductionHypothesis =>
      by_cases isVar : e.varName? = some old
      · cases e <;> cases isVar
        rw [renamed_var, renamed_var]
      · have noUse : (e.mapChildren (renamed old new)).varName? ≠ some new := by
          rw [varName?_mapChildren]
          exact isNew e e.self_mem_subexprs
        rw [renamed_eq_mapChildren isVar, renamed_eq_mapChildren noUse, mapChildren_mapChildren]
        exact mapChildren_eq_self fun child isChild => inductionHypothesis child isChild
          fun part isPart => isNew part
            (mem_subexprs_trans isPart (mem_subexprs_of_mem_children isChild))

end Expr

/-- There is a name besides any others that the language does not keep for itself. -/
theorem Check.exists_notReserved_notMem (names : List String) :
    ∃ name, isReservedName name = false ∧ name ∉ names := by
  let longer := (names.map String.length).sum + 1
  refine ⟨String.ofList (List.replicate longer 'x'), ?_, fun listed => ?_⟩
  · rw [isReservedName, String.toList_ofList]
    rfl
  · have bound := List.le_sum_of_mem (List.mem_map_of_mem (f := String.length) listed)
    rw [String.length_ofList, List.length_replicate] at bound
    omega

namespace Check.Context

variable {ctx : Context} {change : Expr → Expr}

/-- A typed expression keeps its type, and whether it may be written, if that is so for some
of its parts and the others change in their operands alone.  What is within a part of the
first kind may change in any way. -/
theorem typeOf_and_mayWrite_change {kept : Expr → Prop} {e : Expr} (isKept : kept e)
    (typed : (ctx.typeOf e).isSome)
    (changes : ∀ part ∈ e.subexprs, kept part → (ctx.typeOf part).isSome →
      ctx.typeOf (change part) = ctx.typeOf part ∧ ctx.mayWrite (change part) = ctx.mayWrite part ∨
        change part = part.mapChildren change ∧ ∀ child ∈ part.children, kept child) :
    ctx.typeOf (change e) = ctx.typeOf e ∧ ctx.mayWrite (change e) = ctx.mayWrite e := by
  induction e using Expr.children_induction with
  | step e inductionHypothesis =>
      rcases changes e e.self_mem_subexprs isKept typed with same | ⟨changed, areKept⟩
      · exact same
      · rw [changed]
        refine (Alike.refl ctx).typeOf_mapChildren (fun _ _ _ _ _ _ => rfl)
          (fun _ _ _ _ _ _ => rfl) fun child isChild => ?_
        exact inductionHypothesis child isChild (areKept child isChild)
          (isSome_of_mem_children typed isChild) fun part isPart =>
            changes part (Expr.mem_subexprs_trans isPart (Expr.mem_subexprs_of_mem_children isChild))

/-- What has a type refers to nothing that is not in scope. -/
theorem varName?_ne_of_lookup? {name : String} (hidden : ctx.lookup? name = none) {e part : Expr}
    (typed : (ctx.typeOf e).isSome) (isPart : part ∈ e.subexprs) : part.varName? ≠ some name := by
  intro isVar
  have typed := isSome_of_mem_subexprs typed isPart
  cases part <;> cases isVar
  rw [typeOf, hidden] at typed
  cases typed

/-- References to a variable may become references to another one that is in scope with it
and that is the same otherwise. -/
theorem typeOf_renamed {old new : String} (same : ctx.lookup? old ≠ none →
    ctx.lookup? new = ctx.lookup? old) {e : Expr} (typed : (ctx.typeOf e).isSome) :
    ctx.typeOf (e.renamed old new) = ctx.typeOf e := by
  refine (@typeOf_and_mayWrite_change ctx _ (fun _ => True) e trivial typed
    fun part _ _ typed => ?_).1
  by_cases isVar : part.varName? = some old
  · cases part <;> cases isVar
    rw [Expr.renamed_var]
    have inScope : ctx.lookup? old ≠ none := by
      intro isHidden
      rw [typeOf, isHidden] at typed
      cases typed
    exact .inl ⟨congrArg (Option.map Binding.ty) (same inScope),
      congrArg (Option.any Binding.writable) (same inScope)⟩
  · exact .inr ⟨Expr.renamed_eq_mapChildren isVar, fun _ _ => trivial⟩

/-- Where the first variable is in scope, the second one is as well. -/
def Shows (old new : VarDecl) (see : String → Option Binding) : Prop :=
  see old.name = none ∨ see old.name = some ⟨old.ty, isWritable old.qualifier⟩ ∧
    see new.name = some ⟨new.ty, isWritable new.qualifier⟩

theorem stable_shows (old new : VarDecl) :
    Stable (fun name => name ≠ old.name ∧ name ≠ new.name) (Shows old new) := by
  rintro see name binding ⟨notOld, notNew⟩ shows
  refine shows.imp (fun isHidden => ?_) fun both => ⟨?_, ?_⟩
  · exact (if_neg notOld.symm).trans isHidden
  · exact (if_neg notOld.symm).trans both.1
  · exact (if_neg notNew.symm).trans both.2

end Check.Context

namespace Shader

open Check (Context)
open Reduction (Names)

variable {shader edited : Shader} {version : Version} {spot : Spot} {change : Expr → Expr}
  {id : NodeId} {old : VarDecl}

section

variable (follows : shader.FollowsRules version) (isAt : shader.decls = spot.fill [.decl id old])
  (sole : old.name ∉ Decl.declaredNames (spot.fill []))
include follows isAt sole

/-- In front of the declaration of the only variable of a name, the name stands for nothing. -/
theorem lookup?_ctx_eq_none : (spot.ctx version).lookup? old.name = none :=
  spot.stable_ctx (Context.stable_at old.name (· = none))
    (Context.lookup?_initial (acceptsList_at follows isAt).1.2.free.1 version)
    (Spot.declaresAround_of_fill fun _ listed same => sole (same ▸ listed))

/-- So its initialiser makes no use of it. -/
theorem varName?_ne_of_mem_init {init part : Expr} (isInit : init ∈ old.init)
    (isPart : part ∈ init.subexprs) : part.varName? ≠ some old.name := by
  have isTy := (acceptsList_at follows isAt).1.2.initialised init isInit
  exact Context.varName?_ne_of_lookup? (lookup?_ctx_eq_none follows isAt sole)
    (Option.isSome_of_eq_some isTy) isPart

/-- Anywhere else the name stands for the variable, if it is in scope. -/
theorem allAt_lookup? : Context.AllAt (fun ctx => ctx.lookup? old.name = none ∨
    ctx.lookup? old.name = some ⟨old.ty, Check.isWritable old.qualifier⟩) (shader.placed version) := by
  have notReserved := (acceptsList_at follows isAt).1.2.free.1
  rw [placed, isAt]
  refine spot.allAt_placedDecls_fill (Context.stable_at old.name fun found => found = none ∨
      found = some ⟨old.ty, Check.isWritable old.qualifier⟩)
    (.inl (Context.lookup?_initial notReserved version))
    (Spot.declaresAround_of_fill fun _ listed same => sole (same ▸ listed)) ?_ (.inr ?_)
  · exact Context.allAt_append.mpr ⟨Context.allAt_placedOption
      (.inl (lookup?_ctx_eq_none follows isAt sole)) old.init, List.forall_mem_nil _⟩
  · exact (Context.lookup?_declared ..).trans (if_pos ⟨notReserved, rfl⟩)

end

/-- Every reference to the only variable of a name has its type. -/
theorem types_var {types : TypeTable} (checked : shader.check version = .ok types)
    (isAt : shader.decls = spot.fill [.decl id old])
    (sole : old.name ∉ Decl.declaredNames (spot.fill [])) {varId : NodeId}
    (listed : .var varId old.name ∈ shader.exprs) : types[varId]? = some old.ty := by
  rcases (@mem_exprs_iff shader version _).mp listed with ⟨one, isPlaced, isPart⟩
  have typed := types_eq_typeOf checked isPlaced isPart
  rcases allAt_lookup? (isValid_iff.mp ⟨types, checked⟩).2 isAt sole one isPlaced with hidden | stands
  · exact absurd rfl (Context.varName?_ne_of_lookup? hidden typed.1 (Expr.self_mem_subexprs _))
  · refine typed.2.trans ?_
    rw [Context.typeOf, stands]
    rfl

/-! ## Making room -/

/-- A local variable may make room for a run of statements. -/
theorem followsRules_exchange {run : List Stmt} (follows : shader.FollowsRules version)
    (isAt : shader.decls = spot.fill [.decl id old])
    (isEdited : edited.decls = (spot.fill run).map (Decl.mapExprs change))
    (areNew : ∀ name ∈ Stmt.declaredBy run,
      name ∉ (Names.ofShader shader).referenced ∧ name ∉ (Names.ofShader shader).declared)
    (isGone : old.name ∉ (Names.ofShader edited).referenced ∧
      old.name ∉ (Names.ofShader edited).declared)
    (accepted : (spot.ctx version).AcceptsList run) (notEmpty : run ≠ [])
    (noReturn : run.any Stmt.holdsReturn = false)
    (retypes : ∀ one ∈ (Context.initial version).placedDecls (spot.fill (run ++ [.decl id old])),
      (one.ctx.typeOf one.e).isSome → one.ctx.typeOf (change one.e) = one.ctx.typeOf one.e) :
    edited.FollowsRules version := by
  let both : Shader := { shader with decls := spot.fill (run ++ [.decl id old]) }
  have followsBoth : both.FollowsRules version :=
    (@followsRules_insert_iff shader spot run version both [] [.decl id old] isAt rfl
      (unmentioned_fill isAt areNew) (List.cons_ne_nil _ _) noReturn).mpr ⟨follows, accepted⟩
  have followsChanged : (both.mapExprs change).FollowsRules version := by
    refine (both.alike_mapExprs.followsRules_iff ?_).mp followsBoth
    rintro one listed _ rfl
    exact retypes one listed (followsBoth.decls.allTyped one listed)
  have isChanged : (both.mapExprs change).decls = (spot.mapExprs change).fill
      (Stmt.mapExprsList change run ++ ([.decl id (old.mapExprs change)] ++ [])) := by
    rw [mapExprs, Spot.map_mapExprs_fill, Stmt.mapExprsList_append]
    rfl
  have isLeft : edited.decls = (spot.mapExprs change).fill (Stmt.mapExprsList change run ++ []) := by
    rw [isEdited, Spot.map_mapExprs_fill, List.append_nil]
  have quiet := unmentioned_fill isLeft fun name (listed : name ∈ [old.name]) =>
    List.mem_singleton.mp listed ▸ isGone
  refine ((followsRules_insert_iff isLeft isChanged quiet ?_ rfl).mp followsChanged).1
  rw [List.append_nil]
  cases run with
  | nil => exact absurd rfl notEmpty
  | cons s rest => exact List.cons_ne_nil _ _

section

variable {id' : NodeId} {new : VarDecl}

/-- A local variable may make room for another one. -/
theorem followsRules_exchangeVar (follows : shader.FollowsRules version)
    (isAt : shader.decls = spot.fill [.decl id old])
    (isEdited : edited.decls = (spot.fill [.decl id' new]).map (Decl.mapExprs change))
    (isNew : new.name ∉ (Names.ofShader shader).referenced ∧
      new.name ∉ (Names.ofShader shader).declared)
    (isGone : old.name ∉ (Names.ofShader edited).referenced ∧
      old.name ∉ (Names.ofShader edited).declared)
    (accepted : (spot.ctx version).Accepts (.decl id' new))
    (retypes : ∀ one ∈ (Context.initial version).placedDecls
      (spot.fill [.decl id' new, .decl id old]), Context.Shows old new one.ctx.lookup? →
        (one.ctx.typeOf one.e).isSome → one.ctx.typeOf (change one.e) = one.ctx.typeOf one.e) :
    edited.FollowsRules version := by
  have notDeclared := isNew.2
  have notDeclared' := isGone.2
  rw [Names.declared_ofShader, isAt, Decl.mem_declaredNames_fill_iff, not_or] at notDeclared
  rw [Names.declared_ofShader, isEdited, Decl.declaredNames_mapExprs,
    Decl.mem_declaredNames_fill_iff, not_or] at notDeclared'
  have differ : old.name ≠ new.name := fun same => notDeclared.2 (same ▸ List.mem_cons_self)
  have around : spot.DeclaresAround fun name => name ≠ old.name ∧ name ≠ new.name :=
    Spot.declaresAround_of_fill fun name listed =>
      ⟨fun same => notDeclared'.1 (same ▸ listed), fun same => notDeclared.1 (same ▸ listed)⟩
  have notReserved := (acceptsList_at follows isAt).1.2.free.1
  have stable := Context.stable_shows old new
  have hidden := lookup?_ctx_eq_none follows isAt notDeclared'.1
  have hidden' : ((spot.ctx version).behindVar new).lookup? old.name = none :=
    (Context.lookup?_declared ..).trans ((if_neg fun both => differ both.2).trans hidden)
  have shows : Context.AllAt (fun ctx => Context.Shows old new ctx.lookup?)
      ((Context.initial version).placedDecls (spot.fill [.decl id' new, .decl id old])) := by
    refine spot.allAt_placedDecls_fill stable (.inl (Context.lookup?_initial notReserved version))
      around ?_ (.inr ⟨?_, ?_⟩)
    · refine Context.allAt_append.mpr ⟨Context.allAt_placedOption (.inl hidden) new.init, ?_⟩
      exact Context.allAt_append.mpr ⟨Context.allAt_placedOption (.inl hidden') old.init,
        fun _ impossible => absurd impossible List.not_mem_nil⟩
    · exact (Context.lookup?_declared ..).trans (if_pos ⟨notReserved, rfl⟩)
    · refine (Context.lookup?_declared ..).trans ((if_neg fun both => differ both.2.symm).trans ?_)
      exact (Context.lookup?_declared ..).trans (if_pos ⟨accepted.2.free.1, rfl⟩)
  exact followsRules_exchange follows isAt isEdited (fun name listed =>
    List.mem_singleton.mp listed ▸ isNew) isGone ⟨accepted, trivial⟩ (List.cons_ne_nil _ _) rfl
    fun one listed => retypes one listed (shows one listed)

theorem notMem_referenced_of_renamed {decls : List Decl} {before after : String}
    (differ : after ≠ before)
    (isEdited : edited.decls = decls.map (Decl.mapExprs (Expr.renamed before after))) :
    before ∉ (Names.ofShader edited).referenced := by
  rw [Names.referenced_ofShader]
  intro isReferenced
  rcases List.mem_filterMap.mp isReferenced with ⟨part, isPart, isVar⟩
  have areRoots : edited.roots =
      (Shader.mk edited.version decls edited.nextId).roots.map (Expr.renamed before after) := by
    rw [← roots_mapExprs, roots, isEdited]
    rfl
  rw [exprs, areRoots] at isPart
  rcases List.mem_flatMap.mp isPart with ⟨root', isRoot', isPart⟩
  rcases List.mem_map.mp isRoot' with ⟨root, _, rfl⟩
  exact Expr.varName?_ne_of_mem_renamed differ isPart isVar

/-- A local variable whose name nothing else bears may be renamed. -/
theorem followsRules_renamed {name : String} (follows : shader.FollowsRules version)
    (isAt : shader.decls = spot.fill [.decl id old])
    (isEdited : edited.decls = (spot.fill [.decl id { old with name }]).map
      (Decl.mapExprs (Expr.renamed old.name name)))
    (isNew : name ∉ (Names.ofShader shader).referenced ∧ name ∉ (Names.ofShader shader).declared)
    (notReserved : Check.isReservedName name = false)
    (sole : old.name ∉ Decl.declaredNames (spot.fill [])) : edited.FollowsRules version := by
  have accepted := (acceptsList_at follows isAt).1
  have notDeclared := isNew.2
  rw [Names.declared_ofShader, isAt, Decl.mem_declaredNames_fill_iff, not_or] at notDeclared
  have differ : name ≠ old.name := fun same => notDeclared.2 (same ▸ List.mem_cons_self)
  have hidden : (spot.ctx version).lookup? name = none :=
    spot.stable_ctx (Context.stable_at name (· = none))
      (Context.lookup?_initial notReserved version) (Spot.declaresAround_of_fill
        fun other listed same => notDeclared.1 (same ▸ listed))
  refine followsRules_exchangeVar follows isAt isEdited isNew ⟨?_, ?_⟩ ⟨accepted.1, ?_⟩
    fun one _ shows typed => Context.typeOf_renamed (fun inScope => ?_) typed
  · exact notMem_referenced_of_renamed differ isEdited
  · rw [Names.declared_ofShader, isEdited, Decl.declaredNames_mapExprs,
      Decl.mem_declaredNames_fill_iff, not_or]
    exact ⟨sole, fun listed => differ (List.mem_singleton.mp listed).symm⟩
  · exact ⟨accepted.2.known, accepted.2.isSet, accepted.2.initialised, notReserved,
      List.findSome?_eq_none_iff.mp hidden _ List.mem_cons_self⟩
  · have both := shows.resolve_left inScope
    rw [both.1]
    exact both.2

/-- A local variable whose name nothing else bears may make room for another one of the same
name.  What has become of the expressions must have their types where the new variable is in
scope under a name of its own. -/
theorem followsRules_redeclared (follows : shader.FollowsRules version)
    (isAt : shader.decls = spot.fill [.decl id old])
    (isEdited : edited.decls = (spot.fill [.decl id' new]).map (Decl.mapExprs change))
    (sameName : new.name = old.name) (sole : old.name ∉ Decl.declaredNames (spot.fill []))
    (accepted : (spot.ctx version).Accepts (.decl id' new))
    (retypes : ∀ name, ∀ one ∈ (Context.initial version).placedDecls
      (spot.fill [.decl id' { new with name }, .decl id old]),
        Context.Shows old { new with name } one.ctx.lookup? → (one.ctx.typeOf one.e).isSome →
          one.ctx.typeOf ((change one.e).renamed old.name name) = one.ctx.typeOf one.e) :
    edited.FollowsRules version := by
  rcases Check.exists_notReserved_notMem ((Names.ofShader shader).referenced ++
    ((Names.ofShader shader).declared ++ (Names.ofShader edited).referenced)) with
    ⟨name, notReserved, isNew⟩
  rw [List.mem_append, List.mem_append, not_or, not_or] at isNew
  rcases isNew with ⟨notReferenced, notDeclared, notReferenced'⟩
  have isOutside := notDeclared
  rw [Names.declared_ofShader, isAt, Decl.mem_declaredNames_fill_iff, not_or] at isOutside
  have differ : name ≠ old.name := fun same => isOutside.2 (same ▸ List.mem_cons_self)
  have hidden : (spot.ctx version).lookup? name = none :=
    spot.stable_ctx (Context.stable_at name (· = none))
      (Context.lookup?_initial notReserved version) (Spot.declaresAround_of_fill
        fun other listed same => isOutside.1 (same ▸ listed))
  -- In between, the new variable has a name of its own, and so do the references to it.
  let apart : Expr → Expr := fun e => (change e).renamed old.name name
  let between : Shader :=
    { shader with decls := (spot.fill [.decl id' { new with name }]).map (Decl.mapExprs apart) }
  have isRenamed : between.decls = ((spot.fill [.decl id' { new with name }]).map
      (Decl.mapExprs change)).map (Decl.mapExprs (Expr.renamed old.name name)) :=
    congrArg Shader.decls (mapExprs_mapExprs { shader with
      decls := spot.fill [.decl id' { new with name }] }).symm
  have isGone : old.name ∉ (Names.ofShader between).referenced ∧
      old.name ∉ (Names.ofShader between).declared := by
    refine ⟨notMem_referenced_of_renamed differ isRenamed, ?_⟩
    rw [Names.declared_ofShader, Decl.declaredNames_mapExprs, Decl.mem_declaredNames_fill_iff, not_or]
    exact ⟨sole, fun listed => differ (List.mem_singleton.mp listed).symm⟩
  have followsBetween : between.FollowsRules version :=
    followsRules_exchangeVar follows isAt rfl ⟨notReferenced, notDeclared⟩ isGone
      ⟨accepted.1, accepted.2.known, accepted.2.isSet, accepted.2.initialised, notReserved,
        List.findSome?_eq_none_iff.mp hidden _ List.mem_cons_self⟩ (retypes name)
  have filled : ∀ other : String, (spot.fill [.decl id' { new with name := other }]).map
      (Decl.mapExprs apart) = (spot.mapExprs apart).fill
        [.decl id' { new with name := other, init := new.init.map apart }] :=
    fun _ => Spot.map_mapExprs_fill _ _
  refine followsRules_renamed followsBetween (filled name) ?_ isGone
    (acceptsList_at follows isAt).1.2.free.1 ?_
  · let after : Shader := { shader with decls := spot.fill [.decl id' new] }
    have areRoots : edited.roots = after.roots.map change := by
      rw [← roots_mapExprs, roots, isEdited]
      rfl
    have back : (after.mapExprs apart).mapExprs (Expr.renamed name old.name) = after.mapExprs change := by
      rw [mapExprs_mapExprs]
      refine mapExprs_congr fun root isRoot => Expr.renamed_renamed fun part isPart isVar => ?_
      rw [Names.referenced_ofShader, exprs, areRoots] at notReferenced'
      exact notReferenced' (List.mem_filterMap.mpr ⟨part, List.mem_flatMap.mpr
        ⟨change root, List.mem_map_of_mem isRoot, isPart⟩, isVar⟩)
    rw [isEdited]
    refine (congrArg Shader.decls back).symm.trans ?_
    have sameVar : { new with name := old.name } = new := by rw [← sameName]
    have isFilled := filled old.name
    rw [sameVar] at isFilled
    exact congrArg (List.map (Decl.mapExprs (Expr.renamed name old.name))) isFilled
  · have bare := @Spot.map_mapExprs_fill apart [] spot
    rw [Stmt.mapExprsList] at bare
    rw [← bare, Decl.declaredNames_mapExprs]
    exact isOutside.1

end

end Shader
end Whittle
