import Whittle.Proofs.Reduction.ScalarDecls
import Whittle.Proofs.Syntax.Operands

namespace Whittle
namespace Reduction
namespace VectorSplit

/-!
# Vectors that can be split

The search finds a local vector whose name is declared once and whose scalars would get
names that nothing mentions.  It counts how often the vector is referred to and how often
one of its components is selected.  As these numbers are the same, the vector is not used
in any other way, and so each access can become a variable of its own.
-/

open Check (Context)

/-- A vector that is to be split, with the statement that declares it and the call that
builds it. -/
structure Built extends Splitting where
  declId : NodeId
  varId : NodeId
  callId : NodeId
  callee : String
  args : List Expr

namespace Built

variable (vector : Built)

/-- The call that builds the vector. -/
def init : Expr :=
  .call vector.callId vector.callee vector.args

/-- The declaration of the vector. -/
def var : VarDecl :=
  ⟨vector.varId, none, vector.ty, vector.name, some vector.init⟩

/-- The statement that declares the vector. -/
def stmt : Stmt :=
  .decl vector.declId vector.var

end Built

variable {edit : VectorSplit} {next : NodeId} {shader : Shader} {version : Version}
  {types : TypeTable} {spot : Spot} {vector : Built}

/-- The edit is about the vector at the place, nothing else bears the names of its scalars
and no use of the vector is overlooked. -/
structure Follows (edit : VectorSplit) (shader : Shader) (spot : Spot) (vector : Built) : Prop where
  isAt : shader.decls = spot.fill [vector.stmt]
  declStmt : edit.declStmt = vector.declId
  varName : edit.varName = vector.name
  count : edit.count = vector.width.count
  length : vector.args.length = vector.width.count
  sole : (Names.ofShader shader).declarations vector.name = 1
  free : ∀ i < vector.width.count, (Names.ofShader shader).mentions (vector.part i) = false
  accesses : edit.accesses = accessesOf shader.exprs vector.name vector.width.count
  covered : edit.accesses.length = (Names.ofShader shader).references vector.name

theorem exists_follows (checked : shader.check version = .ok types) {everywhere : Bool}
    (found : edit ∈ find everywhere types shader) : ∃ spot vector, edit.Follows shader spot vector := by
  rcases List.mem_filterMap.mp found with ⟨site, isSite, found⟩
  rcases exists_spot_of_mem_sites (Shader.isValid_iff.mp ⟨types, checked⟩).2 isSite with
    ⟨spot, -, isAt, -⟩
  simp only [ofStmt?, bind, Option.bind_eq_some_iff, Option.ite_none_right_eq_some,
    Bool.and_eq_true, List.all_eq_true, List.mem_range, Bool.not_eq_true', beq_iff_eq,
    isBuiltFromScalars, Option.some.injEq] at found
  rcases found with ⟨var, declares, count, isCount, ⟨callee, args⟩, ⟨init, hasInit, isCall⟩,
    ⟨⟨⟨⟨⟨⟨-, isVector⟩, isPlain⟩, length, -⟩, sole⟩, free⟩, covered⟩, rfl⟩
  rcases site with ⟨f, list, s⟩
  cases s <;> cases declares
  rename_i declId
  rcases var with ⟨varId, qualifier, ty, name, init?⟩
  cases hasInit
  cases init <;> cases isCall
  rename_i callId
  cases Option.isNone_iff_eq_none.mp isPlain
  cases ty with
  | vector component width =>
      cases isCount
      exact ⟨spot, ⟨⟨name, component, width⟩, declId, varId, callId, callee, args⟩, isAt, rfl, rfl, rfl,
        length, sole, free, rfl, covered⟩
  | _ => cases isVector

section

variable (follows : edit.Follows shader spot vector)
include follows

theorem Follows.mem_exprs_of_init {part : Expr} (isPart : part ∈ vector.init.subexprs) :
    part ∈ shader.exprs :=
  List.mem_flatMap.mpr ⟨vector.init,
    (Shader.mem_roots_fill_iff follows.isAt).mpr (.inr List.mem_cons_self), isPart⟩

theorem Follows.part_free {i : Nat} (inRange : i < vector.width.count) :
    vector.part i ∉ (Names.ofShader shader).referenced ∧
      vector.part i ∉ (Names.ofShader shader).declared := by
  have free := follows.free i inRange
  simp only [Names.mentions, Bool.or_eq_false_iff, List.contains_eq_mem, decide_eq_false_iff_not] at free
  exact ⟨free.1.2, free.1.1⟩

/-- Around the place nothing is declared that has the name of the vector or of a scalar. -/
theorem Follows.declaresAround : ∀ name ∈ Decl.declaredNames (spot.fill []),
    name ≠ vector.name ∧ ∀ i < vector.width.count, name ≠ vector.part i := by
  have adds := fun name => Decl.count_declaredNames_fill name [vector.stmt] spot
  simp only [← follows.isAt, ← Names.declared_ofShader] at adds
  intro name listed
  have isDeclared := List.count_pos_iff.mpr listed
  constructor
  · rintro rfl
    have sole : (Names.ofShader shader).declared.count vector.name = 1 := follows.sole
    have own : (Names.ofStmts [vector.stmt]).declarations vector.name = 1 := List.count_singleton_self
    have total := adds vector.name
    omega
  · rintro i inRange rfl
    have absent := List.count_eq_zero.mpr (follows.part_free inRange).2
    have total := adds (vector.part i)
    omega

theorem Follows.notMem_around : vector.name ∉ Decl.declaredNames (spot.fill []) :=
  fun listed => (follows.declaresAround _ listed).1 rfl

theorem Follows.around : spot.DeclaresAround fun name =>
    name ≠ vector.name ∧ ∀ i < vector.width.count, name ≠ vector.part i :=
  Spot.declaresAround_of_fill follows.declaresAround

variable (checked : shader.check version = .ok types)
include checked

theorem Follows.acceptsVar : (spot.ctx version).AcceptsVar vector.var :=
  (Shader.acceptsList_at (Shader.isValid_iff.mp ⟨types, checked⟩).2 follows.isAt).1.2

/-- The initialiser has its type at the place, and so do its parts. -/
theorem Follows.types_eq_typeOf {part : Expr} (isPart : part ∈ vector.init.subexprs) :
    ((spot.ctx version).typeOf part).isSome ∧ types[part.id]? = (spot.ctx version).typeOf part :=
  Shader.types_eq_typeOf checked (@Shader.placedList_subset_placed shader spot [vector.stmt] version
    follows.isAt ⟨spot.ctx version, vector.init⟩ List.mem_cons_self) isPart

/-- At the place the vector is not in scope yet. -/
theorem Follows.lookup?_name : (spot.ctx version).lookup? vector.name = none :=
  Shader.lookup?_ctx_eq_none (Shader.isValid_iff.mp ⟨types, checked⟩).2 follows.isAt follows.notMem_around

/-- So its initialiser makes no use of it. -/
theorem Follows.init_noUse {part : Expr} (isPart : part ∈ vector.init.subexprs) :
    part.varName? ≠ some vector.name :=
  Shader.varName?_ne_of_mem_init (Shader.isValid_iff.mp ⟨types, checked⟩).2 follows.isAt
    follows.notMem_around rfl isPart

theorem Follows.componentOf?_init {part : Expr} (isPart : part ∈ vector.init.subexprs) :
    vector.componentOf? part = none := by
  cases isComponent : vector.componentOf? part with
  | none => rfl
  | some i =>
      rcases Splitting.componentOf?_eq_some_iff.mp isComponent with ⟨id, baseId, field, rfl, _, _⟩
      have isBase : .var baseId vector.name ∈ vector.init.subexprs :=
        Expr.mem_subexprs_of_child List.mem_cons_self isPart
      exact absurd rfl (follows.init_noUse checked isBase)

variable (notStem : vector.name ≠ "gl")
include notStem

theorem Follows.part_notReserved (i : Nat) : Check.isReservedName (vector.part i) = false :=
  isReservedName_splitName i (follows.acceptsVar checked).free.1 notStem

/-- At the place the scalars are not in scope either. -/
theorem Follows.lookup?_part {i : Nat} (inRange : i < vector.width.count) :
    (spot.ctx version).lookup? (vector.part i) = none :=
  spot.stable_ctx (Context.stable_at (vector.part i) (· = none))
    (Context.lookup?_initial (follows.part_notReserved checked notStem i) version)
    (Spot.declaresAround_of_fill fun name listed => (follows.declaresAround name listed).2 i inRange)

end

section

variable (follows : edit.Follows shader spot vector)
include follows

/-- The vector is not used but as the base of an access. -/
theorem Follows.uses_covered :
    (∀ root ∈ shader.roots, root.varName? ≠ some vector.name) ∧
      ∀ e ∈ shader.exprs, vector.componentOf? e = none →
        ∀ child ∈ e.children, child.varName? ≠ some vector.name := by
  let isUse : Expr → Bool := fun e => e.varName? == some vector.name
  let isAccess : Expr → Bool := fun e => (vector.componentOf? e).isSome
  have sole : ∀ e, isAccess e = true → ∃ child, e.children = [child] ∧ isUse child = true := by
    intro e isSome
    rcases Option.isSome_iff_exists.mp isSome with ⟨i, isComponent⟩
    rcases Splitting.componentOf?_eq_some_iff.mp isComponent with ⟨id, baseId, field, rfl, _, _⟩
    exact ⟨_, rfl, beq_self_eq_true _⟩
  have few : shader.exprs.countP isUse ≤ shader.exprs.countP isAccess := by
    rw [← Names.references_ofShader, ← follows.covered, follows.accesses, accessesOf,
      List.length_filterMap_eq_countP]
    refine Nat.le_of_eq (List.countP_congr fun e _ => ?_)
    rw [Option.isSome_map]
    rfl
  have covered := Expr.operands_of_countP_le sole few
  refine ⟨fun root isRoot isVar => ?_, fun e listed noAccess child isChild isVar => ?_⟩
  · have noUse := covered.1 root isRoot
    simp [isUse, isVar] at noUse
  · have isSome := covered.2 e listed child isChild (beq_iff_eq.mpr isVar)
    simp [isAccess, noAccess] at isSome

variable (distinct : shader.ids.Nodup)
include distinct

theorem Follows.nodup_targets : (edit.accesses.map Prod.fst).Nodup := by
  rw [follows.accesses, accessesOf, List.map_filterMap]
  have sub : (shader.exprs.filterMap fun e => ((componentOf? vector.name vector.width.count e).map
      fun component => (e.id, component)).map Prod.fst).Sublist (shader.exprs.map Expr.id) := by
    induction shader.exprs with
    | nil => exact .slnil
    | cons e rest inductionHypothesis =>
        rw [List.filterMap_cons, List.map_cons]
        cases componentOf? vector.name vector.width.count e with
        | none => exact inductionHypothesis.cons _
        | some component => exact inductionHypothesis.cons_cons _
  exact (distinct.sublist (Shader.map_id_exprs_sublist shader)).sublist sub

theorem Follows.change_access {e : Expr} (listed : e ∈ shader.exprs) {i : Nat}
    (isAccess : vector.componentOf? e = some i) : ∃ id, edit.change next e = .var id (vector.part i) := by
  have isTarget : (e.id, i) ∈ edit.accesses := by
    rw [follows.accesses]
    refine List.mem_filterMap.mpr ⟨e, listed, ?_⟩
    rw [show componentOf? vector.name vector.width.count e = some i from isAccess]
    rfl
  rcases exists_lookup_steps (follows.nodup_targets distinct) isTarget with ⟨id, isStep⟩
  refine ⟨id, ?_⟩
  rw [change, Expr.rewrite_eq, Expr.changeBy_of_lookup (by rwa [Expr.id_mapChildren]),
    follows.varName]
  rfl

theorem Follows.notMem_targets {e : Expr} (listed : e ∈ shader.exprs)
    (noAccess : vector.componentOf? e = none) :
    e.id ∉ (edit.steps next edit.accesses).map Prod.fst := by
  intro isTarget
  rw [map_fst_steps, follows.accesses] at isTarget
  rcases List.mem_map.mp isTarget with ⟨access, isAccess, sameId⟩
  rcases List.mem_filterMap.mp isAccess with ⟨other, isExpr, isAccess⟩
  rcases Option.map_eq_some_iff.mp isAccess with ⟨i, isComponent, rfl⟩
  cases Shader.expr_eq_of_id_eq distinct isExpr listed sameId
  rw [show vector.componentOf? e = some i from isComponent] at noAccess
  cases noAccess

theorem Follows.change_other {e : Expr} (listed : e ∈ shader.exprs)
    (noAccess : vector.componentOf? e = none) : edit.change next e = e.mapChildren (edit.change next) :=
  (Expr.spares_changeBy (List.Subset.refl _)).rewrite_eq
    (follows.notMem_targets distinct listed noAccess)

/-- Each part changes as its vector does. -/
theorem Follows.splitsAt {e : Expr} (listed : e ∈ shader.exprs) :
    vector.SplitsAt (edit.change next) e := by
  cases isAccess : vector.componentOf? e with
  | some i =>
      rcases follows.change_access distinct listed isAccess with ⟨id, changed⟩
      exact .access isAccess changed
  | none =>
      exact .other isAccess (follows.uses_covered.2 e listed isAccess)
        (follows.change_other distinct listed isAccess)

omit distinct in
/-- There is no access in the arguments, so they stay as they are. -/
theorem Follows.change_arg (checked : shader.check version = .ok types) {arg : Expr}
    (isArg : arg ∈ vector.args) : edit.change next arg = arg := by
  have distinct := (Shader.isValid_iff.mp ⟨types, checked⟩).1
  refine Expr.rewrite_eq_self fun part isPart => Expr.changeBy_of_notMem ?_
  have inInit : part ∈ vector.init.subexprs :=
    Expr.mem_subexprs_trans isPart (Expr.mem_subexprs_of_mem_children isArg)
  exact follows.notMem_targets distinct (follows.mem_exprs_of_init inInit)
    (follows.componentOf?_init checked inInit)

end

end VectorSplit
end Reduction
end Whittle
