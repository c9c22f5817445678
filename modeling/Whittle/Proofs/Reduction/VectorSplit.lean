import Whittle.Proofs.Reduction.BuiltVectors
import Whittle.Proofs.Reduction.ValueEdits
import Whittle.Proofs.Typing.Calls

namespace Whittle
namespace Reduction
namespace VectorSplit

/-!
# Splitting a vector keeps a shader valid

The scalars take the place of the vector: where both are in scope together, an access has
the type of the scalar for it, and afterwards nothing refers to the vector.  The search
does not ask whether the vector is built from its components, though, and not every call
with a scalar for each component does that.
-/

open Check (Context)

variable {edit : VectorSplit} {next : NodeId} {shader : Shader} {version : Version}
  {types : TypeTable} {spot : Spot} {vector : Built}

/-- The declarations of the scalars, and the shader with their identifiers drawn. -/
def Built.scalars (vector : Built) (shader : Shader) : List Stmt × Shader :=
  scalarDecls vector.name vector.component shader 0 vector.args

/-- The shader with the scalars in front of the vector. -/
def Built.between (vector : Built) (shader : Shader) (spot : Spot) : Shader :=
  { shader with decls := spot.fill ((vector.scalars shader).1 ++ [vector.stmt]) }

theorem Built.mem_init_of_scalars {e : Expr}
    (listed : e ∈ Stmt.rootsOfList (vector.scalars shader).1) : e ∈ vector.init.subexprs := by
  rw [Built.scalars, rootsOfList_scalarDecls] at listed
  exact Expr.mem_subexprs_of_mem_children listed

section

variable (checked : shader.check version = .ok types) (follows : edit.Follows shader spot vector)
include checked follows

theorem Follows.mapExprsList_scalars :
    Stmt.mapExprsList (edit.change next) (vector.scalars shader).1 = (vector.scalars shader).1 := by
  refine Stmt.mapExprsList_eq_self fun arg listed => ?_
  rw [Built.scalars, rootsOfList_scalarDecls] at listed
  exact follows.change_arg checked listed

/-- Where only parts of the initialiser stand at the place, no outermost expression is the
vector, and there are no parts but those from before. -/
theorem Follows.of_mem_roots {run : List Stmt}
    (within : ∀ e ∈ Stmt.rootsOfList run, e ∈ vector.init.subexprs) {other : Shader}
    (isAt : other.decls = spot.fill run) {root : Expr} (isRoot : root ∈ other.roots) :
    root.varName? ≠ some vector.name ∧ root.subexprs ⊆ shader.exprs := by
  rcases (Shader.mem_roots_fill_iff isAt).mp isRoot with isAround | isInside
  · have isRoot := (Shader.mem_roots_fill_iff follows.isAt).mpr (.inl isAround)
    exact ⟨follows.uses_covered.1 root isRoot, fun part isPart =>
      List.mem_flatMap.mpr ⟨root, isRoot, isPart⟩⟩
  · have inInit := within root isInside
    exact ⟨follows.init_noUse checked inInit, fun part isPart =>
      follows.mem_exprs_of_init (Expr.mem_subexprs_trans isPart inInit)⟩

variable (notStem : vector.name ≠ "gl")
include notStem

/-- Wherever the vector is in scope there, the scalars are as well. -/
theorem Follows.allAt_shows : Context.AllAt (fun ctx => vector.Shows ctx.lookup?)
    ((vector.between shader spot).placed version) := by
  have notReserved := (follows.acceptsVar checked).free.1
  have hidden := @allAt_scalarDecls vector.name vector.component shader 0 vector.args
    (spot.ctx version) (fun see => see vector.name = none)
    (fun see i isHidden => (if_neg (splitName_ne vector.name i).symm).trans isHidden)
    (follows.lookup?_name checked)
  refine spot.allAt_placedDecls_fill vector.stable_shows
    (.inl (Context.lookup?_initial notReserved version)) follows.around ?_ ?_
  · rw [Context.placedList_append, Context.allAt_append]
    exact ⟨fun one listed => .inl (hidden.1 one listed),
      List.forall_mem_singleton.mpr (.inl hidden.2)⟩
  · rw [Context.behindList_append]
    refine .inr ⟨?_, fun i inRange => ?_⟩
    · exact (Context.lookup?_declared _ _ _ _).trans (if_pos ⟨notReserved, rfl⟩)
    · refine (Context.lookup?_declared _ _ _ _).trans
        ((if_neg fun both => splitName_ne vector.name i both.2).trans ?_)
      refine lookup?_behindList_scalarDecls ?_ (fun j _ =>
        follows.part_notReserved checked notStem j) ?_
      · rw [follows.length]
        exact Nat.le_trans (Nat.le_of_eq (Nat.zero_add _)) vector.width.count_le_four
      · rw [follows.length, List.mem_range'_1]
        omega

variable (scalars : ∀ arg ∈ vector.args, types[arg.id]? = some (.scalar vector.component))
include scalars

theorem Follows.acceptsList_scalars : (spot.ctx version).AcceptsList (vector.scalars shader).1 := by
  have isArg : ∀ arg ∈ vector.args, arg ∈ vector.init.subexprs := fun arg isArg =>
    Expr.mem_subexprs_of_mem_children isArg
  refine acceptsList_scalarDecls ?_ (fun arg listed => ?_) (fun i inRange => ?_)
    fun i inRange arg listed isReferenced => ?_
  · rw [follows.length]
    exact Nat.le_trans (Nat.le_of_eq (Nat.zero_add _)) vector.width.count_le_four
  · rw [← (follows.types_eq_typeOf checked (isArg arg listed)).2, scalars arg listed]
  · rw [follows.length, List.mem_range'_1] at inRange
    have isHidden := follows.lookup?_part checked notStem (by omega : i < vector.width.count)
    exact ⟨follows.part_notReserved checked notStem i,
      List.findSome?_eq_none_iff.mp isHidden _ List.mem_cons_self⟩
  · rw [follows.length, List.mem_range'_1] at inRange
    refine (follows.part_free (by omega : i < vector.width.count)).1 ?_
    rw [Names.referenced_ofShader]
    rcases List.mem_filterMap.mp isReferenced with ⟨part, isPart, isVar⟩
    rw [List.flatMap_singleton] at isPart
    exact List.mem_filterMap.mpr ⟨part, follows.mem_exprs_of_init
      (Expr.mem_subexprs_trans isPart (isArg arg listed)), isVar⟩

end

theorem Follows.apply_eq (follows : edit.Follows shader spot vector) (numbered : shader.IsNumbered) :
    edit.apply shader = Shader.mapExprs (edit.change (vector.scalars shader).2.nextId)
      { (vector.scalars shader).2 with
        decls := spot.fill (vector.scalars shader).1
        nextId := (vector.scalars shader).2.nextId + edit.accesses.length } := by
  have draws := draws_scalarDecls shader vector.name vector.component 0 vector.args
  have isFound : shader.findStmt? edit.declStmt = some vector.stmt :=
    follows.declStmt ▸ Shader.findStmt?_fill follows.isAt numbered.1
  have replaced : ((vector.scalars shader).2.replaceStmtWith vector.declId
      (vector.scalars shader).1).1 =
        { (vector.scalars shader).2 with decls := spot.fill (vector.scalars shader).1 } :=
    Shader.replaceStmtWith_fill (draws.decls.trans follows.isAt) (draws.ids_eq ▸ numbered.1) _
  have stillNumbered : ((vector.scalars shader).2.replaceStmtWith vector.declId
      (vector.scalars shader).1).1.IsNumbered := by
    have declared := edit.isNumbered_declareScalars numbered (by rw [isFound]; rfl)
      (rfl : vector.var.init.bind Expr.call? = _) vector.component
    rwa [follows.varName, follows.declStmt] at declared
  rw [replaced] at stillNumbered
  have old : ∀ access ∈ edit.accesses, access.1 < (vector.scalars shader).2.nextId := by
    intro access listed
    rw [follows.accesses] at listed
    rcases List.mem_filterMap.mp listed with ⟨e, isExpr, isAccess⟩
    rcases Option.map_eq_some_iff.mp isAccess with ⟨i, _, rfl⟩
    have isId := (Shader.map_id_exprs_sublist shader).subset (List.mem_map_of_mem isExpr)
    exact Nat.lt_of_lt_of_le (numbered.2 e.id isId) draws.forward
  rw [change, ← foldl_replaceAccess stillNumbered (follows.nodup_targets numbered.1) old, ← replaced,
    apply, isFound, ← follows.declStmt, Built.scalars, ← follows.varName]
  rfl

/-- The scalars stand in the place of the vector, and accesses are changed. -/
theorem Follows.decls_apply (follows : edit.Follows shader spot vector)
    (numbered : shader.IsNumbered) :
    (edit.apply shader).decls = (spot.fill (vector.scalars shader).1).map
      (Decl.mapExprs (edit.change (vector.scalars shader).2.nextId)) := by
  rw [follows.apply_eq numbered]
  rfl

section

variable (checked : shader.check version = .ok types) (follows : edit.Follows shader spot vector)
  {edited : Shader} (isEdited : edited.decls =
    (spot.fill (vector.scalars shader).1).map (Decl.mapExprs (edit.change next)))
include follows isEdited

theorem Follows.not_declared : vector.name ∉ (Names.ofShader edited).declared := by
  rw [Names.declared_ofShader, isEdited, Decl.declaredNames_mapExprs, ← List.count_eq_zero,
    Decl.count_declaredNames_fill, Nat.add_eq_zero_iff, List.count_eq_zero]
  refine ⟨fun listed => (follows.declaresAround _ listed).1 rfl, List.count_eq_zero.mpr ?_⟩
  rw [Built.scalars, declared_ofStmts_scalarDecls]
  intro listed
  rcases List.mem_map.mp listed with ⟨i, _, same⟩
  exact splitName_ne vector.name i same

theorem Follows.declarations_part {i : Nat} (inRange : i < vector.width.count) :
    (Names.ofShader edited).declarations (vector.part i) = 1 := by
  rw [Names.declarations, Names.declared_ofShader, isEdited, Decl.declaredNames_mapExprs,
    Decl.count_declaredNames_fill, List.count_eq_zero.mpr fun listed =>
      (follows.declaresAround _ listed).2 i inRange rfl, Nat.zero_add, Names.declarations,
    Built.scalars, declared_ofStmts_scalarDecls, follows.length]
  have bound := vector.width.count_le_four
  have apart : ((List.range' 0 vector.width.count).map (splitName vector.name)).Nodup := by
    refine (List.nodup_map_iff_inj_on List.nodup_range').mpr fun j isPosition k isOther same => ?_
    rw [List.mem_range'_1] at isPosition isOther
    exact splitName_inj (by omega) (by omega) same
  refine List.count_eq_one_of_mem apart (List.mem_map_of_mem ?_)
  rw [List.mem_range'_1]
  omega

omit follows in
/-- The outermost expressions are those around the place and the arguments, changed. -/
theorem mem_roots_iff {root' : Expr} : root' ∈ edited.roots ↔
    ∃ root ∈ ({ edited with decls := spot.fill (vector.scalars shader).1 } : Shader).roots,
      edit.change next root = root' := by
  have same : edited = Shader.mapExprs (edit.change next)
      { edited with decls := spot.fill (vector.scalars shader).1 } := by
    rw [Shader.mapExprs, ← isEdited]
  rw [same, Shader.roots_mapExprs, List.mem_map]
  rfl

include checked

/-- The vector is not used any more. -/
theorem Follows.not_referenced : vector.name ∉ (Names.ofShader edited).referenced := by
  rw [Names.referenced_ofShader]
  intro isReferenced
  rcases List.mem_filterMap.mp isReferenced with ⟨part', isPart', isVar⟩
  rcases List.mem_flatMap.mp isPart' with ⟨root', isRoot', isPart'⟩
  rcases (mem_roots_iff isEdited).mp isRoot' with ⟨root, isRoot, rfl⟩
  have known := follows.of_mem_roots checked (fun _ => vector.mem_init_of_scalars) rfl isRoot
  have splits : ∀ part ∈ root.subexprs, vector.SplitsAt (edit.change next) part := fun part isPart =>
    follows.splitsAt (Shader.isValid_iff.mp ⟨types, checked⟩).1 (known.2 isPart)
  rcases Splitting.exists_of_mem_subexprs_change known.1 splits isPart' with
    ⟨part, isPart, rfl, noUse⟩
  exact (splits part isPart).varName?_change noUse isVar

/-- The shader follows the rules without the vector. -/
theorem Follows.followsRules (notStem : vector.name ≠ "gl")
    (scalars : ∀ arg ∈ vector.args, types[arg.id]? = some (.scalar vector.component)) :
    edited.FollowsRules version := by
  have valid := Shader.isValid_iff.mp ⟨types, checked⟩
  refine Shader.followsRules_exchange valid.2 follows.isAt isEdited (fun name listed => ?_)
    ⟨follows.not_referenced checked isEdited, follows.not_declared isEdited⟩
    (follows.acceptsList_scalars checked notStem scalars) (List.ne_nil_of_length_pos ?_)
    (any_holdsReturn_scalarDecls ..) fun one listed typed => ?_
  · rw [Built.scalars, declaredBy_scalarDecls] at listed
    rcases List.mem_map.mp listed with ⟨i, inRange, rfl⟩
    rw [follows.length, List.mem_range'_1] at inRange
    exact follows.part_free (by omega)
  · rw [Built.scalars, length_scalarDecls, follows.length]
    exact vector.width.count_pos
  · have isRoot : one.e ∈ (vector.between shader spot).roots := by
      rw [← Shader.map_e_placed _ version]
      exact List.mem_map_of_mem listed
    have known := follows.of_mem_roots checked (fun e isInside => ?_) rfl isRoot
    · exact (Splitting.typeOf_and_mayWrite (follows.allAt_shows checked notStem one listed) typed
        known.1 fun part isPart => follows.splitsAt valid.1 (known.2 isPart)).1
    · rw [Stmt.rootsOfList_eq_flatMap, List.flatMap_append, ← Stmt.rootsOfList_eq_flatMap] at isInside
      rcases List.mem_append.mp isInside with isArg | isInit
      · exact vector.mem_init_of_scalars isArg
      · rw [List.mem_singleton.mp isInit]
        exact vector.init.self_mem_subexprs

/-- Whatever is neither the vector nor its initialiser is still there, changed. -/
theorem Follows.change_mem_exprs {e : Expr} (listed : e ∈ shader.exprs)
    (noUse : e.varName? ≠ some vector.name) (notInit : e ≠ vector.init) :
    edit.change next e ∈ edited.exprs := by
  have stays : ∀ root ∈ ({ edited with decls := spot.fill (vector.scalars shader).1 } : Shader).roots,
      e ∈ root.subexprs → edit.change next e ∈ edited.exprs := by
    intro root isRoot isPart
    have known := follows.of_mem_roots checked (fun _ => vector.mem_init_of_scalars) rfl isRoot
    refine List.mem_flatMap.mpr ⟨_, (mem_roots_iff isEdited).mpr ⟨root, isRoot, rfl⟩, ?_⟩
    exact Splitting.change_mem_subexprs (fun part isPart =>
      follows.splitsAt (Shader.isValid_iff.mp ⟨types, checked⟩).1 (known.2 isPart)) isPart noUse
  rcases List.mem_flatMap.mp listed with ⟨root, isRoot, isPart⟩
  rcases (Shader.mem_roots_fill_iff follows.isAt).mp isRoot with isAround | isInit
  · exact stays root ((Shader.mem_roots_fill_iff rfl).mpr (.inl isAround)) isPart
  · rw [List.mem_singleton.mp isInit, Expr.subexprs_eq_cons, List.mem_cons] at isPart
    rcases List.mem_flatMap.mp (isPart.resolve_left notInit) with ⟨arg, isArg, isPart⟩
    refine stays arg ((Shader.mem_roots_fill_iff rfl).mpr (.inr ?_)) isPart
    rwa [Built.scalars, rootsOfList_scalarDecls]

end

/-! ## Types of accesses -/

section

variable (checked : shader.check version = .ok types) (follows : edit.Follows shader spot vector)
include checked follows

theorem Follows.type_access {e : Expr} (listed : e ∈ shader.exprs) {i : Nat}
    (isAccess : vector.componentOf? e = some i) :
    types[e.id]? = some (.scalar vector.component) := by
  rcases (@Shader.mem_exprs_iff shader version e).mp listed with ⟨one, isPlaced, isPart⟩
  have typed := Shader.types_eq_typeOf checked isPlaced isPart
  rcases Splitting.componentOf?_eq_some_iff.mp isAccess with ⟨id, baseId, field, rfl, _, _⟩
  have isVector := (Shader.allAt_lookup? (Shader.isValid_iff.mp ⟨types, checked⟩).2 follows.isAt
    follows.notMem_around one isPlaced).resolve_left fun hidden =>
      Context.varName?_ne_of_lookup? hidden typed.1 (Expr.mem_subexprs_of_mem_children
        (List.mem_cons_self : Expr.var baseId vector.name ∈ _)) rfl
  rw [typed.2, (Splitting.typeOf_access isAccess isVector typed.1).1]

variable {edited : Shader} (isEdited : edited.decls =
    (spot.fill (vector.scalars shader).1).map (Decl.mapExprs (edit.change next)))
include isEdited

/-- Wherever a scalar is in scope, it stands for itself. -/
theorem Follows.allAt_part (notStem : vector.name ≠ "gl") {i : Nat}
    (inRange : i < vector.width.count) : Context.AllAt (fun ctx => ctx.lookup? (vector.part i) = none ∨
      ctx.lookup? (vector.part i) = some ⟨.scalar vector.component, true⟩) (edited.placed version) := by
  have bare : ∀ name ∈ Decl.declaredNames ((spot.mapExprs (edit.change next)).fill []),
      name ≠ vector.part i := by
    have same := @Spot.map_mapExprs_fill (edit.change next) [] spot
    rw [Stmt.mapExprsList] at same
    rw [← same, Decl.declaredNames_mapExprs]
    exact fun name listed => (follows.declaresAround name listed).2 i inRange
  have stable := Context.stable_at (vector.part i) fun found =>
    found = none ∨ found = some ⟨.scalar vector.component, true⟩
  have initially : (Context.initial version).lookup? (vector.part i) = none :=
    Context.lookup?_initial (follows.part_notReserved checked notStem i) version
  have around := Spot.declaresAround_of_fill bare
  have inRun := @allAt_scalarDecls vector.name vector.component shader 0 vector.args
    ((spot.mapExprs (edit.change next)).ctx version)
    (fun see => see (vector.part i) = none ∨ see (vector.part i) = some ⟨.scalar vector.component, true⟩)
    (fun see j holds => ?_) ((spot.mapExprs (edit.change next)).stable_ctx stable (.inl initially) around)
  · rw [Shader.placed, isEdited, Spot.map_mapExprs_fill, follows.mapExprsList_scalars checked]
    exact (spot.mapExprs (edit.change next)).allAt_placedDecls_fill stable (.inl initially) around
      inRun.1 inRun.2
  · by_cases same : vector.part i = splitName vector.name j
    · exact .inr (if_pos same)
    · exact holds.imp (fun isHidden => (if_neg same).trans isHidden)
        fun isScalar => (if_neg same).trans isScalar

theorem Follows.type_part (notStem : vector.name ≠ "gl") {i : Nat}
    (inRange : i < vector.width.count) {types' : TypeTable}
    (checked' : edited.check version = .ok types') {id : NodeId}
    (listed : .var id (vector.part i) ∈ edited.exprs) :
    types'[id]? = some (.scalar vector.component) := by
  rcases (@Shader.mem_exprs_iff edited version _).mp listed with ⟨one, isPlaced, isPart⟩
  have typed := Shader.types_eq_typeOf checked' isPlaced isPart
  rcases Option.isSome_iff_exists.mp typed.1 with ⟨ty, isTy⟩
  rcases Option.map_eq_some_iff.mp isTy with ⟨binding, isBinding, _⟩
  have isScalar := (follows.allAt_part checked isEdited notStem inRange one isPlaced).resolve_left
    (by simp [isBinding])
  refine typed.2.trans ?_
  rw [Context.typeOf, isScalar]
  rfl

end

/-- The vector is built from its components: the arguments have their type, and the call is
not one of a function of the shader. -/
structure Built.FromComponents (vector : Built) (shader : Shader) (types : TypeTable) : Prop where
  scalars : ∀ arg ∈ vector.args, types[arg.id]? = some (.scalar vector.component)
  noFunction : shader.function? vector.callee = none

theorem Follows.ofKeyword?_callee (checked : shader.check version = .ok types)
    (follows : edit.Follows shader spot vector) (components : vector.FromComponents shader types) :
    Ty.ofKeyword? vector.callee = some vector.ty := by
  have isTy := (follows.acceptsVar checked).initialised vector.init rfl
  rcases Context.typeOf_call_eq_some_iff.mp isTy with ⟨tys, areTys, isCall⟩
  rw [Context.typesOf_eq_some_iff] at areTys
  refine Context.ofKeyword?_of_call isCall ?_ (fun ty isArg => ?_) rfl
  · have isPlaced : ⟨spot.ctx version, vector.init⟩ ∈ shader.placed version :=
      Shader.placedList_subset_placed follows.isAt List.mem_cons_self
    rcases Shader.exists_split_of_mem_placed checked isPlaced with
      ⟨before, decl, behind, split, _, areFunctions⟩
    refine List.find?_eq_none.mpr fun f inScope => ?_
    have isFunctions : (spot.ctx version).functions = _ := areFunctions
    rw [isFunctions, List.mem_reverse] at inScope
    refine List.find?_eq_none.mp components.noFunction f ?_
    rw [Shader.functions, split, List.filterMap_append]
    exact List.mem_append_left _ inScope
  · have isSome := List.mem_map_of_mem (f := some) isArg
    rw [← areTys] at isSome
    rcases List.mem_map.mp isSome with ⟨arg, listed, isTy⟩
    have same := (follows.types_eq_typeOf checked (Expr.mem_subexprs_of_mem_children listed)).2
    rw [components.scalars arg listed, isTy] at same
    rw [← Option.some.inj same]
    rfl

/-- What a shader and its types are when a vector was split: how they relate to the shader
before and its types, and to the vector. -/
structure Split (edit : VectorSplit) (shader : Shader) (types : TypeTable) (edited : Shader)
    (types' : TypeTable) (vector : Built) (change : Expr → Expr) : Prop where
  isDeclared : shader.findStmt? edit.declStmt = some vector.stmt
  varName : edit.varName = vector.name
  count : edit.count = vector.width.count
  /-- The vector is built by its constructor, out of an argument for each component. -/
  constructed : Ty.ofKeyword? vector.callee = some vector.ty
  length : vector.args.length = vector.width.count
  /-- The scalars with these arguments stand in its place, and expressions are changed. -/
  replaced : ∃ (spot : Spot) (scalars : List Stmt), shader.decls = spot.fill [vector.stmt] ∧
    edited.decls = (spot.fill scalars).map (Decl.mapExprs change) ∧
    scalars.length = vector.width.count ∧ ∀ i arg, vector.args[i]? = some arg →
      change arg = arg ∧ ∃ stmtId varId, scalars[i]? = some (Stmt.decl stmtId
        ⟨varId, none, .scalar vector.component, vector.part i, some arg⟩)
  /-- Nothing else bears their names, and the name of the vector is not used any more. -/
  sole : ∀ i < vector.width.count, (Names.ofShader edited).declarations (vector.part i) = 1
  gone : (Names.ofShader edited).declarations vector.name = 0 ∧
    (Names.ofShader edited).references vector.name = 0
  /-- An access selects one component and becomes a reference to the scalar of that
  component, with the type that it had. -/
  accesses : ∀ id baseId field, .member id (.var baseId vector.name) field ∈ shader.exprs →
    ∃ i varId, singleComponent? field = some i ∧
      change (.member id (.var baseId vector.name) field) = .var varId (vector.part i) ∧
      .var varId (vector.part i) ∈ edited.exprs ∧
      types'[varId]? = types[id]? ∧ types[id]? = some (.scalar vector.component)
  /-- Whatever else there is but the vector changes in its operands alone. -/
  others : ∀ e ∈ shader.exprs, vector.componentOf? e = none → e.varName? ≠ some vector.name →
    change e = e.mapChildren change ∧ (e ≠ vector.init → change e ∈ edited.exprs)

/-- Splitting a vector that is built from its components keeps a shader valid. -/
theorem exists_split (checked : shader.check version = .ok types)
    (below : ∀ id ∈ shader.ids, id < shader.nextId) {everywhere : Bool}
    (found : edit ∈ find everywhere types shader) (notStem : edit.varName ≠ "gl")
    (components : ∀ vector : Built, shader.findStmt? edit.declStmt = some vector.stmt →
      vector.FromComponents shader types) :
    ∃ types' vector change, (edit.apply shader).check version = .ok types' ∧
      edit.Split shader types (edit.apply shader) types' vector change := by
  rcases exists_follows checked found with ⟨spot, vector, follows⟩
  have numbered := isNumbered_of_check checked below
  have isDeclared : shader.findStmt? edit.declStmt = some vector.stmt :=
    follows.declStmt ▸ Shader.findStmt?_fill follows.isAt numbered.1
  have fromComponents := components vector isDeclared
  rw [follows.varName] at notStem
  have isEdited := follows.decls_apply numbered
  rcases Shader.isValid_iff.mpr ⟨(edit.isNumbered_apply numbered).1,
    follows.followsRules checked isEdited notStem fromComponents.scalars⟩ with ⟨types', checked'⟩
  refine ⟨types', vector, edit.change (vector.scalars shader).2.nextId, checked', ?_⟩
  constructor
  case isDeclared => exact isDeclared
  case varName => exact follows.varName
  case count => exact follows.count
  case constructed => exact follows.ofKeyword?_callee checked fromComponents
  case length => exact follows.length
  case replaced =>
    refine ⟨spot, (vector.scalars shader).1, follows.isAt, isEdited, ?_, fun i arg isArg =>
      ⟨follows.change_arg checked (List.mem_of_getElem? isArg), ?_⟩⟩
    · rw [Built.scalars, length_scalarDecls, follows.length]
    · have isScalar := getElem?_scalarDecls vector.name vector.component shader 0 vector.args isArg
      rwa [Nat.zero_add] at isScalar
  case sole => exact fun i inRange => follows.declarations_part isEdited inRange
  case gone =>
    exact ⟨List.count_eq_zero.mpr (follows.not_declared isEdited),
      List.count_eq_zero.mpr (follows.not_referenced checked isEdited)⟩
  case accesses =>
    intro id baseId field listed
    cases isAccess : vector.componentOf? (.member id (.var baseId vector.name) field) with
    | none => exact absurd rfl (follows.uses_covered.2 _ listed isAccess _ List.mem_cons_self)
    | some i =>
        rcases Splitting.componentOf?_eq_some_iff.mp isAccess with ⟨_, _, _, same, isField, inRange⟩
        cases same
        rcases follows.change_access numbered.1 listed isAccess with ⟨varId, changed⟩
        have stays := follows.change_mem_exprs checked isEdited listed nofun nofun
        rw [changed] at stays
        have isScalar := follows.type_access checked listed isAccess
        refine ⟨i, varId, isField, changed, stays, ?_, isScalar⟩
        exact (follows.type_part checked isEdited notStem inRange checked' stays).trans isScalar.symm
  case others =>
    exact fun e listed noAccess noUse => ⟨follows.change_other numbered.1 listed noAccess,
      follows.change_mem_exprs checked isEdited listed noUse⟩

theorem Built.eq_of_stmt_eq {vector other : Built} (same : vector.stmt = other.stmt) :
    vector = other := by
  rcases vector with ⟨⟨name, component, width⟩, declId, varId, callId, callee, args⟩
  rcases other with ⟨⟨name', component', width'⟩, declId', varId', callId', callee', args'⟩
  cases same
  rfl

/-- The shader `void main() { T v = callee(1, 2); v.x = v.y; }` for a type `T` of two
components. -/
def pair (component : Scalar) (callee : String) : Shader :=
  .ofDecls .essl100 [.function ⟨.unnumbered, .void, "main", [], ⟨.unnumbered,
    [.decl .unnumbered ⟨.unnumbered, none, .vector component .two, "v",
      some (.call .unnumbered callee [.int .unnumbered 1, .int .unnumbered 2])⟩,
    .expr .unnumbered (.assign .unnumbered .set
      (.member .unnumbered (.var .unnumbered "v") "x")
      (.member .unnumbered (.var .unnumbered "v") "y"))]⟩⟩]

/-- An `ivec2` is split into two scalars of type `int`. -/
theorem exists_split_pair :
    ∃ types types' vector change, (pair .int "ivec2").check .essl100 = .ok types ∧
      (∀ id ∈ (pair .int "ivec2").ids, id < (pair .int "ivec2").nextId) ∧
      ⟨2, "v", 2, [(9, 0), (11, 1)]⟩ ∈ find true types (pair .int "ivec2") ∧ "v" ≠ "gl" ∧
      (∀ vector : Built, (pair .int "ivec2").findStmt? 2 = some vector.stmt →
        vector.FromComponents (pair .int "ivec2") types) ∧
      (apply ⟨2, "v", 2, [(9, 0), (11, 1)]⟩ (pair .int "ivec2")).check .essl100 = .ok types' ∧
      Split ⟨2, "v", 2, [(9, 0), (11, 1)]⟩ (pair .int "ivec2") types
        (apply ⟨2, "v", 2, [(9, 0), (11, 1)]⟩ (pair .int "ivec2")) types' vector change := by
  have isFound : ((pair .int "ivec2").check .essl100).toOption.map (fun types =>
      (find true types (pair .int "ivec2"), types[5]?, types[6]?)) =
        some ([⟨2, "v", 2, [(9, 0), (11, 1)]⟩], some .int, some .int) := by decide
  have below : ∀ id ∈ (pair .int "ivec2").ids, id < (pair .int "ivec2").nextId := by decide
  cases checked : (pair .int "ivec2").check .essl100 with
  | error problems =>
      rw [checked] at isFound
      cases isFound
  | ok types =>
      rw [checked] at isFound
      simp only [Except.toOption, Option.map_some, Option.some.injEq, Prod.mk.injEq] at isFound
      rcases isFound with ⟨isFound, first, second⟩
      have found : ⟨2, "v", 2, [(9, 0), (11, 1)]⟩ ∈ find true types (pair .int "ivec2") :=
        isFound ▸ List.mem_cons_self
      have components : ∀ vector : Built, (pair .int "ivec2").findStmt? 2 = some vector.stmt →
          vector.FromComponents (pair .int "ivec2") types := by
        intro vector isDeclared
        have isPair : (pair .int "ivec2").findStmt? 2 = some (Built.stmt
            ⟨⟨"v", .int, .two⟩, 2, 3, 4, "ivec2", [.int 5 1, .int 6 2]⟩) := rfl
        cases Built.eq_of_stmt_eq (Option.some.inj (isPair.symm.trans isDeclared))
        exact ⟨List.forall_mem_cons.mpr ⟨first, List.forall_mem_singleton.mpr second⟩, by decide⟩
      rcases exists_split checked below found (by decide) components with
        ⟨types', vector, change, checked', split⟩
      exact ⟨types, types', vector, change, rfl, below, found, by decide, components, checked', split⟩

/-- The scalars of a `vec2` that is converted from values of type `int` cannot be declared. -/
theorem not_isValid_apply_pair :
    ∃ types, (pair .float "vec2").check .essl100 = .ok types ∧
      (∀ id ∈ (pair .float "vec2").ids, id < (pair .float "vec2").nextId) ∧
      ⟨2, "v", 2, [(9, 0), (11, 1)]⟩ ∈ find true types (pair .float "vec2") ∧
      ¬ (apply ⟨2, "v", 2, [(9, 0), (11, 1)]⟩ (pair .float "vec2")).IsValid .essl100 := by
  have isFound : ((pair .float "vec2").check .essl100).toOption.map (fun types =>
      find true types (pair .float "vec2")) = some [⟨2, "v", 2, [(9, 0), (11, 1)]⟩] := by decide
  have isRejected : ((apply ⟨2, "v", 2, [(9, 0), (11, 1)]⟩ (pair .float "vec2")).check
      .essl100).toOption.isNone = true := by decide
  cases checked : (pair .float "vec2").check .essl100 with
  | error problems =>
      rw [checked] at isFound
      cases isFound
  | ok types =>
      rw [checked] at isFound
      refine ⟨types, rfl, by decide, (Option.some.inj isFound : find true types _ = _) ▸
        List.mem_cons_self, ?_⟩
      rintro ⟨types', checked'⟩
      rw [checked'] at isRejected
      cases isRejected

end VectorSplit
end Reduction
end Whittle
