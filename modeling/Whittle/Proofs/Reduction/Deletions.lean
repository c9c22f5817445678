import Whittle.Proofs.Identifiers.Edits
import Whittle.Proofs.Reduction.Bodies
import Whittle.Proofs.Typing.Dropping
import Whittle.Reduction.Edit

namespace Whittle

/-!
# Deleting what is not used keeps a shader valid

Variables, functions and structs that nothing names can go, and so can statements that
neither declare anything nor are needed for a `return`.  What is left of the shader is
valid, and each expression that is left has the type that it had.
-/

namespace Shader

open Check.Context (Leaves StandsFor Lacks)

variable {shader edited : Shader} {version : Version} {types types' : TypeTable}
  {vars structs functions : List String}

/-- The second shader follows the rules, and its expressions are among those of the first
one, where they have the same types. -/
structure Abridged (shader edited : Shader) (version : Version) : Prop where
  follows : edited.FollowsRules version
  leaves : Leaves (shader.placed version) (edited.placed version)

/-- What is left in an abridged shader has the type that it had. -/
theorem Abridged.types_eq (abridged : shader.Abridged edited version)
    (checked : shader.check version = .ok types) (checked' : edited.check version = .ok types')
    {e : Expr} (listed : e ∈ edited.exprs) : e ∈ shader.exprs ∧ types'[e.id]? = types[e.id]? := by
  rcases mem_exprs_iff.mp listed with ⟨other, isOther, isPart⟩
  rcases abridged.leaves other isOther with ⟨one, isOne, keeps⟩
  have isPart' := isPart
  rw [keeps.e] at isPart'
  have before := types_eq_typeOf checked isOne isPart'
  refine ⟨mem_exprs_iff.mpr ⟨one, isOne, isPart'⟩, ?_⟩
  rw [(types_eq_typeOf checked' isOther isPart).2, before.2, keeps.typeOf e isPart' before.1]

/-- A declaration is removed by its identifier. -/
theorem removeDecl_of_split (distinct : shader.ids.Nodup) {before behind : List Decl} {decl : Decl}
    (isAt : shader.decls = before ++ decl :: behind) :
    (shader.removeDecl decl.id).1 = { shader with decls := before ++ behind } := by
  rw [ids, isAt, List.flatMap_append, List.flatMap_cons] at distinct
  have absent : ∀ other ∈ before, ¬ (other.id == decl.id) = true := by
    intro other listed same
    have isId : ∀ decl : Decl, decl.id ∈ decl.ids := fun decl => by cases decl <;> exact List.mem_cons_self
    exact (List.nodup_append.mp distinct).2.2 _ (List.mem_flatMap.mpr ⟨other, listed, isId other⟩) _
      (List.mem_append_left _ (isId decl)) (beq_iff_eq.mp same)
  rw [removeDecl, isAt, List.eraseP_append_right _ absent, List.eraseP_cons_of_pos (by simp)]

/-- A declaration of anything else than `main` has no say in whether there is a `main`. -/
theorem hasMain_split_iff {before behind : List Decl} {decl : Decl}
    (isAt : shader.decls = before ++ decl :: behind) (isEdited : edited.decls = before ++ behind)
    (notMain : ∀ f, decl = .function f → f.name ≠ "main") :
    Check.HasMain edited ↔ Check.HasMain shader := by
  have same : (edited.functions.filter fun f => f.name == "main") =
      shader.functions.filter fun f => f.name == "main" := by
    rw [Shader.functions, Shader.functions, isAt, isEdited, List.filterMap_append,
      List.filterMap_append, List.filter_append, List.filter_append]
    cases decl with
    | precision | struct | global => rfl
    | function f =>
        rw [List.filterMap_cons_some (rfl : Decl.function? (.function f) = some f),
          List.filter_cons_of_neg (by simpa using notMain f rfl)]
  rw [Check.HasMain, Check.HasMain, same]

/-- A declaration of what no name of the shader stands for may be missing. -/
theorem abridged_of_split (follows : shader.FollowsRules version) {before behind : List Decl}
    {decl : Decl} (isAt : shader.decls = before ++ decl :: behind)
    (isEdited : edited.decls = before ++ behind)
    (declares : Lacks.Declares vars structs functions decl)
    (spares : Lacks.Spares vars structs functions (Reduction.Names.ofShader shader))
    (notMain : ∀ f, decl = .function f → f.name ≠ "main") : shader.Abridged edited version := by
  have spares := Lacks.Spares.ofShader_iff.mp spares
  rw [isAt, List.forall_mem_append, List.forall_mem_cons] at spares
  have decls := follows.decls
  rw [isAt, Check.Context.acceptsDecls_append_iff, Check.Context.AcceptsDecls] at decls
  have inFront := (Lacks.initial version vars structs functions).behindDecls spares.1 decls.1
  have missing := inFront.behindDecl declares spares.2.1.fitDecl decls.2.1
  have behind := missing.acceptsDecls spares.2.2 decls.2.2
  refine ⟨⟨?_, (hasMain_split_iff isAt isEdited notMain).mpr follows.main⟩, ?_⟩
  · rw [isEdited, Check.Context.acceptsDecls_append_iff]
    exact ⟨decls.1, behind.1⟩
  · rw [placed, placed, isAt, isEdited, Check.Context.placedDecls_append,
      Check.Context.placedDecls_append]
    refine (Leaves.refl _).append ?_
    rw [Check.Context.placedDecls]
    exact (Leaves.nil _).append behind.2

/-- Where only a body changes, the expressions outside stay. -/
theorem leaves_withStmts {before behind : List Decl} {f : Function} {stmts : List Stmt}
    (isAt : shader.decls = before ++ .function f :: behind)
    (isEdited : edited.decls = before ++ .function (f.withStmts stmts) :: behind)
    (inBody : Leaves ((((Check.Context.initial version).behindDecls before).inFunction f).placedList
        f.body.stmts)
      ((((Check.Context.initial version).behindDecls before).inFunction f).placedList stmts)) :
    Leaves (shader.placed version) (edited.placed version) := by
  rw [placed, placed, isAt, isEdited, Check.Context.placedDecls_append,
    Check.Context.placedDecls_append, Check.Context.placedDecls, Check.Context.placedDecls]
  refine (Leaves.refl _).append (inBody.append ?_)
  have alike := Check.Context.alike_behindDecl_withStmts
    ((Check.Context.initial version).behindDecls before) f f.body.stmts stmts
  have same : List.Forall₂ (Decl.Alike Eq) behind behind :=
    List.forall₂_same.mpr fun decl _ => .of_refl (fun _ => rfl) decl
  intro other listed
  rcases exists_of_mem_right (alike.placedDecls (Check.Context.holdsAlike_self _) same) listed with
    ⟨one, isOne, becomes⟩
  exact ⟨one, isOne, becomes.e.symm, fun part _ _ => becomes.ctx.typeOf part⟩

/-- A statement may give way to a run that stands for it, as long as the function still has
a body and its `return`. -/
theorem abridged_fill (follows : shader.FollowsRules version) {spot : Spot} {t : Stmt}
    {run : List Stmt} (isAt : shader.decls = spot.fill [t]) (isEdited : edited.decls = spot.fill run)
    (stands : StandsFor vars [t] run)
    (spares : Lacks.Spares vars [] [] (Reduction.Names.ofShader shader))
    (notEmpty : spot.slot.fill run ≠ [])
    (returns : spot.function.returnTy ≠ .void → t.holdsReturn = true →
      run.any Stmt.holdsReturn = true) :
    shader.Abridged edited version := by
  let f := spot.function.withStmts (spot.slot.fill [t])
  have isAt : shader.decls = spot.before ++ .function f :: spot.behind := isAt
  have isEdited : edited.decls =
      spot.before ++ .function (f.withStmts (spot.slot.fill run)) :: spot.behind := isEdited
  have sparesPlaced : Check.Context.SparesPlaced vars
      ((((Check.Context.initial version).behindDecls spot.before).inFunction f).placedList
        f.body.stmts) := by
    have isDecl : .function f ∈ shader.decls := isAt ▸ List.mem_append_cons_self
    exact Check.Context.sparesPlaced_placedList (Lacks.Spares.ofShader_iff.mp spares _ isDecl).roots _
  have carried := stands.fill spot.slot sparesPlaced (acceptsList_body follows isAt)
  refine ⟨followsRules_withStmts follows isAt isEdited notEmpty carried.accepted
    fun notVoid before => ?_, leaves_withStmts isAt isEdited carried.leaves⟩
  have before : (spot.slot.fill [t]).any Stmt.holdsReturn = true := before
  rw [Slot.any_holdsReturn_fill, List.any_cons, List.any_nil, Bool.or_false, Bool.or_eq_true] at before
  rw [Slot.any_holdsReturn_fill, Bool.or_eq_true]
  exact before.imp id (returns notVoid)

/-- The statement at a place is removed by its identifier. -/
theorem removeStmt_fill {spot : Spot} {t : Stmt} (isAt : shader.decls = spot.fill [t])
    (distinct : shader.ids.Nodup) :
    (shader.removeStmt t.id).1 = { shader with decls := spot.fill [] } := by
  rw [ids, isAt] at distinct
  have inSlot := Spot.distinct_slot distinct
  have modified := @Spot.modifyFirst?_fill spot t (Stmt.spliceList? t.id []) [t] []
    (fun _ => Stmt.spliceList?_eq_none) (spot.slot.spliceList?_fill inSlot.1) inSlot.2
  rw [removeStmt, splice?, modifyDecl?, isAt, modified]
  rfl

end Shader

namespace Reduction

open Check.Context (Lacks StandsFor)

variable {shader : Shader} {version : Version}

theorem spares_of_references {name : String} (unused : (Names.ofShader shader).references name = 0) :
    Lacks.Spares [name] [] [] (Names.ofShader shader) where
  referenced _ listed isName :=
    List.count_eq_zero.mp unused (List.mem_singleton.mp isName ▸ listed)
  called _ _ := ⟨List.not_mem_nil, List.not_mem_nil⟩
  typed _ _ := List.not_mem_nil

theorem spares_of_calls {name : String} (unused : (Names.ofShader shader).calls name = 0) :
    Lacks.Spares [] [] [name] (Names.ofShader shader) where
  referenced _ _ := List.not_mem_nil
  called _ listed := ⟨List.not_mem_nil, fun isName =>
    List.count_eq_zero.mp unused (List.mem_singleton.mp isName ▸ listed)⟩
  typed _ _ := List.not_mem_nil

theorem spares_of_typeUses {name : String} (untyped : (Names.ofShader shader).typeUses name = 0)
    (uncalled : (Names.ofShader shader).calls name = 0) :
    Lacks.Spares [] [name] [] (Names.ofShader shader) where
  referenced _ _ := List.not_mem_nil
  called _ listed := ⟨fun isName =>
    List.count_eq_zero.mp uncalled (List.mem_singleton.mp isName ▸ listed), List.not_mem_nil⟩
  typed _ listed isName :=
    List.count_eq_zero.mp untyped (List.mem_singleton.mp isName ▸ listed)

theorem spares_nothing (names : Names) : Lacks.Spares [] [] [] names where
  referenced _ _ := List.not_mem_nil
  called _ _ := ⟨List.not_mem_nil, List.not_mem_nil⟩
  typed _ _ := List.not_mem_nil

section

variable (follows : shader.FollowsRules version) (distinct : shader.ids.Nodup) {everywhere : Bool}
include follows distinct

/-- A declaration of what nothing names may be removed by its identifier. -/
theorem abridged_removeDecl {vars structs functions : List String} {decl : Decl}
    (listed : decl ∈ shader.decls) (declares : Lacks.Declares vars structs functions decl)
    (spares : Lacks.Spares vars structs functions (Names.ofShader shader))
    (notMain : ∀ f, decl = .function f → f.name ≠ "main") :
    shader.Abridged (shader.removeDecl decl.id).1 version := by
  rcases List.append_of_mem listed with ⟨before, behind, isAt⟩
  rw [Shader.removeDecl_of_split distinct isAt]
  exact Shader.abridged_of_split follows isAt rfl declares spares notMain

theorem StructRemoval.abridged_apply {edit : StructRemoval} (found : edit ∈ find everywhere shader) :
    shader.Abridged (edit.apply shader) version := by
  rcases List.mem_map.mp found with ⟨decl, isUnused, rfl⟩
  rcases List.mem_filter.mp isUnused with ⟨isStruct, unused⟩
  simp only [Bool.and_eq_true, beq_iff_eq] at unused
  exact abridged_removeDecl follows distinct (Shader.mem_structs_iff.mp isStruct)
    List.mem_cons_self (spares_of_typeUses unused.1.2 unused.2) (fun _ => nofun)

theorem FunctionRemoval.abridged_apply {edit : FunctionRemoval} (found : edit ∈ find everywhere shader) :
    shader.Abridged (edit.apply shader) version := by
  rcases List.mem_map.mp found with ⟨f, isUnused, rfl⟩
  rcases List.mem_filter.mp isUnused with ⟨isFunction, unused⟩
  simp only [Bool.and_eq_true, beq_iff_eq, bne_iff_ne] at unused
  refine abridged_removeDecl follows distinct (Shader.mem_functions_iff.mp isFunction)
    List.mem_cons_self (spares_of_calls unused.2) fun g isDecl => ?_
  cases isDecl
  exact unused.1.1

theorem StmtRemoval.abridged_apply {edit : StmtRemoval} (found : edit ∈ find everywhere shader) :
    shader.Abridged (edit.apply shader) version := by
  rcases List.mem_filterMap.mp found with ⟨site, isSite, isEdit⟩
  rw [ofSite?, Option.ite_none_right_eq_some] at isEdit
  rcases isEdit with ⟨removable, isEdit⟩
  cases isEdit
  simp only [Bool.and_eq_true, Bool.not_eq_true'] at removable
  rcases removable with ⟨⟨⟨notSole, isRemovable⟩, notRequired⟩, _⟩
  rcases exists_spot_of_mem_sites follows isSite with ⟨spot, sameFunction, isAt, _, sole⟩
  have declaresNothing : site.stmt.declared? = none := by
    cases isStmt : site.stmt <;> rw [isStmt] at isRemovable <;> first | rfl | cases isRemovable
  rw [apply, Shader.removeStmt_fill isAt distinct]
  refine Shader.abridged_fill follows isAt rfl (Check.Context.standsFor_nil declaresNothing)
    (spares_nothing _) (sole.resolve_left (by simp [notSole])) fun notVoid holds => ?_
  rw [holdsRequiredReturn, holds, Bool.and_true, bne_eq_false_iff_eq] at notRequired
  exact absurd (sameFunction ▸ notRequired) notVoid

omit distinct in
/-- The declaration of a local variable that nothing refers to may give way to a run that
stands for it. -/
theorem abridged_fill_decl {edited : Shader} {spot : Spot} {id : NodeId} {var : VarDecl}
    {run : List Stmt} (isAt : shader.decls = spot.fill [.decl id var])
    (isEdited : edited.decls = spot.fill run)
    (unused : (Names.ofShader shader).references var.name = 0)
    (stands : StandsFor [var.name] [.decl id var] run) (notEmpty : spot.slot.fill run ≠ []) :
    shader.Abridged edited version :=
  Shader.abridged_fill follows isAt isEdited stands (spares_of_references unused) notEmpty
    fun _ holds => nomatch holds

theorem VarRemoval.abridged_keptInit {spot : Spot} {id : NodeId} {var : VarDecl}
    (isAt : shader.decls = spot.fill [.decl id var])
    (unused : (Names.ofShader shader).references var.name = 0)
    (impure : hasPureInit shader var = false) :
    shader.Abridged (apply ⟨.keptInit id, var.name⟩ shader) version := by
  cases isInit : var.init with
  | none => simp [hasPureInit, isInit] at impure
  | some init =>
      have modified := Shader.modifyStmt?_fill isAt distinct initStmt
      simp only [initStmt, isInit] at modified
      have applied : apply ⟨.keptInit id, var.name⟩ shader =
          { shader with decls := spot.fill [.expr id init] } :=
        congrArg (Option.getD · shader) modified
      rw [applied]
      exact abridged_fill_decl follows isAt rfl unused
        (Check.Context.standsFor_init id id isInit) (Slot.fill_ne_nil (.inl (List.cons_ne_nil _ _)))

theorem VarRemoval.abridged_removedLocal {spot : Spot} {id : NodeId} {var : VarDecl}
    (isAt : shader.decls = spot.fill [.decl id var])
    (unused : (Names.ofShader shader).references var.name = 0) (notEmpty : spot.slot.fill [] ≠ []) :
    shader.Abridged (apply ⟨.removedLocal id, var.name⟩ shader) version := by
  have applied : apply ⟨.removedLocal id, var.name⟩ shader = { shader with decls := spot.fill [] } :=
    Shader.removeStmt_fill isAt distinct
  rw [applied]
  exact abridged_fill_decl follows isAt rfl unused (Check.Context.standsFor_decl id var) notEmpty

theorem VarRemoval.abridged_apply {edit : VarRemoval} (found : edit ∈ find everywhere shader) :
    shader.Abridged (edit.apply shader) version := by
  rcases List.mem_flatMap.mp found with ⟨decl, isDecl, found⟩
  cases decl with
  | precision | struct => cases found
  | global var =>
      rw [ofDecl, List.mem_ite_nil_right, List.mem_singleton] at found
      rcases found with ⟨unused, rfl⟩
      simp only [isUnreferenced, Bool.and_eq_true, beq_iff_eq] at unused
      exact abridged_removeDecl follows distinct isDecl List.mem_cons_self
        (spares_of_references unused.2.1) (fun _ => nofun)
  | function f =>
      rcases List.mem_filterMap.mp found with ⟨site, isSite, isEdit⟩
      have isSite : site ∈ sites shader :=
        List.mem_flatMap.mpr ⟨f, Shader.mem_functions_iff.mpr isDecl, isSite⟩
      rcases exists_spot_of_mem_sites follows isSite with ⟨spot, _, isAt, _, sole⟩
      rcases Option.bind_eq_some_iff.mp isEdit with ⟨var, isVar, isEdit⟩
      rcases Option.ite_none_left_eq_some.mp isEdit with ⟨unreferenced, isEdit⟩
      simp only [isUnreferenced, Bool.not_eq_true', Bool.not_eq_false, Bool.and_eq_true, beq_iff_eq]
        at unreferenced
      cases isStmt : site.stmt with
      | decl id declared =>
          rw [isStmt] at isVar isAt isEdit
          cases isVar
          split at isEdit
          · rename_i impure
            cases isEdit
            exact abridged_keptInit follows distinct isAt unreferenced.1 (by simpa using impure)
          · rcases Option.ite_none_left_eq_some.mp isEdit with ⟨notSole, isEdit⟩
            cases isEdit
            exact abridged_removedLocal follows distinct isAt unreferenced.1
              (sole.resolve_left notSole)
      | _ =>
          rw [isStmt] at isVar
          cases isVar

end

/-- The kinds of edits that delete what is not used. -/
def Kind.isDeletion : Kind → Bool
  | .declaration | .statement | .function | .unusedStruct => true
  | _ => false

theorem Edit.abridged_apply (follows : shader.FollowsRules version) (distinct : shader.ids.Nodup)
    {kind : Kind} (deletes : kind.isDeletion = true) {everywhere : Bool} {edits : List Edit}
    (found : Kind.find kind ⟨version, everywhere⟩ shader = .ok edits) {edit : Edit}
    (listed : edit ∈ edits) : shader.Abridged (edit.apply shader) version := by
  cases kind <;> cases deletes
  all_goals
    cases found
    rcases List.mem_map.mp listed with ⟨edit, isFound, rfl⟩
  · exact StructRemoval.abridged_apply follows distinct isFound
  · exact VarRemoval.abridged_apply follows distinct isFound
  · exact FunctionRemoval.abridged_apply follows distinct isFound
  · exact StmtRemoval.abridged_apply follows distinct isFound

/-- Deleting what is not used keeps a shader valid, and whatever expression is left has the
type that it had. -/
theorem exists_check_apply_of_isDeletion {types : TypeTable} (checked : shader.check version = .ok types)
    (below : ∀ id ∈ shader.ids, id < shader.nextId) {kind : Kind} (deletes : kind.isDeletion = true)
    {everywhere : Bool} {edits : List Edit}
    (found : Kind.find kind ⟨version, everywhere⟩ shader = .ok edits) {edit : Edit}
    (listed : edit ∈ edits) :
    ∃ types', (edit.apply shader).check version = .ok types' ∧
      ∀ e ∈ (edit.apply shader).exprs, e ∈ shader.exprs ∧ types'[e.id]? = types[e.id]? := by
  rcases Shader.isValid_iff.mp ⟨types, checked⟩ with ⟨distinct, follows⟩
  have numbered : shader.IsNumbered := ⟨distinct, below⟩
  have abridged := Edit.abridged_apply follows distinct deletes found listed
  rcases Shader.isValid_iff.mpr ⟨(edit.isNumbered_apply numbered).1, abridged.follows⟩ with
    ⟨types', checked'⟩
  exact ⟨types', checked', fun e isLeft => abridged.types_eq checked checked' isLeft⟩

/-- The shader `int f() { return 1; } void main() { int x = f(); }`. -/
def idle : Shader :=
  .ofDecls .essl100 [.function ⟨.unnumbered, .int, "f", [], ⟨.unnumbered,
      [.ret .unnumbered (some (.int .unnumbered 1))]⟩⟩,
    .function ⟨.unnumbered, .void, "main", [], ⟨.unnumbered,
      [.decl .unnumbered ⟨.unnumbered, none, .int, "x", some (.call .unnumbered "f" [])⟩]⟩⟩]

/-- The variable goes, and the call stays. -/
theorem exists_check_apply_idle :
    ∃ types types', idle.check .essl100 = .ok types ∧ (∀ id ∈ idle.ids, id < idle.nextId) ∧
      Kind.isDeletion .declaration = true ∧
      Kind.find .declaration ⟨.essl100, true⟩ idle = .ok [.declaration ⟨.keptInit 6, "x"⟩] ∧
      (Edit.apply (.declaration ⟨.keptInit 6, "x"⟩) idle).check .essl100 = .ok types' ∧
      Expr.call 8 "f" [] ∈ (Edit.apply (.declaration ⟨.keptInit 6, "x"⟩) idle).exprs ∧
      ∀ e ∈ (Edit.apply (.declaration ⟨.keptInit 6, "x"⟩) idle).exprs,
        e ∈ idle.exprs ∧ types'[e.id]? = types[e.id]? := by
  have valid : (idle.check .essl100).toOption.isSome = true := by decide
  have below : ∀ id ∈ idle.ids, id < idle.nextId := by decide
  have found : Kind.find .declaration ⟨.essl100, true⟩ idle =
      .ok [.declaration ⟨.keptInit 6, "x"⟩] := by rfl
  cases checked : idle.check .essl100 with
  | error problems =>
      rw [checked] at valid
      cases valid
  | ok types =>
      rcases exists_check_apply_of_isDeletion checked below rfl found List.mem_cons_self with
        ⟨types', checked', kept⟩
      exact ⟨types, types', rfl, below, rfl, found, checked', .tail _ (.head _), kept⟩

end Reduction
end Whittle
