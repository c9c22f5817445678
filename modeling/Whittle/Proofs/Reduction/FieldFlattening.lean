import Whittle.Proofs.Reduction.StructReplacement
import Whittle.Proofs.Reduction.ValueEdits
import Whittle.Proofs.Syntax.Mapping
import Whittle.Proofs.Syntax.Renumbering
import Whittle.Proofs.Typing.Flattening

namespace Whittle

/-!
# Flattening a nested struct keeps a shader valid

The search compares two numbers: how often the field is read at all, and how often an
access goes on to a field of the inner struct.  They are the same only if no
expression reads the field as a whole, so it is enough to change the declaration,
the constructor calls and the accesses.
-/

namespace Reduction
namespace FieldFlattening

variable {shader : Shader} {version : Version} {types : TypeTable} {edit : FieldFlattening}
  {plan : Flattening}

/-- The edit is about the structs and the field of the plan, its targets are all
constructor calls and accesses, and no read of the field is overlooked. -/
structure Follows (edit : FieldFlattening) (shader : Shader) (types : TypeTable)
    (plan : Flattening) : Prop where
  outer : .struct plan.outer ∈ shader.decls
  inner : .struct plan.inner ∈ shader.decls
  outerName : edit.outer = plan.outer.name
  innerName : edit.inner = plan.inner.name
  fieldId : edit.field = plan.field.id
  fieldName : edit.fieldName = plan.field.name
  position : edit.position = plan.position
  fresh : plan.fresh = edit.flattened shader.nextId plan.inner
  constructors : edit.constructors =
    (shader.exprs.filter fun e => e.calls plan.outer.name).map Expr.id
  accesses : edit.accesses =
    (shader.exprs.filter (projectsField types plan.outer.name plan.field.name)).map Expr.id
  spliceable : ∀ e ∈ shader.exprs, e.calls plan.outer.name = true →
    isSpliceable plan.inner plan.position e = true
  covered : shader.exprs.countP (accessesField types plan.outer.name plan.field.name) =
    shader.exprs.countP (projectsField types plan.outer.name plan.field.name)

theorem exists_plan (checked : shader.check version = .ok types)
    (structs : ∀ decl ∈ shader.structs, IsUnclaimed decl.name) {everywhere : Bool}
    (found : edit ∈ find everywhere types shader) : ∃ plan, edit.Follows shader types plan := by
  rcases List.mem_flatMap.mp found with ⟨outer, isOuter, found⟩
  rcases List.mem_filterMap.mp found with ⟨⟨field, position⟩, isField, found⟩
  rw [List.mem_zipIdx_iff_getElem?] at isField
  simp only [ofField?, bind, Option.bind_eq_some_iff, Option.ite_none_right_eq_some,
    Bool.and_eq_true, Bool.not_eq_true', List.any_eq_false, List.all_eq_true, List.mem_filter,
    beq_iff_eq, and_imp] at found
  rcases found with
    ⟨innerName, isStruct, inner, isInner, ⟨⟨⟨_, areFree⟩, covered⟩, spliceable⟩, isEdit⟩
  rcases Shader.mem_decls_of_struct? isInner with ⟨isDeclaredInner, rfl⟩
  have isDeclared := Shader.mem_structs_iff.mp isOuter
  have fieldTy : field.ty = .struct inner.name := by
    cases ty : field.ty with
    | struct name =>
        rw [ty] at isStruct
        exact congrArg Ty.struct (Option.some.inj isStruct)
    | _ =>
        rw [ty] at isStruct
        cases isStruct
  cases isEdit
  let edit : FieldFlattening := ⟨outer.name, inner.name, field.id, field.name, position,
    (shader.exprs.filter fun e => e.calls outer.name).map Expr.id,
    (shader.exprs.filter (projectsField types outer.name field.name)).map Expr.id⟩
  let plan : Flattening :=
    { outer, inner, position, field
      fresh := edit.flattened shader.nextId inner
      isField
      fieldTy
      differ := Shader.inner_ne_outer checked isDeclared (List.mem_of_getElem? isField) fieldTy
      isUnclaimed := ⟨structs outer isOuter, structs inner (Shader.mem_structs_iff.mpr isDeclaredInner)⟩
      shapes := by
        rw [flattened, Field.map_shape_numberedList, List.map_map]
        rfl
      apart := Shader.nodup_fields checked isDeclared
      innerApart := Shader.nodup_fields checked isDeclaredInner
      areFree := fun nested isNested other isOther same => areFree nested isNested
        (List.any_eq_true.mpr ⟨other, isOther, beq_iff_eq.mpr same⟩) }
  refine ⟨plan, isDeclared, isDeclaredInner, rfl, rfl, rfl, rfl, rfl, rfl, rfl, rfl, spliceable, ?_⟩
  rw [covered, List.length_map, List.countP_eq_length_filter]

/-- Wherever an expression stands, the names of the two structs stand for them. -/
theorem sees_of_mem_placed (checked : shader.check version = .ok types)
    (follows : edit.Follows shader types plan) {one : Check.Context.Placed}
    (listed : one ∈ shader.placed version) : plan.Sees one.ctx := by
  rcases Shader.scope_of_struct checked follows.outer listed with ⟨outer, notOuter⟩
  rcases Shader.scope_of_struct checked follows.inner listed with ⟨inner, notInner⟩
  exact ⟨outer, inner, fun f inScope => ⟨notOuter f inScope, notInner f inScope⟩⟩

theorem projectsField_eq_true_iff {struct field : String} {e : Expr} :
    projectsField types struct field e = true ↔
      ∃ id memberId base name, e = .member id (.member memberId base field) name ∧
        types[base.id]? = some (.struct struct) := by
  cases e with
  | member id read name =>
      rw [projectsField, accessesField_eq_true_iff]
      constructor
      · rintro ⟨memberId, base, rfl, isStruct⟩
        exact ⟨id, memberId, base, name, rfl, isStruct⟩
      · rintro ⟨_, memberId, base, _, same, isStruct⟩
        cases same
        exact ⟨memberId, base, rfl, isStruct⟩
  | _ => simp [projectsField]

/-- An access as the table of types knows it is one as the rules know it. -/
theorem accessesField_iff_reads (checked : shader.check version = .ok types)
    {one : Check.Context.Placed} (listed : one ∈ shader.placed version) {part : Expr}
    (isPart : part ∈ one.e.subexprs) :
    accessesField types plan.outer.name plan.field.name part = true ↔ plan.Reads one.ctx part :=
  accessesField_iff_typeOf checked listed isPart

/-- Nothing reads the field as a whole but the base of an access. -/
theorem reads_covered (checked : shader.check version = .ok types)
    (follows : edit.Follows shader types plan) {one : Check.Context.Placed}
    (listed : one ∈ shader.placed version) :
    ¬ plan.Reads one.ctx one.e ∧ ∀ e ∈ one.e.subexprs, ∀ child ∈ e.children,
      plan.Reads one.ctx child → projectsField types plan.outer.name plan.field.name e = true := by
  have sole : ∀ e, projectsField types plan.outer.name plan.field.name e = true →
      ∃ child, e.children = [child] ∧
        accessesField types plan.outer.name plan.field.name child = true := by
    intro e projects
    rcases projectsField_eq_true_iff.mp projects with ⟨id, memberId, base, name, rfl, isStruct⟩
    exact ⟨_, rfl, accessesField_eq_true_iff.mpr ⟨memberId, base, rfl, isStruct⟩⟩
  have covered := Expr.operands_of_countP_le sole
    (Nat.le_of_eq (follows.covered : (shader.roots.flatMap Expr.subexprs).countP _ = _))
  have isRoot : one.e ∈ shader.roots := by
    rw [← Shader.map_e_placed shader version]
    exact List.mem_map_of_mem listed
  refine ⟨fun reads => ?_, fun e isPart child isChild reads => ?_⟩
  · rw [← accessesField_iff_reads checked listed one.e.self_mem_subexprs, covered.1 one.e isRoot] at reads
    cases reads
  · refine covered.2 e (List.mem_flatMap.mpr ⟨one.e, isRoot, isPart⟩) child isChild ?_
    exact (accessesField_iff_reads checked listed (Expr.mem_subexprs_of_child isChild isPart)).mpr reads

open Whittle.Expr (rewrite changeBy NaturalAt)

/-- The changes of the edit by identifier. -/
def steps (edit : FieldFlattening) : List (NodeId × (Expr → Expr)) :=
  edit.constructors.map (fun target => (target, spliceArgs edit.position)) ++
    edit.accesses.map (fun target => (target, flattenAccess))

theorem lookup_steps (distinct : shader.ids.Nodup) (follows : edit.Follows shader types plan)
    {e : Expr} (listed : e ∈ shader.exprs) :
    edit.steps.lookup e.id =
      if e.calls plan.outer.name then some (spliceArgs plan.position)
      else if projectsField types plan.outer.name plan.field.name e then some flattenAccess
      else none := by
  rw [steps, List.lookup_append, Expr.lookup_map_target, Expr.lookup_map_target, follows.constructors, follows.accesses,
    follows.position]
  simp only [Shader.id_mem_map_filter_iff distinct listed]
  split
  · exact Option.some_or
  · exact Option.none_or

/-- A constructor call of the outer struct has a constructor call of the inner struct in
the place of the field, and the table of changes leaves that one alone. -/
theorem exists_of_calls (distinct : shader.ids.Nodup) (follows : edit.Follows shader types plan)
    {e : Expr} (listed : e ∈ shader.exprs) (calls : e.calls plan.outer.name = true) :
    ∃ id args nestedId nested, e = .call id plan.outer.name args ∧
      args[plan.position]? = some (.call nestedId plan.inner.name nested) ∧
      nestedId ∉ edit.steps.map Prod.fst := by
  have spliceable := follows.spliceable e listed calls
  cases e with
  | call id callee args =>
      cases beq_iff_eq.mp calls
      rcases (Option.any_eq_true _ _).mp spliceable with ⟨⟨callee, nested⟩, isCall, fits⟩
      rw [Bool.and_eq_true, beq_iff_eq] at fits
      rcases Option.bind_eq_some_iff.mp isCall with ⟨arg, isArg, isCall⟩
      cases arg with
      | call nestedId _ _ =>
          cases isCall
          cases fits.1
          have listed' : Expr.call nestedId plan.inner.name nested ∈ shader.exprs :=
            Shader.mem_exprs_of_mem_children (List.mem_of_getElem? isArg) listed
          have untouched := lookup_steps distinct follows listed'
          rw [if_neg (by simpa [Expr.calls] using plan.differ), if_neg (by simp [projectsField])]
            at untouched
          exact ⟨id, args, nestedId, nested, rfl, isArg, Expr.lookup_eq_none_iff_notMem.mp untouched⟩
      | _ => cases isCall
  | _ => cases calls

/-- The read in an access is no access of this kind itself. -/
theorem lookup_read (checked : shader.check version = .ok types)
    (follows : edit.Follows shader types plan) {id memberId : NodeId} {base : Expr} {name : String}
    (listed : .member id (.member memberId base plan.field.name) name ∈ shader.exprs)
    (isOuter : types[base.id]? = some (.struct plan.outer.name)) :
    memberId ∉ edit.steps.map Prod.fst := by
  have distinct := (Shader.isValid_iff.mp ⟨types, checked⟩).1
  rcases Shader.mem_exprs_iff.mp listed with ⟨one, isPlaced, isPart⟩
  have isRead : .member memberId base plan.field.name ∈ one.e.subexprs :=
    Expr.mem_subexprs_of_child List.mem_cons_self isPart
  have isBase : base ∈ one.e.subexprs :=
    Expr.mem_subexprs_of_child List.mem_cons_self isRead
  rw [(Shader.types_eq_typeOf checked isPlaced isBase).2] at isOuter
  have noRead := Flattening.not_reads_of_outer (sees_of_mem_placed checked follows isPlaced) isOuter
  rw [← accessesField_iff_reads checked isPlaced isBase, Bool.not_eq_true] at noRead
  have untouched := lookup_steps distinct follows (Shader.mem_exprs_iff.mpr ⟨one, isPlaced, isRead⟩)
  rw [if_neg (by simp [Expr.calls]), projectsField, noRead, if_neg (by simp)] at untouched
  exact Expr.lookup_eq_none_iff_notMem.mp untouched

theorem spliceArgs_call {id nestedId : NodeId} {callee nestedCallee : String}
    {args nested : List Expr} {position : Nat}
    (isNested : args[position]? = some (.call nestedId nestedCallee nested)) :
    spliceArgs position (.call id callee args) =
      .call id callee (args.take position ++ nested ++ args.drop (position + 1)) := by
  simp only [spliceArgs, isNested]

theorem spares_changeBy_steps (edit : FieldFlattening) :
    Expr.Spares (edit.steps.map Prod.fst) (changeBy edit.steps) :=
  Expr.spares_changeBy (List.Subset.refl _)

/-- Each part of an outermost expression changes as its struct does. -/
theorem flattensAt (checked : shader.check version = .ok types)
    (follows : edit.Follows shader types plan) {one : Check.Context.Placed}
    (listed : one ∈ shader.placed version) {part : Expr} (isPart : part ∈ one.e.subexprs) :
    plan.FlattensAt one.ctx (rewrite (changeBy edit.steps)) part := by
  have distinct := (Shader.isValid_iff.mp ⟨types, checked⟩).1
  have isExpr : part ∈ shader.exprs := Shader.mem_exprs_iff.mpr ⟨one, listed, isPart⟩
  have covered := (reads_covered checked follows listed).2 part isPart
  have lookup := lookup_steps distinct follows isExpr
  by_cases calls : part.calls plan.outer.name = true
  · rw [if_pos calls] at lookup
    rcases exists_of_calls distinct follows isExpr calls with
      ⟨id, args, nestedId, nested, rfl, isNested, untouched⟩
    refine .construct isNested (fun arg isArg reads => ?_) ?_
    · have projects := covered arg isArg reads
      cases projects
    · have isNested' : (args.map (rewrite (changeBy edit.steps)))[plan.position]? =
          some (.call nestedId plan.inner.name (nested.map (rewrite (changeBy edit.steps)))) := by
        rw [List.getElem?_map, isNested, Option.map_some,
          edit.spares_changeBy_steps.rewrite_eq (e := .call nestedId _ nested) untouched]
        rfl
      rw [Expr.rewrite_eq, Expr.changeBy_of_lookup (by rwa [Expr.id_mapChildren]), Expr.mapChildren,
        spliceArgs_call isNested', List.map_append, List.map_append, List.map_take, List.map_drop]
  rw [if_neg calls] at lookup
  by_cases projects : projectsField types plan.outer.name plan.field.name part = true
  · rw [if_pos projects] at lookup
    rcases projectsField_eq_true_iff.mp projects with ⟨id, memberId, base, name, rfl, isOuter⟩
    have untouched := lookup_read checked follows isExpr isOuter
    have isBase : base ∈ one.e.subexprs := Expr.mem_subexprs_of_child List.mem_cons_self
      (Expr.mem_subexprs_of_child List.mem_cons_self isPart)
    rw [(Shader.types_eq_typeOf checked listed isBase).2] at isOuter
    refine .access isOuter ?_
    rw [Expr.rewrite_eq, Expr.changeBy_of_lookup (by rwa [Expr.id_mapChildren]), Expr.mapChildren,
      edit.spares_changeBy_steps.rewrite_eq (e := .member memberId base _) untouched]
    rfl
  · rw [if_neg projects] at lookup
    refine .other (fun id args isCall => ?_) (fun child isChild reads =>
      projects (covered child isChild reads))
      (edit.spares_changeBy_steps.rewrite_eq (Expr.lookup_eq_none_iff_notMem.mp lookup))
    rw [isCall] at calls
    exact calls (beq_self_eq_true _)

/-- What a change drops is the target of no other one, so they may come in any
order. -/
theorem naturalAt (checked : shader.check version = .ok types)
    (follows : edit.Follows shader types plan) {part : Expr} (listed : part ∈ shader.exprs)
    {change : Expr → Expr} (isStep : edit.steps.lookup part.id = some change) :
    NaturalAt (edit.steps.map Prod.fst) change part := by
  have distinct := (Shader.isValid_iff.mp ⟨types, checked⟩).1
  rw [lookup_steps distinct follows listed] at isStep
  intro before after sparesBefore sparesAfter fixed
  split at isStep
  · rename_i calls
    cases isStep
    rcases exists_of_calls distinct follows listed calls with
      ⟨id, args, nestedId, nested, rfl, isNested, untouched⟩
    have once : (args.map (rewrite before))[plan.position]? =
        some (.call nestedId plan.inner.name (nested.map (rewrite before))) := by
      rw [List.getElem?_map, isNested, Option.map_some,
        sparesBefore.rewrite_eq (e := .call nestedId _ nested) untouched]
      rfl
    have twice : ((args.map (rewrite before)).map (rewrite after))[plan.position]? =
        some (.call nestedId plan.inner.name ((nested.map (rewrite before)).map (rewrite after))) := by
      rw [List.getElem?_map, once, Option.map_some,
        sparesAfter.rewrite_eq (e := .call nestedId _ _) untouched]
      rfl
    have keeps : ∀ args, after (.call id plan.outer.name args) = .call id plan.outer.name args :=
      fun args => fixed (.call id plan.outer.name args) rfl
    rw [Expr.mapChildren, Expr.mapChildren, spliceArgs_call once, spliceArgs_call twice,
      Expr.rewrite_eq, Expr.mapChildren, keeps, List.map_append, List.map_append,
      List.map_take, List.map_drop]
  split at isStep
  · rename_i projects
    cases isStep
    rcases projectsField_eq_true_iff.mp projects with ⟨id, memberId, base, name, rfl, isOuter⟩
    have untouched := lookup_read checked follows listed isOuter
    have keeps : ∀ base name, after (.member id base name) = .member id base name :=
      fun base name => fixed (.member id base name) rfl
    rw [Expr.mapChildren, sparesBefore.rewrite_eq (e := .member memberId base _) untouched,
      Expr.mapChildren, Expr.mapChildren,
      sparesAfter.rewrite_eq (e := .member memberId (base.rewrite before) _) untouched,
      Expr.mapChildren, flattenAccess, flattenAccess, Expr.rewrite_eq, Expr.mapChildren, keeps]
  · cases isStep

theorem map_fst_steps (edit : FieldFlattening) :
    edit.steps.map Prod.fst = edit.constructors ++ edit.accesses := by
  simp only [steps, List.map_append, List.map_map, Function.comp_def, List.map_id']

/-- No node is changed twice. -/
theorem nodup_targets (distinct : shader.ids.Nodup) (follows : edit.Follows shader types plan) :
    (edit.constructors ++ edit.accesses).Nodup := by
  have sublist : ∀ p : Expr → Bool, ((shader.exprs.filter p).map Expr.id).Nodup := fun p =>
    (distinct.sublist (Shader.map_id_exprs_sublist shader)).sublist
      (List.filter_sublist.map Expr.id)
  rw [follows.constructors, follows.accesses]
  refine List.nodup_append'.mpr ⟨sublist _, sublist _, fun id isCall isAccess => ?_⟩
  rcases List.mem_map.mp isCall with ⟨e, listed, rfl⟩
  rcases List.mem_filter.mp listed with ⟨isExpr, calls⟩
  rw [Shader.id_mem_map_filter_iff distinct isExpr] at isAccess
  rcases projectsField_eq_true_iff.mp isAccess with ⟨id, memberId, base, name, rfl, _⟩
  cases calls

/-! ## The shader afterwards -/

/-- The shader with the new fields, and with every constructor call and access changed. -/
theorem apply_eq (checked : shader.check version = .ok types) (numbered : shader.IsNumbered)
    (follows : edit.Follows shader types plan) {before behind : List Decl}
    (split : shader.decls = before ++ .struct plan.outer :: behind) :
    edit.apply shader = Shader.mapExprs (rewrite (changeBy edit.steps))
      ⟨shader.version, before ++ .struct plan.widened :: behind,
        shader.nextId + plan.fresh.length⟩ := by
  have isInner : shader.struct? edit.inner = some plan.inner := by
    rw [follows.innerName, Shader.struct?_name checked follows.inner]
  have isOuter : shader.struct? edit.outer = some plan.outer := by
    rw [follows.outerName, Shader.struct?_name checked follows.outer]
  let drawn : Shader := { shader with nextId := shader.nextId + plan.fresh.length }
  let widened : Shader := ⟨shader.version, before ++ .struct plan.widened :: behind, drawn.nextId⟩
  have isWidened : drawn.replaceStruct edit.outer plan.widened = widened := by
    rw [follows.outerName, Shader.replaceStruct_eq checked split]
  have sameRoots : widened.roots = shader.roots := Shader.roots_replaceStruct split _ _
  have sameExprs : widened.exprs = shader.exprs := congrArg (·.flatMap Expr.subexprs) sameRoots
  have widenedNumbered : widened.IsNumbered := by
    rw [← isWidened]
    refine numbered.replaceStruct ⟨rfl, Nat.le_add_right _ _⟩ isOuter ?_
    have renews := edit.renews_fields shader plan.inner plan.outer
    rwa [← follows.fresh, follows.position] at renews
  have natural : ∀ part ∈ widened.exprs, ∀ change, edit.steps.lookup part.id = some change →
      NaturalAt (edit.constructors ++ edit.accesses) change part := by
    intro part isPart change isStep
    rw [← edit.map_fst_steps]
    exact naturalAt checked follows (sameExprs ▸ isPart) isStep
  have distinct := nodup_targets numbered.1 follows
  let constructing := edit.constructors.map fun target => (target, spliceArgs edit.position)
  have keys : constructing.map Prod.fst = edit.constructors := by
    simp only [constructing, List.map_map, Function.comp_def, List.map_id']
  have unchanged : widened.mapExprs (rewrite (changeBy [])) = widened :=
    Shader.mapExprs_eq_self fun e _ => Expr.rewrite_eq_self fun _ _ => rfl
  have constructed : (widened.mapExprs (rewrite (changeBy []))).modifyExprs edit.constructors
      (spliceArgs edit.position) = widened.mapExprs (rewrite (changeBy ([] ++ constructing))) := by
    refine Shader.modifyExprs_mapExprs (unchanged.symm ▸ widenedNumbered)
      (ids_spliceArgs_sublist edit.position) (List.nodup_append'.mp distinct).1
      fun part isPart change isStep => (natural part isPart change ?_).anti
        (List.subset_append_left _ _)
    rw [steps, List.lookup_append, show constructing.lookup part.id = some change from isStep,
      Option.some_or]
  rw [unchanged, List.nil_append] at constructed
  have accessed : (widened.mapExprs (rewrite (changeBy constructing))).modifyExprs edit.accesses
      flattenAccess = widened.mapExprs (rewrite (changeBy edit.steps)) := by
    refine Shader.modifyExprs_mapExprs ?_ ids_flattenAccess_sublist (by rwa [keys])
      fun part isPart change isStep => by rw [keys]; exact natural part isPart change isStep
    rw [← constructed]
    exact widenedNumbered.modifyExprs edit.constructors (ids_spliceArgs_sublist edit.position)
  rw [← accessed, ← constructed, ← isWidened, apply, isInner]
  dsimp only
  rw [← follows.fresh, show drawn.struct? edit.outer = some plan.outer from isOuter]
  have stillThere : plan.outer.fields[edit.position]?.map Field.id = some edit.field := by
    rw [follows.position, plan.isField, follows.fieldId]
    rfl
  dsimp only
  rw [if_neg (by simp [stillThere]), Flattening.widened, follows.position]

open Check.Context (Placed RetypesBy)

/-- What stands anywhere keeps its type where the struct is the changed one. -/
theorem retypesBy (checked : shader.check version = .ok types)
    (follows : edit.Follows shader types plan) :
    RetypesBy plan.Widens (fun e e' => e' = e.rewrite (changeBy edit.steps))
      (shader.placed version) := by
  rintro one listed ctx' _ alike rfl
  have typed := (Shader.types_eq_typeOf checked listed one.e.self_mem_subexprs).1
  exact (Flattening.typeOf_and_mayWrite (sees_of_mem_placed checked follows listed) alike
    (fun part isPart => flattensAt checked follows listed isPart) typed
    (reads_covered checked follows listed).1).1

/-- The changed struct is well declared where the struct was. -/
theorem acceptsDecl_widened (checked : shader.check version = .ok types)
    (follows : edit.Follows shader types plan) {before behind : List Decl}
    (split : shader.decls = before ++ .struct plan.outer :: behind) :
    ((Check.Context.initial version).behindDecls before).AcceptsDecl (.struct plan.widened) := by
  rcases (Shader.acceptsDecl_of_split checked split).1 with ⟨isNew, notEmpty, accepted⟩
  have isField := List.mem_of_getElem? plan.isField
  have isInner : .struct plan.inner ∈ before := by
    rcases Shader.mem_before_of_mem_fields checked split isField plan.fieldTy with
      ⟨inner, isBefore, named⟩
    have isDeclared : .struct inner ∈ shader.decls := split ▸ List.mem_append_left _ isBefore
    cases Decl.eq_of_topName?_eq (Shader.nodup_topNames checked) isDeclared follows.inner
      (congrArg some named) rfl
    exact isBefore
  have known := (Check.Context.acceptsFields_iff_nodup.mp accepted).1
  refine ⟨isNew, fun isEmpty => ?_, Check.Context.acceptsFields_iff_nodup.mpr
    ⟨fun field listed => ?_, plan.apart_widened, fun _ _ => List.not_mem_nil⟩⟩
  · have noFresh := congrArg List.length plan.shapes
    have noField := congrArg List.length isEmpty
    simp only [Flattening.widened, List.length_append, List.length_map, List.length_nil]
      at noFresh noField
    rcases List.append_of_mem follows.inner with ⟨_, _, split'⟩
    refine (Shader.acceptsDecl_of_split checked split').1.2.1 (List.length_eq_zero_iff.mp ?_)
    omega
  · rcases List.mem_append.mp listed with inFront | isBehind
    · rcases List.mem_append.mp inFront with inFront | isFresh
      · exact known field (List.take_subset _ _ inFront)
      · have isShape := List.mem_map_of_mem (f := Field.shape) isFresh
        rw [plan.shapes] at isShape
        rcases List.mem_map.mp isShape with ⟨nested, isNested, same⟩
        rw [← show nested.ty = field.ty from congrArg Prod.fst same]
        exact Shader.knows_of_mem_before checked split isInner isNested
    · exact known field (List.drop_subset _ _ isBehind)

/-- The edited shader follows the rules, and its expressions are the changed ones, where
the outer struct is the changed one. -/
theorem followsRules_apply (checked : shader.check version = .ok types)
    (numbered : shader.IsNumbered) (follows : edit.Follows shader types plan) :
    (edit.apply shader).FollowsRules version ∧
      List.Forall₂ (Placed.AlikeBy plan.Widens fun e e' => e' = e.rewrite (changeBy edit.steps))
        (shader.placed version) ((edit.apply shader).placed version) := by
  rcases List.append_of_mem follows.outer with ⟨before, behind, split⟩
  have replaces : Shader.ReplacesIn plan.Widens plan.outer plan.widened :=
    ⟨⟨rfl, fun _ => rfl, fun isOther => absurd rfl isOther⟩,
      fun other isOther _ alike => ⟨fun same => absurd same isOther, fun _ => alike⟩⟩
  refine Shader.followsRules_replaceStruct checked split ?_ replaces
    (acceptsDecl_widened checked follows split) (retypesBy checked follows)
  rw [apply_eq checked numbered follows split]
  exact List.map_append

section

variable (checked : shader.check version = .ok types) (numbered : shader.IsNumbered)
  (follows : edit.Follows shader types plan)
include checked follows

theorem id_rewrite {e : Expr} (listed : e ∈ shader.exprs) :
    (e.rewrite (changeBy edit.steps)).id = e.id := by
  rcases Shader.mem_exprs_iff.mp listed with ⟨one, isPlaced, isPart⟩
  exact (flattensAt checked follows isPlaced isPart).id_change

include numbered

/-- A part that neither reads the field nor calls the inner constructor is still there. -/
theorem rewrite_mem_exprs {one : Placed} (listed : one ∈ shader.placed version) {part : Expr}
    (isPart : part ∈ one.e.subexprs) (noRead : ¬ plan.Reads one.ctx part)
    (noCall : ∀ id args, part ≠ .call id plan.inner.name args) :
    part.rewrite (changeBy edit.steps) ∈ (edit.apply shader).exprs := by
  rcases exists_of_mem_left (followsRules_apply checked numbered follows).2 listed with
    ⟨one', listed', same⟩
  refine Shader.mem_exprs_iff.mpr ⟨one', listed', ?_⟩
  rw [same.e]
  exact Flattening.change_mem_subexprs
    (fun part isPart => flattensAt checked follows listed isPart) isPart noRead noCall

/-- What is still there has the type that it had. -/
theorem types_apply {types' : TypeTable} (checked' : (edit.apply shader).check version = .ok types')
    {e e' : Expr} (listed : e ∈ shader.exprs) (listed' : e' ∈ (edit.apply shader).exprs)
    (same : e'.id = e.id) : types'[e'.id]? = types[e.id]? := by
  rcases Shader.mem_exprs_iff.mp listed' with ⟨one', isPlaced', isPart'⟩
  rcases exists_of_mem_right (followsRules_apply checked numbered follows).2 isPlaced' with
    ⟨one, isPlaced, alike⟩
  have sees := sees_of_mem_placed checked follows isPlaced
  have flattens : ∀ part ∈ one.e.subexprs,
      plan.FlattensAt one.ctx (rewrite (changeBy edit.steps)) part := fun part isPart =>
    flattensAt checked follows isPlaced isPart
  rw [alike.e] at isPart'
  rcases Flattening.exists_of_mem_subexprs_change sees flattens
    (reads_covered checked follows isPlaced).1 isPart' with ⟨part, isPart, rfl, noRead⟩
  have isExpr : part ∈ shader.exprs := Shader.mem_exprs_iff.mpr ⟨one, isPlaced, isPart⟩
  rw [id_rewrite checked follows isExpr] at same
  cases Shader.expr_eq_of_id_eq numbered.1 isExpr listed same
  have typed := Shader.types_eq_typeOf checked isPlaced isPart
  have kept := Flattening.typeOf_and_mayWrite sees alike.ctx
    (fun inner isInner => flattens inner (Expr.mem_subexprs_trans isInner isPart)) typed.1 noRead
  rw [typed.2, ← kept.1]
  exact (Shader.types_eq_typeOf checked' isPlaced' (alike.e ▸ isPart')).2

/-- A constructor call takes the arguments of the inner call. -/
theorem exists_call_of_call {id : NodeId} {args : List Expr}
    (listed : .call id plan.outer.name args ∈ shader.exprs) :
    ∃ nestedId nested args', args[plan.position]? = some (.call nestedId plan.inner.name nested) ∧
      .call id plan.outer.name args' ∈ (edit.apply shader).exprs ∧ args'.map Expr.id =
        (args.take plan.position ++ nested ++ args.drop (plan.position + 1)).map Expr.id := by
  rcases Shader.mem_exprs_iff.mp listed with ⟨one, isPlaced, isPart⟩
  have stays := rewrite_mem_exprs checked numbered follows isPlaced isPart
    (fun ⟨_, _, isMember, _⟩ => nomatch isMember)
    fun _ _ same => plan.differ (Expr.call.inj same).2.1.symm
  have sameId : ∀ part ∈ one.e.subexprs, (part.rewrite (changeBy edit.steps)).id = part.id :=
    fun part isPart => id_rewrite checked follows (Shader.mem_exprs_iff.mpr ⟨one, isPlaced, isPart⟩)
  cases flattensAt checked follows isPlaced isPart with
  | @construct _ nestedId _ nested isNested _ changed =>
      have isArg : ∀ arg ∈ args, arg ∈ one.e.subexprs := fun arg isArg =>
        Expr.mem_subexprs_of_child (e := .call id _ args) isArg isPart
      rw [changed] at stays
      refine ⟨nestedId, nested, _, isNested, stays, ?_⟩
      rw [List.map_map]
      refine List.map_congr_left fun arg listed => sameId arg ?_
      rcases List.mem_append.mp listed with inFront | isBehind
      · rcases List.mem_append.mp inFront with inFront | isInner
        · exact isArg arg (List.take_subset _ _ inFront)
        · exact Expr.mem_subexprs_of_child (e := .call nestedId _ nested) isInner
            (isArg _ (List.mem_of_getElem? isNested))
      · exact isArg arg (List.drop_subset _ _ isBehind)
  | other noConstruct _ _ => exact absurd rfl (noConstruct id args)

/-- An access goes to the new field. -/
theorem exists_member_of_access {types' : TypeTable}
    (checked' : (edit.apply shader).check version = .ok types') {id memberId : NodeId} {base : Expr}
    {name : String} (listed : .member id (.member memberId base plan.field.name) name ∈ shader.exprs)
    (isOuter : types[base.id]? = some (.struct plan.outer.name)) :
    ∃ base', base'.id = base.id ∧ types'[base.id]? = some (.struct plan.outer.name) ∧
      .member id base' (flattenedName plan.field.name name) ∈ (edit.apply shader).exprs ∧
      types'[id]? = types[id]? := by
  rcases Shader.mem_exprs_iff.mp listed with ⟨one, isPlaced, isPart⟩
  have isRead : .member memberId base plan.field.name ∈ one.e.subexprs :=
    Expr.mem_subexprs_of_child List.mem_cons_self isPart
  have isBase : base ∈ one.e.subexprs :=
    Expr.mem_subexprs_of_child List.mem_cons_self isRead
  have listedBase : base ∈ shader.exprs := Shader.mem_exprs_iff.mpr ⟨one, isPlaced, isBase⟩
  have typeOfBase := isOuter
  rw [(Shader.types_eq_typeOf checked isPlaced isBase).2] at typeOfBase
  have reads : plan.Reads one.ctx (.member memberId base plan.field.name) :=
    ⟨memberId, base, rfl, typeOfBase⟩
  have sees := sees_of_mem_placed checked follows isPlaced
  have noRead : ¬ plan.Reads one.ctx (.member id (.member memberId base plan.field.name) name) := by
    rintro ⟨_, _, isMember, isOuter⟩
    cases isMember
    exact Flattening.not_reads_of_outer sees isOuter reads
  have stays := rewrite_mem_exprs checked numbered follows isPlaced isPart noRead
    fun _ _ same => nomatch same
  cases flattensAt checked follows isPlaced isPart with
  | access _ changed =>
      have sameType := types_apply checked numbered follows checked' listed stays
        (id_rewrite checked follows listed)
      rw [changed] at stays sameType
      have sameId := id_rewrite checked follows listedBase
      have staysBase : base.rewrite (changeBy edit.steps) ∈ (edit.apply shader).exprs :=
        Shader.mem_exprs_of_mem_children List.mem_cons_self stays
      have baseType := types_apply checked numbered follows checked' listedBase staysBase sameId
      rw [sameId, isOuter] at baseType
      exact ⟨_, sameId, baseType, stays, sameType⟩
  | other _ noRead _ => exact absurd reads (noRead _ List.mem_cons_self)

end

/-- What a shader and its types are when a field was flattened: how they relate to the
shader before and its types, and to the two structs. -/
structure Flattened (edit : FieldFlattening) (shader : Shader) (types : TypeTable)
    (edited : Shader) (types' : TypeTable) (outer inner widened : StructDecl) : Prop where
  isOuter : shader.struct? edit.outer = some outer
  isInner : shader.struct? edit.inner = some inner
  isField : ∃ field, outer.fields[edit.position]? = some field ∧
    field.ty = .struct edit.inner ∧ field.name = edit.fieldName
  isWidened : edited.struct? edit.outer = some widened
  /-- The fields of the inner struct stand in the place of the field. -/
  fields : widened.fields.map Field.shape =
    (outer.fields.take edit.position).map Field.shape ++
      inner.fields.map (fun nested => (nested.ty, flattenedName edit.fieldName nested.name)) ++
      (outer.fields.drop (edit.position + 1)).map Field.shape
  apart : (widened.fields.map Field.name).Nodup
  /-- Constructor calls have an argument for each field. -/
  arguments : ∀ id args, .call id edit.outer args ∈ edited.exprs →
    args.map (fun arg => types'[arg.id]?) = widened.fields.map (fun field => some field.ty)
  /-- They are the calls from before with the arguments of the inner calls. -/
  constructors : ∀ id args, .call id edit.outer args ∈ shader.exprs →
    ∃ nestedId nested args', args[edit.position]? = some (.call nestedId edit.inner nested) ∧
      .call id edit.outer args' ∈ edited.exprs ∧ args'.map Expr.id =
        (args.take edit.position ++ nested ++ args.drop (edit.position + 1)).map Expr.id
  /-- Accesses go to the new fields. -/
  accesses : ∀ id memberId base name,
    .member id (.member memberId base edit.fieldName) name ∈ shader.exprs →
      types[base.id]? = some (.struct edit.outer) →
        ∃ base', base'.id = base.id ∧ types'[base.id]? = some (.struct edit.outer) ∧
          .member id base' (flattenedName edit.fieldName name) ∈ edited.exprs ∧
          types'[id]? = types[id]?
  /-- What is still there has the type that it had. -/
  kept : ∀ e ∈ shader.exprs, ∀ e' ∈ edited.exprs, e'.id = e.id → types'[e'.id]? = types[e.id]?

/-- Flattening a field of a struct keeps a shader valid. -/
theorem exists_flattened (checked : shader.check version = .ok types)
    (below : ∀ id ∈ shader.ids, id < shader.nextId)
    (structs : ∀ decl ∈ shader.structs, IsUnclaimed decl.name) {everywhere : Bool}
    (found : edit ∈ find everywhere types shader) :
    ∃ types' outer inner widened, (edit.apply shader).check version = .ok types' ∧
      edit.Flattened shader types (edit.apply shader) types' outer inner widened := by
  rcases exists_plan checked structs found with ⟨plan, follows⟩
  have numbered := isNumbered_of_check checked below
  have followsRules := (followsRules_apply checked numbered follows).1
  rcases Shader.isValid_iff.mpr ⟨(edit.isNumbered_apply numbered).1, followsRules⟩ with
    ⟨types', checked'⟩
  have isDeclared : .struct plan.widened ∈ (edit.apply shader).decls := by
    rcases List.append_of_mem follows.outer with ⟨before, behind, split⟩
    rw [apply_eq checked numbered follows split]
    exact List.mem_map.mpr ⟨.struct plan.widened, List.mem_append_right _ List.mem_cons_self, rfl⟩
  have isWidened : (edit.apply shader).struct? plan.outer.name = some plan.widened :=
    Shader.struct?_name checked' isDeclared
  refine ⟨types', plan.outer, plan.inner, plan.widened, checked', ?_⟩
  constructor
  case isOuter => rw [follows.outerName, Shader.struct?_name checked follows.outer]
  case isInner => rw [follows.innerName, Shader.struct?_name checked follows.inner]
  case isField =>
    rw [follows.position, follows.innerName, follows.fieldName]
    exact ⟨plan.field, plan.isField, plan.fieldTy, rfl⟩
  case isWidened => rw [follows.outerName, isWidened]
  case fields => rw [follows.position, follows.fieldName, plan.shapes_widened]
  case apart => exact plan.apart_widened
  case arguments =>
    intro id args listed
    rw [follows.outerName] at listed
    rcases Shader.exists_split_of_mem_exprs listed with ⟨before, decl, behind, split, inDecl⟩
    exact (Shader.call_of_struct? checked' split inDecl (plan.isUnclaimed.1.callsDeclared _ _)
      isWidened).1
  case constructors =>
    intro id args listed
    rw [follows.outerName] at listed ⊢
    rw [follows.innerName, follows.position]
    exact exists_call_of_call checked numbered follows listed
  case accesses =>
    intro id memberId base name listed isOuter
    rw [follows.outerName] at isOuter ⊢
    rw [follows.fieldName] at listed ⊢
    exact exists_member_of_access checked numbered follows checked' listed isOuter
  case kept =>
    exact fun e listed e' listed' same =>
      types_apply checked numbered follows checked' listed listed' same

/-- The shader `struct I { int a; int b; }; struct O { bool c; I f; };
void main() { O o = O(true, I(1, 2)); o.f.a = o.f.b; }`. -/
def nested : Shader :=
  .ofDecls .essl100 [.struct ⟨.unnumbered, "I", [⟨.unnumbered, .int, "a"⟩, ⟨.unnumbered, .int, "b"⟩]⟩,
    .struct ⟨.unnumbered, "O", [⟨.unnumbered, .bool, "c"⟩, ⟨.unnumbered, .struct "I", "f"⟩]⟩,
    .function ⟨.unnumbered, .void, "main", [], ⟨.unnumbered,
      [.decl .unnumbered ⟨.unnumbered, none, .struct "O", "o",
        some (.call .unnumbered "O" [.bool .unnumbered true,
          .call .unnumbered "I" [.int .unnumbered 1, .int .unnumbered 2]])⟩,
      .expr .unnumbered (.assign .unnumbered .set
        (.member .unnumbered (.member .unnumbered (.var .unnumbered "o") "f") "a")
        (.member .unnumbered (.member .unnumbered (.var .unnumbered "o") "f") "b"))]⟩⟩]

/-- The field `f` is flattened in the constructor call and in both accesses. -/
theorem exists_flattened_nested :
    ∃ types types' outer inner widened, nested.check .essl100 = .ok types ∧
      (∀ id ∈ nested.ids, id < nested.nextId) ∧
      (∀ decl ∈ nested.structs, IsUnclaimed decl.name) ∧
      ⟨"O", "I", 5, "f", 1, [10], [17, 20]⟩ ∈ find true types nested ∧
      (apply ⟨"O", "I", 5, "f", 1, [10], [17, 20]⟩ nested).check .essl100 = .ok types' ∧
      Flattened ⟨"O", "I", 5, "f", 1, [10], [17, 20]⟩ nested types
        (apply ⟨"O", "I", 5, "f", 1, [10], [17, 20]⟩ nested) types' outer inner widened := by
  have isFound : (nested.check .essl100).toOption.map (fun types => find true types nested) =
      some [⟨"O", "I", 5, "f", 1, [10], [17, 20]⟩] := by decide
  have below : ∀ id ∈ nested.ids, id < nested.nextId := by decide
  have structs : ∀ decl ∈ nested.structs, IsUnclaimed decl.name := by decide
  cases checked : nested.check .essl100 with
  | error problems =>
      rw [checked] at isFound
      cases isFound
  | ok types =>
      rw [checked] at isFound
      have found : ⟨"O", "I", 5, "f", 1, [10], [17, 20]⟩ ∈ find true types nested :=
        (Option.some.inj isFound : find true types nested = _) ▸ List.mem_cons_self
      rcases exists_flattened checked below structs found with
        ⟨types', outer, inner, widened, checked', flattened⟩
      exact ⟨types, types', outer, inner, widened, rfl, below, structs, found, checked', flattened⟩

end FieldFlattening
end Reduction
end Whittle
