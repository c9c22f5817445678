import Whittle.Proofs.Reduction.CallArguments
import Whittle.Proofs.Reduction.StructReplacement
import Whittle.Proofs.Typing.Narrowing
import Whittle.Reduction.Struct.FieldRemoval

namespace Whittle

/-!
# Removing a field that nothing reads keeps a shader valid

The search asks the table of types for accesses to a field.  Where there is none,
the struct loses the field and every call of the constructor its argument, also a
call within an argument of another one.
-/

namespace Reduction
namespace FieldRemoval

variable {shader : Shader} {version : Version} {types : TypeTable} {edit : FieldRemoval}
  {plan : Narrowing}

/-- The edit is about the field of the plan, its targets are all calls of the
constructor, and nothing reads the field. -/
structure Follows (edit : FieldRemoval) (shader : Shader) (types : TypeTable) (plan : Narrowing) :
    Prop where
  isDeclared : .struct plan.decl ∈ shader.decls
  struct : edit.struct = plan.decl.name
  fieldId : edit.field = plan.field.id
  fieldName : edit.fieldName = plan.field.name
  position : edit.position = plan.position
  constructors : edit.constructors = callIds shader.exprs plan.decl.name
  unread : ∀ e ∈ shader.exprs, accessesField types plan.decl.name plan.field.name e = false
  several : 2 ≤ plan.decl.fields.length

theorem exists_plan (checked : shader.check version = .ok types)
    (structs : ∀ decl ∈ shader.structs, IsUnclaimed decl.name) {everywhere : Bool}
    (found : edit ∈ find everywhere types shader) : ∃ plan, edit.Follows shader types plan := by
  rcases List.mem_flatMap.mp found with ⟨decl, isStruct, found⟩
  rw [ofStruct] at found
  split at found
  · cases found
  rename_i several
  rcases List.mem_filterMap.mp found with ⟨⟨field, position⟩, isField, found⟩
  rw [List.mem_zipIdx_iff_getElem?] at isField
  simp only [Option.ite_none_left_eq_some, Option.ite_none_right_eq_some, Option.some.injEq] at found
  rcases found with ⟨unread, _, rfl⟩
  have isDeclared := Shader.mem_structs_iff.mp isStruct
  refine ⟨⟨decl, position, field, isField, structs decl isStruct, Shader.nodup_fields checked isDeclared⟩,
    isDeclared, rfl, rfl, rfl, rfl, rfl, fun e listed => ?_, Nat.le_of_not_lt several⟩
  rw [Bool.not_eq_true, List.any_eq_false] at unread
  exact Bool.eq_false_iff.mpr (unread e listed)

open Narrowing (shortened)

/-- The field is found again by its identifier. -/
theorem findIdx?_field (distinct : shader.ids.Nodup) (follows : edit.Follows shader types plan) :
    (plan.decl.fields.findIdx? fun field => field.id == edit.field) = some plan.position := by
  have ofDecl : (Decl.struct plan.decl).ids.Nodup := by
    rcases List.append_of_mem follows.isDeclared with ⟨before, behind, split⟩
    rw [Shader.ids, split, List.flatMap_append, List.flatMap_cons] at distinct
    exact (List.nodup_append'.mp (List.nodup_append'.mp distinct).2.1).1
  have apart : (plan.decl.fields.map Field.id).Nodup := (List.nodup_cons.mp ofDecl).2
  rw [follows.fieldId]
  exact findIdx?_key apart plan.isField

/-- The shader with the shorter struct, and with every call of its constructor
shortened. -/
theorem apply_eq (checked : shader.check version = .ok types) (numbered : shader.IsNumbered)
    (follows : edit.Follows shader types plan) {before behind : List Decl}
    (split : shader.decls = before ++ .struct plan.decl :: behind) :
    edit.apply shader = Shader.mapExprs (shortened edit.struct edit.position)
      ⟨shader.version, before ++ .struct plan.narrowed :: behind, shader.nextId⟩ := by
  have isStruct : shader.struct? edit.struct = some plan.decl := by
    rw [follows.struct, Shader.struct?_name checked follows.isDeclared]
  let narrowed : Shader := ⟨shader.version, before ++ .struct plan.narrowed :: behind, shader.nextId⟩
  have isNarrowed : shader.replaceStruct edit.struct plan.narrowed = narrowed := by
    rw [follows.struct]
    exact Shader.replaceStruct_eq checked split plan.narrowed shader.nextId
  have sameRoots : narrowed.roots = shader.roots := Shader.roots_replaceStruct split _ _
  have stillNumbered : narrowed.IsNumbered := by
    rw [← isNarrowed]
    refine numbered.replaceStruct (.refl shader) isStruct (.of_sublist ?_)
    exact (plan.fields_sublist.map Field.id).cons_cons plan.decl.id
  have sameExprs : narrowed.exprs = shader.exprs := congrArg (List.flatMap Expr.subexprs) sameRoots
  rw [apply, isStruct]
  dsimp only
  rw [findIdx?_field numbered.1 follows]
  dsimp only
  rw [show { plan.decl with fields := plan.decl.fields.eraseIdx plan.position } = plan.narrowed from rfl,
    isNarrowed, follows.constructors, ← sameExprs, Shader.modifyExprs_callIds stillNumbered,
    follows.struct, follows.position]

open Check.Context (Placed)

/-- The shorter struct is well declared where the struct was. -/
theorem acceptsDecl_narrowed (checked : shader.check version = .ok types)
    (follows : edit.Follows shader types plan) {before behind : List Decl}
    (split : shader.decls = before ++ .struct plan.decl :: behind) :
    ((Check.Context.initial version).behindDecls before).AcceptsDecl (.struct plan.narrowed) := by
  rcases (Shader.acceptsDecl_of_split checked split).1 with ⟨isNew, _, accepted⟩
  have known := (Check.Context.acceptsFields_iff_nodup.mp accepted).1
  refine ⟨isNew, fun isEmpty => ?_, Check.Context.acceptsFields_iff_nodup.mpr
    ⟨fun field listed => known field (plan.fields_sublist.subset listed), plan.apart_narrowed,
      fun _ _ => List.not_mem_nil⟩⟩
  rcases List.getElem?_eq_some_iff.mp plan.isField with ⟨inRange, _⟩
  have several := follows.several
  have noField := congrArg List.length isEmpty
  rw [Narrowing.narrowed, List.length_eraseIdx_of_lt inRange, List.length_nil] at noField
  omega

section

variable (checked : shader.check version = .ok types) (follows : edit.Follows shader types plan)
include checked follows

/-- Wherever an expression stands, the name of the struct stands for it. -/
theorem sees_of_mem_placed {one : Placed} (listed : one ∈ shader.placed version) :
    plan.Sees one.ctx := by
  rcases Shader.scope_of_struct checked follows.isDeclared listed with ⟨structs, functions⟩
  exact ⟨structs, functions⟩

/-- No expression of the shader reads the field. -/
theorem not_reads {one : Placed} (listed : one ∈ shader.placed version) {part : Expr}
    (isPart : part ∈ one.e.subexprs) : ¬ plan.Reads one.ctx part := by
  intro reads
  have accesses := (accessesField_iff_typeOf checked listed isPart).mpr reads
  rw [follows.unread part (Shader.mem_exprs_iff.mpr ⟨one, listed, isPart⟩)] at accesses
  cases accesses

/-- A part of an expression keeps its type where the struct is the shorter one. -/
theorem typeOf_shortened {one : Placed} (listed : one ∈ shader.placed version) {part : Expr}
    (isPart : part ∈ one.e.subexprs) {ctx' : Check.Context}
    (alike : one.ctx.AlikeBy plan.Narrows ctx') :
    ctx'.typeOf (shortened edit.struct edit.position part) = one.ctx.typeOf part := by
  rw [follows.struct, follows.position]
  exact (Narrowing.typeOf_and_mayWrite (sees_of_mem_placed checked follows listed) alike
    (fun inner isInner => not_reads checked follows listed (Expr.mem_subexprs_trans isInner isPart))
    (Shader.types_eq_typeOf checked listed isPart).1).1

/-- The edited shader follows the rules, and its expressions are the shortened ones,
where the struct is the shorter one. -/
theorem followsRules_apply (numbered : shader.IsNumbered) :
    (edit.apply shader).FollowsRules version ∧
      List.Forall₂ (Placed.AlikeBy plan.Narrows fun e e' =>
          e' = shortened edit.struct edit.position e)
        (shader.placed version) ((edit.apply shader).placed version) := by
  rcases List.append_of_mem follows.isDeclared with ⟨before, behind, split⟩
  have replaces : Shader.ReplacesIn plan.Narrows plan.decl plan.narrowed :=
    ⟨⟨rfl, fun _ => rfl, fun isOther => absurd rfl isOther⟩,
      fun other isOther _ alike => ⟨fun same => absurd same isOther, fun _ => alike⟩⟩
  refine Shader.followsRules_replaceStruct checked split ?_ replaces
    (acceptsDecl_narrowed checked follows split) ?_
  · rw [apply_eq checked numbered follows split]
    exact List.map_append
  · rintro one listed ctx' _ alike rfl
    exact typeOf_shortened checked follows listed one.e.self_mem_subexprs alike

end

/-- What a shader and its types are when a field of a struct was removed. -/
structure Removed (edit : FieldRemoval) (shader : Shader) (types : TypeTable) (edited : Shader)
    (types' : TypeTable) (decl : StructDecl) : Prop where
  isStruct : shader.struct? edit.struct = some decl
  isField : ∃ field, decl.fields[edit.position]? = some field ∧ field.id = edit.field ∧
    field.name = edit.fieldName
  /-- The struct has its other fields in order. -/
  isNarrowed : edited.struct? edit.struct =
    some { decl with fields := decl.fields.eraseIdx edit.position }
  /-- Nothing else changes but the calls of the constructor. -/
  decls : ∃ before behind, shader.decls = before ++ .struct decl :: behind ∧
    edited.decls = before.map (Decl.mapExprs (shortened edit.struct edit.position)) ++
      .struct { decl with fields := decl.fields.eraseIdx edit.position } ::
        behind.map (Decl.mapExprs (shortened edit.struct edit.position))
  /-- A call of the constructor that is still there has its other arguments in order. -/
  constructors : ∀ id args', .call id edit.struct args' ∈ edited.exprs →
    ∃ args, .call id edit.struct args ∈ shader.exprs ∧
      args' = (args.eraseIdx edit.position).map (shortened edit.struct edit.position) ∧
      args'.map Expr.id = (args.eraseIdx edit.position).map Expr.id
  /-- What is still there has the type that it had. -/
  kept : ∀ e' ∈ edited.exprs, ∃ e ∈ shader.exprs, e' = shortened edit.struct edit.position e ∧
    e'.id = e.id ∧ types'[e'.id]? = types[e.id]?
  /-- Everything is still there but what stands in an argument for the field. -/
  left : ∀ e ∈ shader.exprs, shortened edit.struct edit.position e ∈ edited.exprs ∨
    ∃ id args arg, .call id edit.struct args ∈ shader.exprs ∧ args[edit.position]? = some arg ∧
      e ∈ arg.subexprs

section

variable (checked : shader.check version = .ok types) (follows : edit.Follows shader types plan)
  (numbered : shader.IsNumbered)
include checked follows numbered

/-- What is there afterwards is a shortened expression, of the type that it had. -/
theorem exists_of_mem_exprs_apply {types' : TypeTable}
    (checked' : (edit.apply shader).check version = .ok types') {e' : Expr}
    (listed' : e' ∈ (edit.apply shader).exprs) :
    ∃ e ∈ shader.exprs, e' = shortened edit.struct edit.position e ∧ e'.id = e.id ∧
      types'[e'.id]? = types[e.id]? := by
  rcases Shader.mem_exprs_iff.mp listed' with ⟨one', isPlaced', isPart'⟩
  rcases exists_of_mem_right (followsRules_apply checked follows numbered).2 isPlaced'
    with ⟨one, isPlaced, alike⟩
  rw [alike.e] at isPart'
  rcases Narrowing.exists_of_mem_subexprs_shortened isPart' with ⟨e, isPart, rfl⟩
  refine ⟨e, Shader.mem_exprs_iff.mpr ⟨one, isPlaced, isPart⟩, rfl, Narrowing.id_shortened e, ?_⟩
  rw [(Shader.types_eq_typeOf checked isPlaced isPart).2,
    (Shader.types_eq_typeOf checked' isPlaced' (alike.e ▸ isPart')).2]
  exact typeOf_shortened checked follows isPlaced isPart alike.ctx

/-- An expression is still there, or it stands in an argument for the field. -/
theorem shortened_mem_exprs_apply_or {e : Expr} (listed : e ∈ shader.exprs) :
    shortened edit.struct edit.position e ∈ (edit.apply shader).exprs ∨
      ∃ id args arg, .call id edit.struct args ∈ shader.exprs ∧ args[edit.position]? = some arg ∧
        e ∈ arg.subexprs := by
  rcases Shader.mem_exprs_iff.mp listed with ⟨one, isPlaced, isPart⟩
  rcases exists_of_mem_left (followsRules_apply checked follows numbered).2 isPlaced
    with ⟨one', isPlaced', alike⟩
  rcases Narrowing.shortened_mem_subexprs_or isPart with stays | ⟨id, args, arg, isCall, isArg, isPart⟩
  · exact .inl (Shader.mem_exprs_iff.mpr ⟨one', isPlaced', alike.e ▸ stays⟩)
  · exact .inr ⟨id, args, arg, Shader.mem_exprs_iff.mpr ⟨one, isPlaced, isCall⟩, isArg, isPart⟩

end

/-- Removing a field of a struct keeps a shader valid. -/
theorem exists_removed (checked : shader.check version = .ok types)
    (below : ∀ id ∈ shader.ids, id < shader.nextId)
    (structs : ∀ decl ∈ shader.structs, IsUnclaimed decl.name) {everywhere : Bool}
    (found : edit ∈ find everywhere types shader) :
    ∃ types' decl, (edit.apply shader).check version = .ok types' ∧
      edit.Removed shader types (edit.apply shader) types' decl := by
  rcases exists_plan checked structs found with ⟨plan, follows⟩
  have numbered := isNumbered_of_check checked below
  have followsRules := (followsRules_apply checked follows numbered).1
  rcases Shader.isValid_iff.mpr ⟨(edit.isNumbered_apply numbered).1, followsRules⟩ with
    ⟨types', checked'⟩
  rcases List.append_of_mem follows.isDeclared with ⟨before, behind, split⟩
  have narrowed : { plan.decl with fields := plan.decl.fields.eraseIdx edit.position } =
      plan.narrowed := by rw [follows.position]; rfl
  have areDecls : (edit.apply shader).decls =
      before.map (Decl.mapExprs (shortened edit.struct edit.position)) ++ .struct plan.narrowed ::
        behind.map (Decl.mapExprs (shortened edit.struct edit.position)) := by
    rw [apply_eq checked numbered follows split]
    exact List.map_append
  have isDeclared' : .struct plan.narrowed ∈ (edit.apply shader).decls := by
    rw [areDecls]
    exact List.mem_append_right _ List.mem_cons_self
  have kept := fun e' (listed' : e' ∈ (edit.apply shader).exprs) =>
    exists_of_mem_exprs_apply checked follows numbered checked' listed'
  refine ⟨types', plan.decl, checked', ?_⟩
  constructor
  case isStruct => rw [follows.struct, Shader.struct?_name checked follows.isDeclared]
  case isField =>
    rw [follows.position, follows.fieldId, follows.fieldName]
    exact ⟨plan.field, plan.isField, rfl, rfl⟩
  case isNarrowed =>
    rw [narrowed, follows.struct]
    exact Shader.struct?_name checked' isDeclared'
  case decls =>
    rw [narrowed]
    exact ⟨before, behind, split, areDecls⟩
  case constructors =>
    intro id args' listed'
    rcases kept _ listed' with ⟨e, listed, same, _⟩
    rcases Narrowing.exists_args_of_shortened_eq same with ⟨args, rfl, areArgs, sameIds⟩
    exact ⟨args, listed, areArgs, sameIds⟩
  case kept => exact kept
  case left => exact fun e listed => shortened_mem_exprs_apply_or checked follows numbered listed

/-- The shader `struct S { int a; int b; };
void main() { S s = S(S(1, 2).a, S(3, 4).a); }`. -/
def pairs : Shader :=
  .ofDecls .essl100 [.struct ⟨.unnumbered, "S", [⟨.unnumbered, .int, "a"⟩, ⟨.unnumbered, .int, "b"⟩]⟩,
    .function ⟨.unnumbered, .void, "main", [], ⟨.unnumbered,
      [.decl .unnumbered ⟨.unnumbered, none, .struct "S", "s",
        some (.call .unnumbered "S" [
          .member .unnumbered (.call .unnumbered "S" [.int .unnumbered 1, .int .unnumbered 2]) "a",
          .member .unnumbered (.call .unnumbered "S" [.int .unnumbered 3, .int .unnumbered 4]) "a"])⟩]⟩⟩]

/-- The field `b` is removed, and with it a whole call of the constructor. -/
theorem exists_removed_pairs :
    ∃ types types' decl, pairs.check .essl100 = .ok types ∧
      (∀ id ∈ pairs.ids, id < pairs.nextId) ∧ (∀ decl ∈ pairs.structs, IsUnclaimed decl.name) ∧
      ⟨"S", 2, "b", 1, [7, 9, 13]⟩ ∈ find true types pairs ∧
      (apply ⟨"S", 2, "b", 1, [7, 9, 13]⟩ pairs).check .essl100 = .ok types' ∧
      Removed ⟨"S", 2, "b", 1, [7, 9, 13]⟩ pairs types
        (apply ⟨"S", 2, "b", 1, [7, 9, 13]⟩ pairs) types' decl := by
  have isFound : (pairs.check .essl100).toOption.map (fun types => find true types pairs) =
      some [⟨"S", 2, "b", 1, [7, 9, 13]⟩] := by decide
  have below : ∀ id ∈ pairs.ids, id < pairs.nextId := by decide
  have structs : ∀ decl ∈ pairs.structs, IsUnclaimed decl.name := by decide
  cases checked : pairs.check .essl100 with
  | error problems =>
      rw [checked] at isFound
      cases isFound
  | ok types =>
      rw [checked] at isFound
      have found : ⟨"S", 2, "b", 1, [7, 9, 13]⟩ ∈ find true types pairs :=
        (Option.some.inj isFound : find true types pairs = _) ▸ List.mem_cons_self
      rcases exists_removed checked below structs found with ⟨types', decl, checked', removed⟩
      exact ⟨types, types', decl, rfl, below, structs, found, checked', removed⟩

end FieldRemoval
end Reduction
end Whittle
