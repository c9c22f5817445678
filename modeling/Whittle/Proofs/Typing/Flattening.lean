import Whittle.Proofs.Syntax.Operands
import Whittle.Proofs.Typing.Calls
import Whittle.Proofs.Typing.Congruence
import Whittle.Reduction.Struct.FieldFlattening

namespace Whittle

/-!
# Types where a nested struct is flattened

One struct has a field whose type is another struct.  In the place of this field
the outer struct can have the fields of the inner one.  An expression keeps its type
then, provided that it changes as its struct does: a constructor call of the outer
struct takes the arguments of the inner call, and an access that goes through the
field goes to one of the new fields.  What has no counterpart is the field as a
whole.
-/

open Reduction (flattenedName)

/-- A field of a struct that is itself of a struct type, and the fields that can stand
in its place. -/
structure Flattening where
  outer : StructDecl
  inner : StructDecl
  position : Nat
  field : Field
  fresh : List Field
  isField : outer.fields[position]? = some field
  fieldTy : field.ty = .struct inner.name
  differ : inner.name ≠ outer.name
  isUnclaimed : IsUnclaimed outer.name ∧ IsUnclaimed inner.name
  shapes : fresh.map Field.shape =
    inner.fields.map fun nested => (nested.ty, flattenedName field.name nested.name)
  apart : (outer.fields.map Field.name).Nodup
  innerApart : (inner.fields.map Field.name).Nodup
  /-- No other field has the name of a new one. -/
  areFree : ∀ nested ∈ inner.fields, ∀ other ∈ outer.fields,
    other.name ≠ flattenedName field.name nested.name

theorem flattenedName_inj {field first second : String}
    (same : flattenedName field first = flattenedName field second) : first = second :=
  (String.append_right_inj _).mp same

namespace Flattening

variable (plan : Flattening)

/-- The outer struct with the new fields. -/
def widened : StructDecl :=
  { plan.outer with
    fields := plan.outer.fields.take plan.position ++ plan.fresh ++
      plan.outer.fields.drop (plan.position + 1) }

theorem shapes_widened : plan.widened.fields.map Field.shape =
    (plan.outer.fields.take plan.position).map Field.shape ++
      plan.inner.fields.map (fun nested => (nested.ty, flattenedName plan.field.name nested.name)) ++
      (plan.outer.fields.drop (plan.position + 1)).map Field.shape := by
  rw [widened, List.map_append, List.map_append, plan.shapes]

theorem fields_outer : plan.outer.fields =
    plan.outer.fields.take plan.position ++ plan.field :: plan.outer.fields.drop (plan.position + 1) := by
  rcases List.getElem?_eq_some_iff.mp plan.isField with ⟨inRange, isField⟩
  rw [← isField, List.getElem_cons_drop, List.take_append_drop]

/-- The types of the new fields, in order. -/
theorem tys_widened : plan.widened.fields.map Field.ty =
    (plan.outer.fields.take plan.position).map Field.ty ++ plan.inner.fields.map Field.ty ++
      (plan.outer.fields.drop (plan.position + 1)).map Field.ty := by
  have shapes := congrArg (List.map Prod.fst) plan.shapes_widened
  simp only [List.map_append, List.map_map] at shapes
  exact shapes

/-- The names of the new fields, in order. -/
theorem names_widened : plan.widened.fields.map Field.name =
    (plan.outer.fields.take plan.position).map Field.name ++
      plan.inner.fields.map (fun nested => flattenedName plan.field.name nested.name) ++
      (plan.outer.fields.drop (plan.position + 1)).map Field.name := by
  have shapes := congrArg (List.map Prod.snd) plan.shapes_widened
  simp only [List.map_append, List.map_map] at shapes
  exact shapes

/-- No two fields have one name afterwards. -/
theorem apart_widened : (plan.widened.fields.map Field.name).Nodup := by
  have split := plan.apart
  rw [plan.fields_outer, List.map_append, List.map_cons] at split
  have kept := split.sublist (List.Sublist.append (.refl _) (List.sublist_cons_self _ _))
  rcases List.nodup_append'.mp kept with ⟨ofFront, ofBehind, apartSides⟩
  have flattened : (plan.inner.fields.map fun nested =>
      flattenedName plan.field.name nested.name).Nodup := by
    have renamed := plan.innerApart.map (@flattenedName_inj plan.field.name)
    rwa [List.map_map] at renamed
  have areFree : ∀ fields : List Field, fields ⊆ plan.outer.fields →
      (fields.map Field.name).Disjoint
        (plan.inner.fields.map fun nested => flattenedName plan.field.name nested.name) := by
    intro fields among name isOld isNew
    rcases List.mem_map.mp isOld with ⟨other, listed, rfl⟩
    rcases List.mem_map.mp isNew with ⟨nested, isNested, same⟩
    exact plan.areFree nested isNested other (among listed) same.symm
  rw [plan.names_widened]
  refine List.nodup_append'.mpr ⟨List.nodup_append'.mpr ⟨ofFront, flattened,
    areFree _ (List.take_subset _ _)⟩, ofBehind, ?_⟩
  exact List.disjoint_append_left.mpr ⟨apartSides, List.disjoint_symm (areFree _ (List.drop_subset _ _))⟩

/-- Another field is found as before. -/
theorem ty_field?_widened {name : String} {ty : Ty} (isOther : name ≠ plan.field.name)
    (isTy : (plan.outer.field? name).map Field.ty = some ty) :
    (plan.widened.field? name).map Field.ty = some ty := by
  rw [StructDecl.ty_field?_eq_some_iff plan.apart, plan.fields_outer, List.map_append, List.map_cons,
    List.mem_append, List.mem_cons] at isTy
  rw [StructDecl.ty_field?_eq_some_iff plan.apart_widened, plan.shapes_widened, List.mem_append,
    List.mem_append]
  rcases isTy with inFront | isField | isBehind
  · exact .inl (.inl inFront)
  · exact absurd (congrArg Prod.snd isField) isOther
  · exact .inr isBehind

/-- A field of the inner struct is found under its new name. -/
theorem ty_field?_flattened {name : String} {ty : Ty}
    (isTy : (plan.inner.field? name).map Field.ty = some ty) :
    (plan.widened.field? (flattenedName plan.field.name name)).map Field.ty = some ty := by
  rw [StructDecl.ty_field?_eq_some_iff plan.innerApart] at isTy
  rcases List.mem_map.mp isTy with ⟨nested, isNested, same⟩
  cases same
  rw [StructDecl.ty_field?_eq_some_iff plan.apart_widened, plan.shapes_widened]
  exact List.mem_append_left _ (List.mem_append_right _ (List.mem_map.mpr ⟨nested, isNested, rfl⟩))

theorem ty_field?_field : (plan.outer.field? plan.field.name).map Field.ty = some plan.field.ty := by
  rw [StructDecl.ty_field?_eq_some_iff plan.apart]
  exact List.mem_map_of_mem (List.mem_of_getElem? plan.isField)

/-- The struct afterwards in the place of a struct. -/
structure Widens (decl decl' : StructDecl) : Prop where
  ofOuter : decl = plan.outer → decl' = plan.widened
  ofOther : decl ≠ plan.outer → decl.Alike decl'

/-- In the context the names of the two structs stand for nothing else. -/
structure Sees (ctx : Check.Context) : Prop where
  outer : ∀ decl ∈ ctx.structs, decl.name = plan.outer.name → decl = plan.outer
  inner : ∀ decl ∈ ctx.structs, decl.name = plan.inner.name → decl = plan.inner
  functions : ∀ f ∈ ctx.functions, f.name ≠ plan.outer.name ∧ f.name ≠ plan.inner.name

open Check Check.Context

variable {plan} {ctx ctx' : Check.Context}

theorem Sees.struct?_outer (sees : plan.Sees ctx) {decl : StructDecl}
    (isStruct : ctx.struct? plan.outer.name = some decl) : decl = plan.outer := by
  have named := List.find?_some isStruct
  exact sees.outer decl (List.mem_of_find?_eq_some isStruct) (beq_iff_eq.mp named)

theorem Sees.struct?_inner (sees : plan.Sees ctx) {decl : StructDecl}
    (isStruct : ctx.struct? plan.inner.name = some decl) : decl = plan.inner := by
  have named := List.find?_some isStruct
  exact sees.inner decl (List.mem_of_find?_eq_some isStruct) (beq_iff_eq.mp named)

/-- Where the outer struct is in scope, the changed one is in scope afterwards. -/
theorem struct?_widened (sees : plan.Sees ctx) (alike : ctx.AlikeBy plan.Widens ctx')
    (inScope : (ctx.struct? plan.outer.name).isSome) :
    ctx'.struct? plan.outer.name = some plan.widened := by
  rcases option_rel_cases (alike.struct? plan.outer.name) with
    ⟨isMissing, _⟩ | ⟨decl, decl', isDecl, isDecl', related⟩
  · rw [isMissing] at inScope
    cases inScope
  · rw [isDecl', related.related.ofOuter (sees.struct?_outer isDecl)]

/-- A typed call of the constructor of the outer struct has an argument for each
field. -/
theorem Sees.call_outer (sees : plan.Sees ctx) {tys : List Ty} {ty : Ty}
    (isTy : ctx.call plan.outer.name tys = .ok ty) :
    (ctx.struct? plan.outer.name).isSome ∧ tys = plan.outer.fields.map Field.ty ∧
      ty = .struct plan.outer.name := by
  rcases exists_of_call_eq_ok (plan.isUnclaimed.1.callsDeclared _ _) isTy with
    ⟨decl, listed, named, areTys, isTy⟩ | ⟨f, listed, named, _⟩
  · have inScope : (ctx.struct? plan.outer.name).isSome :=
      List.find?_isSome.mpr ⟨decl, listed, beq_iff_eq.mpr named⟩
    rw [sees.outer decl listed named] at areTys isTy
    exact ⟨inScope, areTys, isTy⟩
  · exact absurd named (sees.functions f listed).1

theorem Sees.call_inner (sees : plan.Sees ctx) {tys : List Ty} {ty : Ty}
    (isTy : ctx.call plan.inner.name tys = .ok ty) : tys = plan.inner.fields.map Field.ty := by
  rcases exists_of_call_eq_ok (plan.isUnclaimed.2.callsDeclared _ _) isTy with
    ⟨decl, listed, named, areTys, _⟩ | ⟨f, listed, named, _⟩
  · rw [sees.inner decl listed named] at areTys
    exact areTys
  · exact absurd named (sees.functions f listed).2

/-! ## Expressions -/

def Reads (plan : Flattening) (ctx : Context) (e : Expr) : Prop :=
  ∃ id base, e = .member id base plan.field.name ∧
    ctx.typeOf base = some (.struct plan.outer.name)

/-- How an expression has to change.  A read of the field as a whole may only be the
base of an access. -/
inductive FlattensAt (plan : Flattening) (ctx : Context) (change : Expr → Expr) : Expr → Prop where
  | construct {id nestedId : NodeId} {args nested : List Expr}
      (isNested : args[plan.position]? = some (.call nestedId plan.inner.name nested))
      (noRead : ∀ arg ∈ args, ¬ plan.Reads ctx arg)
      (changed : change (.call id plan.outer.name args) = .call id plan.outer.name
        ((args.take plan.position ++ nested ++ args.drop (plan.position + 1)).map change)) :
      FlattensAt plan ctx change (.call id plan.outer.name args)
  | access {id memberId : NodeId} {base : Expr} {name : String}
      (isOuter : ctx.typeOf base = some (.struct plan.outer.name))
      (changed : change (.member id (.member memberId base plan.field.name) name) =
        .member id (change base) (flattenedName plan.field.name name)) :
      FlattensAt plan ctx change (.member id (.member memberId base plan.field.name) name)
  | other {e : Expr} (noConstruct : ∀ id args, e ≠ .call id plan.outer.name args)
      (noRead : ∀ child ∈ e.children, ¬ plan.Reads ctx child)
      (changed : change e = e.mapChildren change) : FlattensAt plan ctx change e

/-- A read of the field has the type of the inner struct. -/
theorem typeOf_of_reads (sees : plan.Sees ctx) {e : Expr} (reads : plan.Reads ctx e)
    (typed : (ctx.typeOf e).isSome) : ctx.typeOf e = some (.struct plan.inner.name) := by
  rcases reads with ⟨id, base, rfl, isOuter⟩
  rcases Option.isSome_iff_exists.mp typed with ⟨ty, isTy⟩
  rcases typeOf_member_eq_some_iff.mp isTy with ⟨baseTy, isBase, isMember⟩
  cases isBase.symm.trans isOuter
  rcases member_struct_eq_ok_iff.mp isMember with ⟨decl, isDecl, isField⟩
  rw [sees.struct?_outer isDecl, plan.ty_field?_field, plan.fieldTy] at isField
  rw [isTy, ← isField]

/-- What has the type of the outer struct is no read of the field. -/
theorem not_reads_of_outer (sees : plan.Sees ctx) {e : Expr}
    (isOuter : ctx.typeOf e = some (.struct plan.outer.name)) : ¬ plan.Reads ctx e := by
  intro reads
  have isInner := typeOf_of_reads sees reads (by rw [isOuter]; rfl)
  rw [isOuter, Option.some.injEq, Ty.struct.injEq] at isInner
  exact plan.differ isInner.symm

/-- The types in a constructor call of the outer struct whose inner call is taken
apart. -/
theorem tys_spliced {α : Type} {args nested : List α} {types : α → Option Ty}
    (ofArgs : args.map types = (plan.outer.fields.map Field.ty).map some)
    (ofNested : nested.map types = (plan.inner.fields.map Field.ty).map some) :
    (args.take plan.position ++ nested ++ args.drop (plan.position + 1)).map types =
      (plan.widened.fields.map Field.ty).map some := by
  rw [plan.tys_widened, List.map_append, List.map_append, ofNested, List.map_take, List.map_drop,
    ofArgs]
  simp only [List.map_append, List.map_take, List.map_drop]

theorem FlattensAt.not_reads_arg {change : Expr → Expr} {id : NodeId} {callee : String}
    {args : List Expr} (flattens : plan.FlattensAt ctx change (.call id callee args)) :
    ∀ arg ∈ args, ¬ plan.Reads ctx arg := by
  cases flattens with
  | construct _ noRead _ => exact noRead
  | other _ noRead _ => exact noRead

/-- The call of the constructor with the arguments of the inner call. -/
theorem typeOf_construct (sees : plan.Sees ctx) (alike : ctx.AlikeBy plan.Widens ctx')
    {change : Expr → Expr} {id nestedId : NodeId} {args nested : List Expr}
    (isNested : args[plan.position]? = some (.call nestedId plan.inner.name nested))
    (typed : (ctx.typeOf (.call id plan.outer.name args)).isSome)
    (same : ∀ arg, arg ∈ args ∨ arg ∈ nested → ctx'.typeOf (change arg) = ctx.typeOf arg) :
    ctx'.typeOf (.call id plan.outer.name
        ((args.take plan.position ++ nested ++ args.drop (plan.position + 1)).map change)) =
      ctx.typeOf (.call id plan.outer.name args) := by
  have isArg : .call nestedId plan.inner.name nested ∈ args := List.mem_of_getElem? isNested
  rcases Option.isSome_iff_exists.mp typed with ⟨ty, isTy⟩
  rcases typeOf_call_eq_some_iff.mp isTy with ⟨tys, areTys, isCall⟩
  rcases sees.call_outer isCall with ⟨inScope, rfl, rfl⟩
  have typedInner := isSome_of_mem_subexprs typed
    (Expr.mem_subexprs_of_mem_children (e := .call id plan.outer.name args) isArg)
  rcases Option.isSome_iff_exists.mp typedInner with ⟨innerTy, isInnerTy⟩
  rcases typeOf_call_eq_some_iff.mp isInnerTy with ⟨innerTys, areInnerTys, isInnerCall⟩
  cases sees.call_inner isInnerCall
  have spliced := tys_spliced (typesOf_eq_some_iff.mp areTys) (typesOf_eq_some_iff.mp areInnerTys)
  have kept : (args.take plan.position ++ nested ++ args.drop (plan.position + 1)).map
      (fun arg => ctx'.typeOf (change arg)) =
        (args.take plan.position ++ nested ++ args.drop (plan.position + 1)).map ctx.typeOf := by
    refine List.map_congr_left fun arg listed => same arg ?_
    rcases List.mem_append.mp listed with inFront | isBehind
    · exact (List.mem_append.mp inFront).imp_left (List.take_subset _ _ ·)
    · exact .inl (List.drop_subset _ _ isBehind)
  rw [isTy, typeOf_call_eq_some_iff]
  refine ⟨plan.widened.fields.map Field.ty, ?_, ?_⟩
  · rw [typesOf_eq_some_iff, List.map_map, ← spliced, ← kept]
    rfl
  · rw [Context.call, plan.isUnclaimed.1.1, struct?_widened sees alike inScope]
    exact constructStruct_eq_ok_iff.mpr ⟨rfl, rfl⟩

/-- The access through the field that goes to a new field. -/
theorem typeOf_access (sees : plan.Sees ctx) (alike : ctx.AlikeBy plan.Widens ctx')
    {change : Expr → Expr} {id memberId : NodeId} {base : Expr} {name : String}
    (isOuter : ctx.typeOf base = some (.struct plan.outer.name))
    (typed : (ctx.typeOf (.member id (.member memberId base plan.field.name) name)).isSome)
    (same : ctx'.typeOf (change base) = ctx.typeOf base) :
    ctx'.typeOf (.member id (change base) (flattenedName plan.field.name name)) =
      ctx.typeOf (.member id (.member memberId base plan.field.name) name) := by
  rcases Option.isSome_iff_exists.mp typed with ⟨ty, isTy⟩
  rcases typeOf_member_eq_some_iff.mp isTy with ⟨readTy, isRead, isMember⟩
  have isInner := typeOf_of_reads sees ⟨memberId, base, rfl, isOuter⟩ (by rw [isRead]; rfl)
  cases isRead.symm.trans isInner
  rcases typeOf_member_eq_some_iff.mp isRead with ⟨baseTy, isBase, isField⟩
  cases isBase.symm.trans isOuter
  rcases member_struct_eq_ok_iff.mp isMember with ⟨decl, isDecl, isNested⟩
  rcases member_struct_eq_ok_iff.mp isField with ⟨outer, inScope, _⟩
  rw [sees.struct?_inner isDecl] at isNested
  rw [isTy, typeOf_member_eq_some_iff]
  refine ⟨.struct plan.outer.name, same.trans isOuter, member_struct_eq_ok_iff.mpr
    ⟨plan.widened, struct?_widened sees alike (by rw [inScope]; rfl), ty_field?_flattened _ isNested⟩⟩

/-- A typed expression keeps its type, and is a location if it was one, unless it reads
the field as a whole. -/
theorem typeOf_and_mayWrite (sees : plan.Sees ctx) (alike : ctx.AlikeBy plan.Widens ctx')
    {change : Expr → Expr} {e : Expr} (flattens : ∀ part ∈ e.subexprs, plan.FlattensAt ctx change part)
    (typed : (ctx.typeOf e).isSome) (noRead : ¬ plan.Reads ctx e) :
    ctx'.typeOf (change e) = ctx.typeOf e ∧ ctx'.mayWrite (change e) = ctx.mayWrite e := by
  induction e using Expr.subexprs_induction with
  | step e inductionHypothesis =>
      have within : ∀ child ∈ e.children, ∀ part ∈ child.subexprs, ¬ plan.Reads ctx part →
          ctx'.typeOf (change part) = ctx.typeOf part ∧ ctx'.mayWrite (change part) = ctx.mayWrite part := by
        intro child isChild part isPart
        have inside : part ∈ e.subexprs :=
          Expr.mem_subexprs_trans isPart (Expr.mem_subexprs_of_mem_children isChild)
        exact inductionHypothesis child isChild part isPart
          (fun other isOther => flattens other (Expr.mem_subexprs_trans isOther inside))
          (isSome_of_mem_subexprs typed inside)
      cases flattens e e.self_mem_subexprs with
      | @construct id nestedId args nested isNested noReadArg changed =>
          have isArg : .call nestedId plan.inner.name nested ∈ args := List.mem_of_getElem? isNested
          have inside : Expr.call nestedId plan.inner.name nested ∈
              (Expr.call id plan.outer.name args).subexprs := Expr.mem_subexprs_of_mem_children isArg
          have same : ∀ arg, arg ∈ args ∨ arg ∈ nested → ctx'.typeOf (change arg) = ctx.typeOf arg := by
            rintro arg (isArg' | isInner)
            · exact (within arg isArg' arg arg.self_mem_subexprs (noReadArg arg isArg')).1
            · exact (within _ isArg arg (Expr.mem_subexprs_of_mem_children isInner)
                ((flattens _ inside).not_reads_arg arg isInner)).1
          rw [changed]
          exact ⟨typeOf_construct sees alike isNested typed same, rfl⟩
      | @access id memberId base name isOuter changed =>
          have isBase := within _ List.mem_cons_self base
            (Expr.mem_subexprs_of_mem_children List.mem_cons_self) (not_reads_of_outer sees isOuter)
          rw [changed]
          refine ⟨typeOf_access sees alike isOuter typed isBase.1, ?_⟩
          -- All three accesses are to members of structs, none is a selection of components.
          have isRead := typeOf_of_reads sees ⟨memberId, base, rfl, isOuter⟩
            (isSome_of_mem_subexprs typed (Expr.mem_subexprs_of_mem_children List.mem_cons_self))
          simp only [mayWrite, isBase, isRead, isOuter, Option.any_some, Ty.isVector, Bool.false_and,
            Bool.not_false, Bool.true_and]
      | other noConstruct noReadChild changed =>
          rw [changed]
          refine alike.typeOf_mapChildren ?_ ?_ fun one isChild =>
            within one isChild one one.self_mem_subexprs (noReadChild one isChild)
          · intro id callee args tys isCall areTys
            refine alike.call_eq (fun decl decl' isDecl related => related.ofOther ?_) tys
            rintro rfl
            have named := List.find?_some isDecl
            exact noConstruct id args (by rw [isCall, beq_iff_eq.mp named])
          · intro id base name ty isMember isBase
            cases ty with
            | void | scalar | vector => rfl
            | struct structName =>
                refine alike.member_struct fun decl decl' isDecl related => ?_
                by_cases isOuter : decl = plan.outer
                · have named := List.find?_some isDecl
                  rw [isOuter] at named isDecl
                  rw [isMember] at typed noRead
                  cases beq_iff_eq.mp named
                  have isOther : name ≠ plan.field.name := fun same =>
                    noRead ⟨id, base, by rw [same], isBase⟩
                  rcases Option.isSome_iff_exists.mp typed with ⟨ty, isTy⟩
                  rcases typeOf_member_eq_some_iff.mp isTy with ⟨baseTy, isBase', isField⟩
                  cases isBase.symm.trans isBase'
                  rcases member_struct_eq_ok_iff.mp isField with ⟨outer, isOuterDecl, isField⟩
                  cases isDecl.symm.trans isOuterDecl
                  rw [related.ofOuter isOuter, isOuter, isField, ty_field?_widened _ isOther isField]
                · exact map_ty_field? (related.ofOther isOuter) name

theorem FlattensAt.id_change {change : Expr → Expr} {e : Expr}
    (flattens : plan.FlattensAt ctx change e) : (change e).id = e.id := by
  cases flattens with
  | construct _ _ changed | access _ changed =>
      rw [changed]
      rfl
  | other _ _ changed => rw [changed, Expr.id_mapChildren]

theorem mem_args_iff {args nested : List Expr} {nestedId : NodeId}
    (isNested : args[plan.position]? = some (.call nestedId plan.inner.name nested)) {arg : Expr} :
    arg ∈ args ↔ arg ∈ args.take plan.position ∨ arg = .call nestedId plan.inner.name nested ∨
      arg ∈ args.drop (plan.position + 1) := by
  rcases List.getElem?_eq_some_iff.mp isNested with ⟨inRange, isCall⟩
  have split : args = args.take plan.position ++
      .call nestedId plan.inner.name nested :: args.drop (plan.position + 1) := by
    rw [← isCall, List.getElem_cons_drop, List.take_append_drop]
  conv => lhs; rw [split, List.mem_append, List.mem_cons]

/-- Every part afterwards comes from a part that does not read the field as a whole. -/
theorem exists_of_mem_subexprs_change (sees : plan.Sees ctx) {change : Expr → Expr} {e part' : Expr}
    (flattens : ∀ part ∈ e.subexprs, plan.FlattensAt ctx change part) (noRead : ¬ plan.Reads ctx e)
    (isPart : part' ∈ (change e).subexprs) :
    ∃ part ∈ e.subexprs, part' = change part ∧ ¬ plan.Reads ctx part := by
  induction e using Expr.subexprs_induction with
  | step e inductionHypothesis =>
      -- Each operand afterwards comes from a part of an operand.
      have below : ∀ child ∈ e.children, ∀ part ∈ child.subexprs, ¬ plan.Reads ctx part →
          part' ∈ (change part).subexprs →
            ∃ part ∈ e.subexprs, part' = change part ∧ ¬ plan.Reads ctx part := by
        intro child isChild part isPart noRead isBelow
        have inside := Expr.mem_subexprs_trans isPart (Expr.mem_subexprs_of_mem_children isChild)
        rcases inductionHypothesis child isChild part isPart
          (fun other isOther => flattens other (Expr.mem_subexprs_trans isOther inside)) noRead isBelow
          with ⟨old, isOld, same, noRead⟩
        exact ⟨old, Expr.mem_subexprs_trans isOld inside, same, noRead⟩
      rw [Expr.subexprs_eq_cons, List.mem_cons] at isPart
      rcases isPart with rfl | isBelow
      · exact ⟨e, e.self_mem_subexprs, rfl, noRead⟩
      rcases List.mem_flatMap.mp isBelow with ⟨child', isChild', isPart⟩
      cases flattens e e.self_mem_subexprs with
      | @construct id nestedId args nested isNested noReadArg changed =>
          rw [changed] at isChild'
          rcases List.mem_map.mp isChild' with ⟨arg, listed, rfl⟩
          have isArg : .call nestedId plan.inner.name nested ∈ args := List.mem_of_getElem? isNested
          have ofArg : arg ∈ args → _ := fun isArg =>
            below arg isArg arg arg.self_mem_subexprs (noReadArg arg isArg) isPart
          rcases List.mem_append.mp listed with inFront | isBehind
          · rcases List.mem_append.mp inFront with inFront | isInner
            · exact ofArg (List.take_subset _ _ inFront)
            · exact below _ isArg arg (Expr.mem_subexprs_of_mem_children isInner)
                ((flattens _ (Expr.mem_subexprs_of_mem_children isArg)).not_reads_arg arg isInner) isPart
          · exact ofArg (List.drop_subset _ _ isBehind)
      | @access id memberId base name isOuter changed =>
          rw [changed] at isChild'
          rw [List.mem_singleton.mp isChild'] at isPart
          exact below _ List.mem_cons_self base (Expr.mem_subexprs_of_mem_children List.mem_cons_self)
            (not_reads_of_outer sees isOuter) isPart
      | other noConstruct noReadChild changed =>
          rw [changed, Expr.children_mapChildren] at isChild'
          rcases List.mem_map.mp isChild' with ⟨child, isChild, rfl⟩
          exact below child isChild child child.self_mem_subexprs (noReadChild child isChild) isPart

/-- Every part is still there afterwards, changed, unless it reads the field as a whole
or calls the constructor of the inner struct. -/
theorem change_mem_subexprs {change : Expr → Expr} {e part : Expr}
    (flattens : ∀ part ∈ e.subexprs, plan.FlattensAt ctx change part) (isPart : part ∈ e.subexprs)
    (noRead : ¬ plan.Reads ctx part) (noCall : ∀ id args, part ≠ .call id plan.inner.name args) :
    change part ∈ (change e).subexprs := by
  induction e using Expr.subexprs_induction with
  | step e inductionHypothesis =>
      have below : ∀ child ∈ e.children, ∀ inner ∈ child.subexprs, part ∈ inner.subexprs →
          change part ∈ (change inner).subexprs := by
        intro child isChild inner isInner isPart
        have inside := Expr.mem_subexprs_trans isInner (Expr.mem_subexprs_of_mem_children isChild)
        exact inductionHypothesis child isChild inner isInner
          (fun other isOther => flattens other (Expr.mem_subexprs_trans isOther inside)) isPart
      have child' : ∀ child' ∈ (change e).children, change part ∈ child'.subexprs →
          change part ∈ (change e).subexprs := fun child' isChild' isPart =>
        Expr.mem_subexprs_trans isPart (Expr.mem_subexprs_of_mem_children isChild')
      rw [Expr.subexprs_eq_cons, List.mem_cons] at isPart
      rcases isPart with rfl | isBelow
      · exact (change part).self_mem_subexprs
      rcases List.mem_flatMap.mp isBelow with ⟨child, isChild, isPart⟩
      have changed := flattens e e.self_mem_subexprs
      cases changed with
      | @construct id nestedId args nested isNested _ changed =>
          have ofArg : ∀ arg, arg ∈ args.take plan.position ++ nested ++ args.drop (plan.position + 1) →
              change part ∈ (change arg).subexprs →
                change part ∈ (change (.call id plan.outer.name args)).subexprs := fun arg listed =>
            child' _ (by rw [changed]; exact List.mem_map_of_mem listed)
          have isArg : .call nestedId plan.inner.name nested ∈ args := List.mem_of_getElem? isNested
          rcases (mem_args_iff isNested).mp isChild with inFront | rfl | isBehind
          · exact ofArg child (List.mem_append_left _ (List.mem_append_left _ inFront))
              (below child isChild child child.self_mem_subexprs isPart)
          · rw [Expr.subexprs_eq_cons, List.mem_cons] at isPart
            rcases isPart with rfl | isBelow
            · exact absurd rfl (noCall nestedId nested)
            rcases List.mem_flatMap.mp isBelow with ⟨arg, isInner, isPart⟩
            exact ofArg arg (List.mem_append_left _ (List.mem_append_right _ isInner))
              (below _ isArg arg (Expr.mem_subexprs_of_mem_children isInner) isPart)
          · exact ofArg child (List.mem_append_right _ isBehind)
              (below child isChild child child.self_mem_subexprs isPart)
      | @access id memberId base name isOuter changed =>
          rw [List.mem_singleton.mp isChild, Expr.subexprs, List.mem_cons] at isPart
          rcases isPart with rfl | isPart
          · exact absurd ⟨memberId, base, rfl, isOuter⟩ noRead
          refine child' (change base) (by rw [changed]; exact List.mem_cons_self) ?_
          exact below _ List.mem_cons_self base (Expr.mem_subexprs_of_mem_children List.mem_cons_self) isPart
      | other _ _ changed =>
          refine child' (change child) ?_ (below child isChild child child.self_mem_subexprs isPart)
          rw [changed, Expr.children_mapChildren]
          exact List.mem_map_of_mem isChild

end Flattening
end Whittle
