import Mathlib.Data.List.InsertIdx
import Whittle.Proofs.Syntax.Rewriting
import Whittle.Proofs.Typing.Calls
import Whittle.Proofs.Typing.Congruence
import Whittle.Reduction.Function.CallSite

namespace Whittle

/-!
# Types where a struct has one field fewer

A field that nothing reads can leave its struct, and its argument leaves every call
of the constructor.  What the calls lose is lost with all its parts, calls of the
same constructor included, so operands change before the calls that take them.
Everything that is still there has the type it had.
-/

open Reduction (withoutArg)

/-- A field of a struct. -/
structure Narrowing where
  decl : StructDecl
  position : Nat
  field : Field
  isField : decl.fields[position]? = some field
  isUnclaimed : IsUnclaimed decl.name
  apart : (decl.fields.map Field.name).Nodup

namespace Narrowing

variable (plan : Narrowing)

/-- The struct without the field. -/
def narrowed : StructDecl :=
  { plan.decl with fields := plan.decl.fields.eraseIdx plan.position }

theorem fields_sublist : plan.narrowed.fields.Sublist plan.decl.fields :=
  List.eraseIdx_sublist _ _

theorem apart_narrowed : (plan.narrowed.fields.map Field.name).Nodup :=
  plan.apart.sublist (plan.fields_sublist.map Field.name)

theorem tys_narrowed :
    plan.narrowed.fields.map Field.ty = (plan.decl.fields.map Field.ty).eraseIdx plan.position :=
  (List.eraseIdx_map Field.ty plan.decl.fields plan.position).symm

/-- Another field is found as before. -/
theorem ty_field?_narrowed {name : String} (isOther : name ≠ plan.field.name) :
    (plan.narrowed.field? name).map Field.ty = (plan.decl.field? name).map Field.ty := by
  refine Option.ext fun ty => ?_
  rw [StructDecl.ty_field?_eq_some_iff plan.apart_narrowed, StructDecl.ty_field?_eq_some_iff plan.apart]
  rcases List.getElem?_eq_some_iff.mp plan.isField with ⟨inRange, isField⟩
  have split : plan.decl.fields = plan.decl.fields.take plan.position ++
      plan.field :: plan.decl.fields.drop (plan.position + 1) := by
    rw [← isField, List.getElem_cons_drop, List.take_append_drop]
  have noField : (ty, name) ≠ plan.field.shape := fun same => isOther (congrArg Prod.snd same)
  rw [narrowed, List.eraseIdx_eq_take_drop_succ]
  conv => rhs; rw [split]
  simp only [List.map_append, List.map_cons, List.mem_append, List.mem_cons, noField, false_or]

/-- The struct afterwards in the place of a struct. -/
structure Narrows (decl decl' : StructDecl) : Prop where
  ofThis : decl = plan.decl → decl' = plan.narrowed
  ofOther : decl ≠ plan.decl → decl.Alike decl'

/-- In the context the name of the struct stands for nothing else. -/
structure Sees (ctx : Check.Context) : Prop where
  struct : ∀ decl ∈ ctx.structs, decl.name = plan.decl.name → decl = plan.decl
  functions : ∀ f ∈ ctx.functions, f.name ≠ plan.decl.name

open Check Check.Context

variable {plan} {ctx ctx' : Context}

theorem Sees.struct?_eq (sees : plan.Sees ctx) {name : String} {decl : StructDecl}
    (isStruct : ctx.struct? name = some decl) : name = plan.decl.name ↔ decl = plan.decl := by
  have named := List.find?_some isStruct
  have named : decl.name = name := beq_iff_eq.mp named
  constructor
  · rintro rfl
    exact sees.struct decl (List.mem_of_find?_eq_some isStruct) named
  · rintro rfl
    exact named.symm

/-- A typed call of the constructor has an argument for each field. -/
theorem Sees.call_struct (sees : plan.Sees ctx) {tys : List Ty} {ty : Ty}
    (isTy : ctx.call plan.decl.name tys = .ok ty) :
    (∃ decl, ctx.struct? plan.decl.name = some decl) ∧ tys = plan.decl.fields.map Field.ty ∧
      ty = .struct plan.decl.name := by
  rcases exists_of_call_eq_ok (plan.isUnclaimed.callsDeclared _ _) isTy with
    ⟨decl, listed, named, areTys, isTy⟩ | ⟨f, listed, named, _⟩
  · have inScope : (ctx.struct? plan.decl.name).isSome :=
      List.find?_isSome.mpr ⟨decl, listed, beq_iff_eq.mpr named⟩
    rw [sees.struct decl listed named] at areTys isTy
    exact ⟨Option.isSome_iff_exists.mp inScope, areTys, isTy⟩
  · exact absurd named (sees.functions f listed)

def Reads (plan : Narrowing) (ctx : Context) (e : Expr) : Prop :=
  ∃ id base, e = .member id base plan.field.name ∧ ctx.typeOf base = some (.struct plan.decl.name)

/-- A call of the constructor of a struct without the argument at a position. -/
def withoutArgOf (struct : String) (position : Nat) (e : Expr) : Expr :=
  if e.calls struct then withoutArg position e else e

/-- The expression where no call of the constructor of a struct has the argument at a
position. -/
def shortened (struct : String) (position : Nat) (e : Expr) : Expr :=
  e.rewrite (withoutArgOf struct position)

section

variable {struct : String} {position : Nat}

theorem withoutArgOf_call (id : NodeId) (args : List Expr) :
    withoutArgOf struct position (.call id struct args) = .call id struct (args.eraseIdx position) :=
  if_pos (beq_self_eq_true struct)

theorem shortened_call (id : NodeId) (args : List Expr) :
    shortened struct position (.call id struct args) =
      .call id struct ((args.eraseIdx position).map (shortened struct position)) := by
  rw [shortened, Expr.rewrite_eq, Expr.mapChildren, withoutArgOf_call, List.eraseIdx_map]
  rfl

theorem shortened_of_calls_eq_false {e : Expr} (noCall : e.calls struct = false) :
    shortened struct position e = e.mapChildren (shortened struct position) := by
  have noCall' : (e.mapChildren (Expr.rewrite (withoutArgOf struct position))).calls struct = false := by
    cases e <;> exact noCall
  rw [shortened, Expr.rewrite_eq, withoutArgOf, if_neg (by rw [noCall']; decide)]
  rfl

theorem exists_of_calls {e : Expr} (calls : e.calls struct = true) :
    ∃ id args, e = .call id struct args := by
  cases e with
  | call id callee args => exact ⟨id, args, by rw [beq_iff_eq.mp calls]⟩
  | _ => cases calls

theorem id_shortened (e : Expr) : (shortened struct position e).id = e.id := by
  cases calls : e.calls struct with
  | true =>
      rcases exists_of_calls calls with ⟨id, args, rfl⟩
      rw [shortened_call]
      rfl
  | false => rw [shortened_of_calls_eq_false calls, Expr.id_mapChildren]

end

/-- The constructor call without the argument of the field. -/
theorem typeOf_construct (sees : plan.Sees ctx) (alike : ctx.AlikeBy plan.Narrows ctx')
    {change : Expr → Expr} {id : NodeId} {args : List Expr}
    (typed : (ctx.typeOf (.call id plan.decl.name args)).isSome)
    (same : ∀ arg ∈ args, ctx'.typeOf (change arg) = ctx.typeOf arg) :
    ctx'.typeOf (.call id plan.decl.name ((args.eraseIdx plan.position).map change)) =
      ctx.typeOf (.call id plan.decl.name args) := by
  rcases Option.isSome_iff_exists.mp typed with ⟨ty, isTy⟩
  rcases typeOf_call_eq_some_iff.mp isTy with ⟨tys, areTys, isCall⟩
  rcases sees.call_struct isCall with ⟨⟨decl, inScope⟩, rfl, rfl⟩
  rw [isTy, typeOf_call_eq_some_iff]
  refine ⟨plan.narrowed.fields.map Field.ty, ?_, ?_⟩
  · have areTys : (args.eraseIdx plan.position).map ctx.typeOf =
        (plan.narrowed.fields.map Field.ty).map some := by
      rw [plan.tys_narrowed, ← List.eraseIdx_map, ← List.eraseIdx_map, typesOf_eq_some_iff.mp areTys]
    rw [typesOf_eq_some_iff, ← areTys, List.map_map]
    exact List.map_congr_left fun arg listed => same arg (List.mem_of_mem_eraseIdx listed)
  · have isNarrowed : ctx'.struct? plan.decl.name = some plan.narrowed := by
      rcases option_rel_cases (alike.struct? plan.decl.name) with
        ⟨isMissing, _⟩ | ⟨_, decl', isDecl, isDecl', related⟩
      · cases isMissing.symm.trans inScope
      · rw [isDecl', related.related.ofThis ((sees.struct?_eq isDecl).mp rfl)]
    rw [Context.call, plan.isUnclaimed.1, isNarrowed]
    exact constructStruct_eq_ok_iff.mpr ⟨rfl, rfl⟩

/-- Where nothing reads the field, a typed expression keeps its type, and is a location
if it was one. -/
theorem typeOf_and_mayWrite (sees : plan.Sees ctx) (alike : ctx.AlikeBy plan.Narrows ctx') {e : Expr}
    (noRead : ∀ part ∈ e.subexprs, ¬ plan.Reads ctx part) (typed : (ctx.typeOf e).isSome) :
    ctx'.typeOf (shortened plan.decl.name plan.position e) = ctx.typeOf e ∧
      ctx'.mayWrite (shortened plan.decl.name plan.position e) = ctx.mayWrite e := by
  induction e using Expr.children_induction with
  | step e inductionHypothesis =>
      have children : ∀ child ∈ e.children,
          ctx'.typeOf (shortened plan.decl.name plan.position child) = ctx.typeOf child ∧
            ctx'.mayWrite (shortened plan.decl.name plan.position child) = ctx.mayWrite child :=
        fun child isChild => inductionHypothesis child isChild
          (fun part isPart => noRead part
            (Expr.mem_subexprs_trans isPart (Expr.mem_subexprs_of_mem_children isChild)))
          (isSome_of_mem_subexprs typed (Expr.mem_subexprs_of_mem_children isChild))
      cases calls : e.calls plan.decl.name with
      | true =>
          rcases exists_of_calls calls with ⟨id, args, rfl⟩
          rw [shortened_call]
          exact ⟨typeOf_construct sees alike typed fun arg listed => (children arg listed).1, rfl⟩
      | false =>
          rw [shortened_of_calls_eq_false calls]
          refine alike.typeOf_mapChildren ?_ ?_ children
          · rintro id callee args tys rfl _
            refine alike.call_eq (fun decl decl' isDecl related => related.ofOther fun same => ?_) tys
            cases (sees.struct?_eq isDecl).mpr same
            cases calls.symm.trans (beq_self_eq_true plan.decl.name)
          · rintro id base name ty rfl isBase
            cases ty with
            | void | scalar | vector => rfl
            | struct struct =>
                refine alike.member_struct fun decl decl' isDecl related => ?_
                by_cases same : decl = plan.decl
                · cases (sees.struct?_eq isDecl).mpr same
                  rw [related.ofThis same, same]
                  refine plan.ty_field?_narrowed fun named => ?_
                  exact noRead _ (Expr.self_mem_subexprs _) ⟨id, base, by rw [named], isBase⟩
                · exact map_ty_field? (related.ofOther same) name

section

variable {struct : String} {position : Nat} {e : Expr}

/-- Every part afterwards comes from a part before. -/
theorem exists_of_mem_subexprs_shortened {part' : Expr}
    (isPart : part' ∈ (shortened struct position e).subexprs) :
    ∃ part ∈ e.subexprs, part' = shortened struct position part := by
  induction e using Expr.children_induction with
  | step e inductionHypothesis =>
      have below : ∀ child ∈ e.children, part' ∈ (shortened struct position child).subexprs →
          ∃ part ∈ e.subexprs, part' = shortened struct position part := by
        intro child isChild isPart
        rcases inductionHypothesis child isChild isPart with ⟨part, inside, same⟩
        exact ⟨part, Expr.mem_subexprs_trans inside (Expr.mem_subexprs_of_mem_children isChild), same⟩
      rw [Expr.subexprs_eq_cons, List.mem_cons] at isPart
      rcases isPart with rfl | isBelow
      · exact ⟨e, e.self_mem_subexprs, rfl⟩
      rcases List.mem_flatMap.mp isBelow with ⟨child', isChild', isPart⟩
      cases calls : e.calls struct with
      | true =>
          rcases exists_of_calls calls with ⟨id, args, rfl⟩
          rw [shortened_call] at isChild'
          rcases List.mem_map.mp isChild' with ⟨arg, listed, rfl⟩
          exact below arg (List.mem_of_mem_eraseIdx listed) isPart
      | false =>
          rw [shortened_of_calls_eq_false calls, Expr.children_mapChildren] at isChild'
          rcases List.mem_map.mp isChild' with ⟨child, isChild, rfl⟩
          exact below child isChild isPart

/-- Every part is still there afterwards, unless it stands in an argument that is taken
out. -/
theorem shortened_mem_subexprs_or {part : Expr} (isPart : part ∈ e.subexprs) :
    shortened struct position part ∈ (shortened struct position e).subexprs ∨
      ∃ id args arg, .call id struct args ∈ e.subexprs ∧ args[position]? = some arg ∧
        part ∈ arg.subexprs := by
  induction e using Expr.children_induction with
  | step e inductionHypothesis =>
      rw [Expr.subexprs_eq_cons, List.mem_cons] at isPart
      rcases isPart with rfl | isBelow
      · exact .inl (Expr.self_mem_subexprs _)
      rcases List.mem_flatMap.mp isBelow with ⟨child, isChild, isPart⟩
      rcases inductionHypothesis child isChild isPart with stays | ⟨id, args, arg, isCall, isArg, isPart⟩
      · cases calls : e.calls struct with
        | true =>
            rcases exists_of_calls calls with ⟨id, args, rfl⟩
            rcases List.mem_iff_getElem?.mp isChild with ⟨i, isAt⟩
            by_cases removed : i = position
            · exact .inr ⟨id, args, child, Expr.self_mem_subexprs _, removed ▸ isAt, isPart⟩
            · refine .inl ?_
              rw [shortened_call]
              refine Expr.mem_subexprs_trans stays (Expr.mem_subexprs_of_mem_children ?_)
              exact List.mem_map_of_mem (List.mem_eraseIdx_iff_getElem?.mpr ⟨i, removed, isAt⟩)
        | false =>
            refine .inl ?_
            rw [shortened_of_calls_eq_false calls]
            refine Expr.mem_subexprs_trans stays (Expr.mem_subexprs_of_mem_children ?_)
            rw [Expr.children_mapChildren]
            exact List.mem_map_of_mem isChild
      · exact .inr ⟨id, args, arg,
          Expr.mem_subexprs_trans isCall (Expr.mem_subexprs_of_mem_children isChild), isArg, isPart⟩

end

end Narrowing
end Whittle
