import Mathlib.Data.List.Basic
import Mathlib.Data.List.Flatten
import Whittle.Proofs.Discovery.TargetedSearch
import Whittle.Proofs.Reduction.ExprChanges
import Whittle.Proofs.Reduction.ShaderNames
import Whittle.Proofs.Reduction.ValueEdits

namespace Whittle
namespace Reduction

/-!
# Replacing by constants makes progress

An expression that became a constant is not found again, and neither is anything in
the constant.  Whatever else is found afterwards was found before, in the same order:
the expressions around the constant keep their types, a constant has no expression in
it that could have been replaced, and no code becomes injected code.  So each edit
leaves less to find than the search that found it.
-/

open Whittle.Expr (rewrite changeAt)

variable {shader edited : Shader} {version : Version} {types types' : TypeTable}

theorem isConstant_of_bare_isLiteral {e : Expr} (isLiteral : e.bare.isLiteral = true) :
    isConstant e = true := by
  rw [isConstant, isLiteral, Bool.true_or]

/-- The parts of a literal in parentheses are this literal in fewer parentheses. -/
theorem bare_isLiteral_of_mem_subexprs {e part : Expr} (isLiteral : e.bare.isLiteral = true)
    (isPart : part ∈ e.subexprs) : part.bare.isLiteral = true := by
  induction e using Expr.children_induction with
  | step e inductionHypothesis =>
      cases e with
      | int | float | bool =>
          rw [List.mem_singleton.mp isPart]
          exact isLiteral
      | paren id inner =>
          rcases List.mem_cons.mp isPart with rfl | within
          · exact isLiteral
          · exact inductionHypothesis inner List.mem_cons_self isLiteral within
      | _ => cases isLiteral

/-- Every part of a constant is a constant. -/
theorem isConstant_of_mem_subexprs {e part : Expr} (constant : isConstant e = true)
    (isPart : part ∈ e.subexprs) : isConstant part = true := by
  induction e using Expr.children_induction with
  | step e inductionHypothesis =>
      rw [Expr.subexprs_eq_cons, List.mem_cons] at isPart
      rcases isPart with rfl | within
      · exact constant
      rcases List.mem_flatMap.mp within with ⟨child, isChild, isPart⟩
      cases e with
      | int | float | bool | var => cases isChild
      | paren id inner =>
          rw [List.mem_singleton.mp isChild] at isPart
          exact inductionHypothesis inner List.mem_cons_self constant isPart
      | call id callee args =>
          have literals : args.all (fun arg => arg.bare.isLiteral) = true :=
            (Bool.and_eq_true_iff.mp constant).2
          exact isConstant_of_bare_isLiteral
            (bare_isLiteral_of_mem_subexprs (List.all_eq_true.mp literals child isChild) isPart)
      | _ => cases constant

/-- No constant is a call of a marker. -/
theorem markerOf_eq_none_of_isConstant {e : Expr} (constant : isConstant e = true) :
    Marker.of? e = none := by
  rw [isConstant] at constant
  rw [Marker.of?]
  cases isBare : e.bare with
  | call id callee args =>
      rw [isBare] at constant
      have isConstructor : ((Ty.ofKeyword? callee).isSome && args.all fun arg => arg.bare.isLiteral) =
          true := constant
      have isTy := (Bool.and_eq_true_iff.mp isConstructor).1
      cases isMarker : Marker.ofName? callee with
      | none => exact isMarker
      | some marker =>
          rw [ofKeyword?_of_marker isMarker] at isTy
          cases isTy
  | _ => rfl

/-- A constant that may take the place of the target: beside the identifier of the
target it has a fresh one at most. -/
structure IsConstantFor (target fresh : NodeId) (constant : Expr) : Prop where
  sameId : constant.id = target
  fits : isConstant constant = true
  ids : ∀ id ∈ constant.ids, id = target ∨ id = fresh

def putAt (target : NodeId) (constant : Expr) : Expr → Expr :=
  rewrite (changeAt target fun _ => constant)

variable {target fresh : NodeId} {constant : Expr}

theorem putAt_of_eq {e : Expr} (isTarget : e.id = target) : putAt target constant e = constant := by
  subst isTarget
  exact Expr.rewrite_changeAt_id constant e

theorem putAt_of_ne {e : Expr} (differ : e.id ≠ target) :
    putAt target constant e = e.mapChildren (putAt target constant) :=
  Expr.rewrite_changeAt_of_ne differ

namespace IsConstantFor

variable (isFor : IsConstantFor target fresh constant)
include isFor

theorem id_putAt (e : Expr) : (putAt target constant e).id = e.id := by
  by_cases isTarget : e.id = target
  · rw [putAt_of_eq isTarget, isFor.sameId, isTarget]
  · rw [putAt_of_ne isTarget, Expr.id_mapChildren]

theorem mem_ids_putAt {e : Expr} {id : NodeId} (listed : id ∈ (putAt target constant e).ids) :
    id ∈ e.ids ∨ id = fresh := by
  induction e using Expr.children_induction with
  | step e inductionHypothesis =>
      by_cases isTarget : e.id = target
      · rw [putAt_of_eq isTarget] at listed
        refine (isFor.ids id listed).imp_left fun same => ?_
        rw [same, ← isTarget, Expr.ids_eq_cons]
        exact List.mem_cons_self
      rw [putAt_of_ne isTarget, Expr.ids_eq_cons, Expr.id_mapChildren, Expr.children_mapChildren,
        List.mem_cons, List.flatMap_map] at listed
      rw [Expr.ids_eq_cons, List.mem_cons]
      rcases listed with isOwn | within
      · exact .inl (.inl isOwn)
      rcases List.mem_flatMap.mp within with ⟨child, isChild, inChild⟩
      exact (inductionHypothesis child isChild inChild).imp_left fun isOld =>
        .inr (List.mem_flatMap.mpr ⟨child, isChild, isOld⟩)

/-- A constant in place does not make a call of a marker. -/
theorem markerOf_of_putAt {e : Expr} {marker : Marker}
    (isMarker : Marker.of? (putAt target constant e) = some marker) : Marker.of? e = some marker := by
  induction e using Expr.children_induction with
  | step e inductionHypothesis =>
      by_cases isTarget : e.id = target
      · rw [putAt_of_eq isTarget, markerOf_eq_none_of_isConstant isFor.fits] at isMarker
        cases isMarker
      rw [putAt_of_ne isTarget] at isMarker
      cases e with
      | paren id inner => exact inductionHypothesis inner List.mem_cons_self isMarker
      | call id callee args => exact isMarker
      | _ => cases isMarker

end IsConstantFor

theorem written?_mapChildren (change : Expr → Expr) (e : Expr) :
    (e.mapChildren change).written? = e.written?.map change := by
  cases e with
  | unary id op operand => cases op <;> rfl
  | _ => rfl

theorem id_mapExprs (change : Expr → Expr) (s : Stmt) : (s.mapExprs change).id = s.id := by
  cases s <;> rfl

theorem stmts_of_mapExprs {change : Expr → Expr}
    (isEdited : edited.decls = shader.decls.map (Decl.mapExprs change)) :
    edited.stmts = shader.stmts.map (Stmt.mapExprs change) := by
  have ofDecl : ∀ decl : Decl, (decl.mapExprs change).stmts = decl.stmts.map (Stmt.mapExprs change) := by
    intro decl
    cases decl with
    | precision | struct | global => rfl
    | function f =>
        simp only [Decl.mapExprs, Decl.stmts, Function.stmts, Function.withStmts,
          ← Stmt.substmtsOfList_eq_flatMap, Stmt.substmtsOfList_mapExprsList]
  rw [Shader.stmts, isEdited, List.flatMap_map, Shader.stmts, List.map_flatMap]
  exact congrArg (shader.decls.flatMap ·) (funext ofDecl)

theorem IsConstantFor.mem_deadIds (isFor : IsConstantFor target fresh constant) {s : Stmt} {id : NodeId}
    (isDead : id ∈ deadIds (s.mapExprs (putAt target constant))) : id ∈ deadIds s ∨ id = fresh := by
  cases s with
  | branch branchId cond whenTrue whenFalse =>
      simp only [Stmt.mapExprs, deadIds, beq_iff_eq, List.mem_ite_nil_right] at isDead ⊢
      rcases isDead with ⟨isMarker, within⟩
      refine Or.imp_left (And.intro (isFor.markerOf_of_putAt isMarker)) ?_
      rw [Stmt.substmts_mapExprs, List.map_map, funext (f := Stmt.id ∘ _) fun s => id_mapExprs _ s,
        Stmt.exprs, Stmt.roots_mapExprs, Expr.flatMap_map_id_subexprs, List.flatMap_map,
        List.mem_append] at within
      rw [Stmt.exprs, Expr.flatMap_map_id_subexprs, List.mem_append]
      rcases within with isStmt | isExpr
      · exact .inl (.inl isStmt)
      rcases List.mem_flatMap.mp isExpr with ⟨root, isRoot, inRoot⟩
      exact (isFor.mem_ids_putAt inRoot).imp_left fun isOld =>
        .inr (List.mem_flatMap.mpr ⟨root, isRoot, isOld⟩)
  | _ => cases isDead

theorem IsConstantFor.mem_fuzzedIds (isFor : IsConstantFor target fresh constant) {e : Expr} {id : NodeId}
    (isFuzzed : id ∈ fuzzedIds (e.mapChildren (putAt target constant))) :
    id ∈ fuzzedIds e ∨ id = fresh := by
  cases e with
  | call callId callee args =>
      simp only [Expr.mapChildren, fuzzedIds, beq_iff_eq, List.mem_ite_nil_right,
        Expr.flatMap_map_id_subexprs] at isFuzzed ⊢
      rcases isFuzzed with ⟨isMarker, within⟩
      rw [List.flatMap_map] at within
      rcases List.mem_flatMap.mp within with ⟨arg, isArg, inArg⟩
      exact (isFor.mem_ids_putAt inArg).imp_left fun isOld =>
        ⟨isMarker, List.mem_flatMap.mpr ⟨arg, isArg, isOld⟩⟩
  | _ => cases isFuzzed

/-- Only a call of a marker has code in it that was made up. -/
theorem fuzzedIds_eq_nil {e : Expr} (unmarked : Marker.of? e = none) : fuzzedIds e = [] := by
  cases e with
  | call id callee args =>
      have noMarker : Marker.ofName? callee = none := unmarked
      rw [fuzzedIds, noMarker]
      rfl
  | _ => rfl

/-- With a constant in place, the injected code is what it was, but for what has gone
and what is in the constant. -/
theorem IsConstantFor.mem_injectedIds (isFor : IsConstantFor target fresh constant)
    (isPut : edited.decls = shader.decls.map (Decl.mapExprs (putAt target constant))) {id : NodeId}
    (isInjected : id ∈ injectedIds edited) : id ∈ injectedIds shader ∨ id = fresh := by
  rw [injectedIds, List.mem_append] at isInjected ⊢
  rcases isInjected with isDead | isFuzzed
  · rw [stmts_of_mapExprs isPut, List.flatMap_map] at isDead
    rcases List.mem_flatMap.mp isDead with ⟨s, listed, isDead⟩
    exact (isFor.mem_deadIds isDead).imp_left fun isOld =>
      .inl (List.mem_flatMap.mpr ⟨s, listed, isOld⟩)
  · rcases List.mem_flatMap.mp isFuzzed with ⟨e', listed', isFuzzed⟩
    have changes : ∀ e ∈ shader.exprs,
        e.id = target ∨ putAt target constant e = e.mapChildren (putAt target constant) :=
      fun e _ => (em (e.id = target)).imp_right putAt_of_ne
    have noneInConstant : ∀ part ∈ constant.subexprs, id ∉ fuzzedIds part := by
      intro part isPart
      rw [fuzzedIds_eq_nil (markerOf_eq_none_of_isConstant
        (isConstant_of_mem_subexprs isFor.fits isPart))]
      exact List.not_mem_nil
    rcases Shader.exists_of_mem_exprs_mapExprs isPut listed' changes with ⟨e, listed, rfl | within⟩
    · by_cases isTarget : e.id = target
      · rw [putAt_of_eq isTarget] at isFuzzed
        exact absurd isFuzzed (noneInConstant constant constant.self_mem_subexprs)
      · rw [putAt_of_ne isTarget] at isFuzzed
        exact (isFor.mem_fuzzedIds isFuzzed).imp_left fun isOld =>
          .inr (List.mem_flatMap.mpr ⟨e, listed, isOld⟩)
    · rw [putAt_of_eq within.1] at within
      exact absurd isFuzzed (noneInConstant e' within.2)

section

variable {α : Type} {search search' : Expr → Option α}

theorem Yields.filterMap_cons_sublist {e e' : Expr} {es es' : List Expr}
    (first : Yields (search' e') (search e))
    (rest : (es'.filterMap search').Sublist (es.filterMap search)) :
    ((e' :: es').filterMap search').Sublist ((e :: es).filterMap search) := by
  rw [List.filterMap_cons, List.filterMap_cons]
  cases found : search' e' with
  | some a =>
      rw [first a found]
      exact rest.cons_cons a
  | none =>
      cases search e with
      | some a => exact rest.cons a
      | none => exact rest

/-- Where a search yields nothing in the constant, and at the other expressions what the
search before yields there, it yields no more over all values. -/
theorem filterMap_values_putAt_sublist {e : Expr}
    (quiet : ∀ part ∈ constant.subexprs, search' part = none)
    (yields : ∀ part ∈ e.subexprs, part.id ≠ target →
      Yields (search' (putAt target constant part)) (search part)) :
    ((values (putAt target constant e)).filterMap search').Sublist ((values e).filterMap search) ∧
      ((valuesWithin (putAt target constant e)).filterMap search').Sublist
        ((valuesWithin e).filterMap search) := by
  induction e using Expr.children_induction with
  | step e inductionHypothesis =>
      by_cases isTarget : e.id = target
      · have within : valuesWithin constant ⊆ constant.subexprs := by
          rw [Expr.subexprs_eq_cons]
          exact List.subset_cons_of_subset _ constant.values_subset.2
        have none : ∀ {parts : List Expr}, parts ⊆ constant.subexprs → parts.filterMap search' = [] :=
          fun areParts => List.filterMap_eq_nil_iff.mpr fun part listed => quiet part (areParts listed)
        rw [putAt_of_eq isTarget, none constant.values_subset.1, none within]
        exact ⟨List.nil_sublist _, List.nil_sublist _⟩
      have own := yields e e.self_mem_subexprs isTarget
      have parts := fun child (isChild : child ∈ e.children) =>
        inductionHypothesis child isChild fun part isPart =>
          yields part (Expr.mem_subexprs_trans isPart (Expr.mem_subexprs_of_mem_children isChild))
      rw [putAt_of_ne isTarget] at own ⊢
      cases e with
      | int | float | bool | var =>
          exact ⟨own.filterMap_cons_sublist (List.Sublist.refl _), List.Sublist.refl _⟩
      | call id callee args =>
          refine ⟨own.filterMap_cons_sublist ?_, List.Sublist.refl _⟩
          rw [valuesOfList_eq_flatMap, valuesOfList_eq_flatMap, List.flatMap_map,
            List.filterMap_flatMap, List.filterMap_flatMap]
          exact List.Sublist.flatMap_right args fun arg isArg => (parts arg isArg).1
      | paren id inner =>
          have ofInner := parts inner List.mem_cons_self
          exact ⟨own.filterMap_cons_sublist ofInner.1, ofInner.2⟩
      | member id base field =>
          have ofBase := parts base List.mem_cons_self
          exact ⟨own.filterMap_cons_sublist ofBase.1, ofBase.2⟩
      | index id base position =>
          have ofBase := parts base List.mem_cons_self
          have ofPosition := parts position (List.mem_cons_of_mem _ List.mem_cons_self)
          refine ⟨own.filterMap_cons_sublist ?_, ?_⟩
          · rw [List.filterMap_append, List.filterMap_append]
            exact ofBase.1.append ofPosition.1
          · rw [Expr.mapChildren, valuesWithin, valuesWithin, List.filterMap_append,
              List.filterMap_append]
            exact ofBase.2.append ofPosition.1
      | unary id op operand =>
          have ofOperand := parts operand List.mem_cons_self
          refine ⟨own.filterMap_cons_sublist ?_, List.Sublist.refl _⟩
          cases op.writesOperand with
          | true => exact ofOperand.2
          | false => exact ofOperand.1
      | binary id op lhs rhs =>
          have ofLhs := parts lhs List.mem_cons_self
          have ofRhs := parts rhs (List.mem_cons_of_mem _ List.mem_cons_self)
          refine ⟨own.filterMap_cons_sublist ?_, List.Sublist.refl _⟩
          rw [List.filterMap_append, List.filterMap_append]
          exact ofLhs.1.append ofRhs.1
      | assign id op location value =>
          have ofLocation := parts location List.mem_cons_self
          have ofValue := parts value (List.mem_cons_of_mem _ List.mem_cons_self)
          refine ⟨own.filterMap_cons_sublist ?_, List.Sublist.refl _⟩
          rw [List.filterMap_append, List.filterMap_append]
          exact ofLocation.2.append ofValue.1
      | ternary id cond whenTrue whenFalse =>
          have ofCond := parts cond List.mem_cons_self
          have ofTrue := parts whenTrue (List.mem_cons_of_mem _ List.mem_cons_self)
          have ofFalse := parts whenFalse
            (List.mem_cons_of_mem _ (List.mem_cons_of_mem _ List.mem_cons_self))
          refine ⟨own.filterMap_cons_sublist ?_, List.Sublist.refl _⟩
          simp only [List.filterMap_append]
          exact (ofCond.1.append ofTrue.1).append ofFalse.1

end

/-! ## Searches -/

namespace ConstantReplacement

variable {everywhere : Bool} {edit : ConstantReplacement}

/-- What a search finds at a value. -/
def at? (everywhere : Bool) (injected : List NodeId) (types : TypeTable) (e : Expr) :
    Option ConstantReplacement :=
  if everywhere || injected.contains e.id then ofExpr? types e else none

theorem find_eq (everywhere : Bool) (types : TypeTable) (shader : Shader) :
    find everywhere types shader =
      (rvalues shader).filterMap (at? everywhere (injectedIds shader) types) :=
  List.filterMap_filter

theorem ofExpr?_eq_some_iff {e : Expr} :
    ofExpr? types e = some edit ↔ ∃ ty, types[e.id]? = some ty ∧ e.written? = none ∧
      isConstant e = false ∧ (ty.isScalar || ty.isVector) = true ∧ edit = ⟨e.id, ty⟩ := by
  simp only [ofExpr?, Option.bind_eq_bind, Option.bind_eq_some_iff, Option.ite_none_right_eq_some,
    Bool.and_eq_true, Option.isNone_iff_eq_none, Bool.not_eq_true', Option.some.injEq, and_assoc]
  exact exists_congr fun ty => by rw [@eq_comm _ edit]

/-- The edited shader has a constant in the place of an expression that was none. -/
structure Places (shader edited : Shader) (value constant : Expr) : Prop
    extends IsConstantFor value.id shader.nextId constant where
  isExpr : value ∈ shader.exprs
  wasNone : isConstant value = false
  decls : edited.decls = shader.decls.map (Decl.mapExprs (putAt value.id constant))

/-- An edit puts a constant in the place of what it was found at. -/
theorem exists_places_of_mem_find (distinct : shader.ids.Nodup)
    (listed : edit ∈ find everywhere types shader) :
    ∃ value constant, edit.expr = value.id ∧ Places shader (edit.apply shader) value constant := by
  rcases List.mem_filterMap.mp listed with ⟨value, isTarget, isEdit⟩
  have isExpr := Shader.mem_exprs_of_mem_rvalues (List.mem_filter.mp isTarget).1
  rcases ofExpr?_eq_some_iff.mp isEdit with ⟨ty, _, _, wasNone, isValueTy, rfl⟩
  have replaced : ∀ (drawn : Shader), drawn.decls = shader.decls → ∀ constant : Expr,
      (drawn.replaceExpr value.id constant).1.decls =
        shader.decls.map (Decl.mapExprs (putAt value.id constant)) := by
    intro drawn same constant
    have distinct' : drawn.ids.Nodup := by rwa [Shader.ids, same]
    show ((drawn.modifyExpr? value.id fun _ => constant).getD drawn).decls = _
    rw [Shader.getD_modifyExpr? distinct', Shader.mapExprs, same, putAt]
  refine ⟨value, ?_⟩
  cases ty with
  | void | struct => cases isValueTy
  | scalar component =>
      refine ⟨oneLiteral value.id component, rfl, ?_, isExpr, wasNone, replaced shader rfl _⟩
      cases component <;> exact ⟨rfl, rfl, fun id listed => .inl (List.mem_singleton.mp listed)⟩
  | vector component width =>
      refine ⟨.call value.id (Ty.vector component width).text [oneLiteral shader.nextId component],
        rfl, ⟨rfl, ?_, fun id listed => ?_⟩, isExpr, wasNone, replaced shader.freshId.2 rfl _⟩
      · cases component <;> cases width <;> rfl
      · cases component <;> simpa [Expr.ids, Expr.idsOfList, oneLiteral] using listed

/-- A constant is not found. -/
theorem at?_eq_none {injected : List NodeId} {e : Expr} (constant : isConstant e = true) :
    at? everywhere injected types e = none := by
  refine Option.eq_none_iff_forall_ne_some.mpr fun edit found => ?_
  rw [at?, Option.ite_none_right_eq_some, ofExpr?_eq_some_iff] at found
  rcases found with ⟨_, _, _, _, notConstant, _⟩
  rw [constant] at notConstant
  cases notConstant

namespace Places

variable {value : Expr} (places : Places shader edited value constant)
include places

/-- A constant keeps its place, since the value is no part of it. -/
theorem putAt_eq_self (distinct : shader.ids.Nodup) {e : Expr} (listed : e ∈ shader.exprs)
    (isConst : isConstant e = true) : putAt value.id constant e = e := by
  refine Expr.rewrite_changeAt_of_notMem fun inside => ?_
  rw [← Expr.map_id_subexprs] at inside
  rcases List.mem_map.mp inside with ⟨part, isPart, same⟩
  have ofPart := isConstant_of_mem_subexprs isConst isPart
  rw [Shader.expr_eq_of_id_eq distinct (Shader.mem_exprs_of_mem_subexprs listed isPart)
    places.isExpr same, places.wasNone] at ofPart
  cases ofPart

/-- Whatever is found at another expression afterwards was found there before. -/
theorem yields_at? (numbered : shader.IsNumbered) {e : Expr} (listed : e ∈ shader.exprs)
    (differ : e.id ≠ value.id)
    (sameType : ∀ ty, types'[e.id]? = some ty → types[e.id]? = some ty) :
    Yields (at? everywhere (injectedIds edited) types' (putAt value.id constant e))
      (at? everywhere (injectedIds shader) types e) := by
  intro edit found
  rw [at?, Option.ite_none_right_eq_some, places.id_putAt, ofExpr?_eq_some_iff,
    places.id_putAt] at found
  rcases found with ⟨isTargeted, ty, isTy, unwritten, notConstant, isValueTy, rfl⟩
  have isOld : e.id ≠ shader.nextId := Nat.ne_of_lt (numbered.2 _
    (shader.map_id_exprs_sublist.subset (List.mem_map_of_mem listed)))
  have isTargeted' : (everywhere || (injectedIds shader).contains e.id) = true := by
    simp only [Bool.or_eq_true, List.contains_iff_mem] at isTargeted ⊢
    exact isTargeted.imp_right fun isInjected =>
      (places.mem_injectedIds places.decls isInjected).resolve_right isOld
  have unwritten' : e.written? = none := by
    rwa [putAt_of_ne differ, written?_mapChildren, Option.map_eq_none_iff] at unwritten
  have wasNotConstant : isConstant e = false := by
    refine Bool.eq_false_iff.mpr fun wasConstant => ?_
    rw [places.putAt_eq_self numbered.1 listed wasConstant, wasConstant] at notConstant
    cases notConstant
  rw [at?, if_pos isTargeted', ofExpr?_eq_some_iff]
  exact ⟨ty, sameType ty isTy, unwritten', wasNotConstant, isValueTy, rfl⟩

/-- Whatever is found afterwards was found before, in the same order. -/
theorem find_sublist (numbered : shader.IsNumbered)
    (sameType : ∀ e ∈ shader.exprs, ∀ ty, types'[e.id]? = some ty → types[e.id]? = some ty) :
    (find everywhere types' edited).Sublist (find everywhere types shader) := by
  rw [find_eq, find_eq, rvalues, rvalues, Shader.roots_of_mapExprs places.decls, List.flatMap_map,
    List.filterMap_flatMap, List.filterMap_flatMap]
  refine List.Sublist.flatMap_right shader.roots fun root isRoot => ?_
  refine (filterMap_values_putAt_sublist (fun part isPart => ?_) fun e isPart differ => ?_).1
  · exact at?_eq_none (isConstant_of_mem_subexprs places.fits isPart)
  · have listed : e ∈ shader.exprs := List.mem_flatMap.mpr ⟨root, isRoot, isPart⟩
    exact places.yields_at? numbered listed differ (sameType e listed)

theorem constant_mem_exprs (distinct : shader.ids.Nodup) : constant ∈ edited.exprs := by
  have isThere := Shader.change_mem_exprs places.decls places.isExpr
    (Shader.rewrite_changeAt_around distinct places.isExpr fun child isChild =>
      Expr.notMem_subexprs_of_mem_children isChild)
  rwa [putAt_of_eq rfl] at isThere

/-- Nothing is found where the constant is. -/
theorem notMem_find (distinct : shader.ids.Nodup) (distinct' : edited.ids.Nodup)
    (isTarget : edit.expr = value.id) : edit ∉ find everywhere types' edited := by
  intro listed
  rcases exists_places_of_mem_find distinct' listed with ⟨value', _, isTarget', places'⟩
  have same : constant.id = value'.id := by rw [places.sameId, ← isTarget, isTarget']
  have isConst := places.fits
  rw [Shader.expr_eq_of_id_eq distinct' (places.constant_mem_exprs distinct) places'.isExpr same,
    places'.wasNone] at isConst
  cases isConst

end Places

/-- An edit leaves less to find than the search that found it. -/
theorem length_find_apply_lt (checked : shader.check version = .ok types)
    (below : ∀ id ∈ shader.ids, id < shader.nextId) (listed : edit ∈ find everywhere types shader)
    (checked' : (edit.apply shader).check version = .ok types') :
    (find everywhere types' (edit.apply shader)).length < (find everywhere types shader).length := by
  have numbered := isNumbered_of_check checked below
  rcases exists_places_of_mem_find numbered.1 listed with ⟨value, constant, isTarget, places⟩
  rcases keepsTypes_constantReplacement checked below listed with ⟨types'', checked'', sameTypes⟩
  rw [checked'] at checked''
  cases checked''
  have fewer : (find everywhere types' (edit.apply shader)).Sublist (find everywhere types shader) := by
    refine places.find_sublist numbered fun e isExpr ty isTy => ?_
    -- What has a type afterwards is an expression that is still there.
    rcases List.mem_map.mp (Shader.mem_map_id_exprs_of_getElem? checked' isTy) with
      ⟨e', isExpr', same⟩
    rw [← sameTypes e isExpr e' isExpr' same, same, isTy]
  refine Nat.lt_of_le_of_ne fewer.length_le fun sameLength => ?_
  have gone : edit ∉ find everywhere types' (edit.apply shader) :=
    places.notMem_find numbered.1 (Shader.isValid_iff.mp ⟨types', checked'⟩).1 isTarget
  exact gone (fewer.eq_of_length sameLength ▸ listed)

end ConstantReplacement

/-- A series of edits of one kind.  Each is found in the shader that the ones before it
left. -/
inductive Series (kind : Kind) (scan : Scan) : Shader → List Edit → Prop
  | done (shader : Shader) : Series kind scan shader []
  | next {shader : Shader} {found : List Edit} {edit : Edit} {behind : List Edit}
      (isFound : kind.find scan shader = .ok found) (listed : edit ∈ found)
      (rest : Series kind scan (edit.apply shader) behind) : Series kind scan shader (edit :: behind)

theorem find_exprToConstant (checked : shader.check version = .ok types) (everywhere : Bool) :
    Kind.exprToConstant.find ⟨version, everywhere⟩ shader =
      .ok ((ConstantReplacement.find everywhere types shader).map .exprToConstant) := by
  rw [Kind.find, if_pos (Kind.needsTypes_of_replacesValue rfl), checked]
  rfl

/-- After an edit the same search succeeds and finds less. -/
theorem exists_find_apply_lt (checked : shader.check version = .ok types)
    (below : ∀ id ∈ shader.ids, id < shader.nextId) {everywhere : Bool} {edits : List Edit}
    (found : Kind.exprToConstant.find ⟨version, everywhere⟩ shader = .ok edits) {edit : Edit}
    (listed : edit ∈ edits) :
    ∃ types' edits', (edit.apply shader).check version = .ok types' ∧
      Kind.exprToConstant.find ⟨version, everywhere⟩ (edit.apply shader) = .ok edits' ∧
      edits'.length < edits.length := by
  rw [find_exprToConstant checked] at found
  cases found
  rcases List.mem_map.mp listed with ⟨replacement, isFound, rfl⟩
  rcases keepsTypes_constantReplacement checked below isFound with ⟨types', checked', _⟩
  refine ⟨types', _, checked', find_exprToConstant checked' everywhere, ?_⟩
  rw [List.length_map, List.length_map]
  exact ConstantReplacement.length_find_apply_lt checked below isFound checked'

/-- No series is longer than what there is to find at its start. -/
theorem Series.length_le {scan : Scan} {applied : List Edit}
    (series : Series .exprToConstant scan shader applied) {edits : List Edit}
    (checked : shader.check scan.version = .ok types) (below : ∀ id ∈ shader.ids, id < shader.nextId)
    (found : Kind.exprToConstant.find scan shader = .ok edits) : applied.length ≤ edits.length := by
  induction series generalizing edits types with
  | done => exact Nat.zero_le _
  | @next shader found' edit behind isFound listed _ inductionHypothesis =>
      rw [found] at isFound
      cases isFound
      rcases exists_find_apply_lt checked below found listed with ⟨types', edits', checked', isLess⟩
      have numbered := edit.isNumbered_apply (isNumbered_of_check checked below)
      exact Nat.lt_of_le_of_lt (inductionHypothesis checked' numbered.2 isLess.1) isLess.2

/-- In a valid shader every edit that replaces an expression by a constant leaves less to find
than there was, everywhere and in injected code alone.  So a series of such edits has at most
as many as were found at first. -/
theorem exprToConstant_progresses (checked : shader.check version = .ok types)
    (below : ∀ id ∈ shader.ids, id < shader.nextId) (everywhere : Bool) :
    ∃ edits, Kind.exprToConstant.find ⟨version, everywhere⟩ shader = .ok edits ∧
      (∀ edit ∈ edits, ∃ edits',
        Kind.exprToConstant.find ⟨version, everywhere⟩ (edit.apply shader) = .ok edits' ∧
          edits'.length < edits.length) ∧
      ∀ applied, Series .exprToConstant ⟨version, everywhere⟩ shader applied →
        applied.length ≤ edits.length := by
  have found := find_exprToConstant checked everywhere
  refine ⟨_, found, fun edit listed => ?_, fun applied series => series.length_le checked below found⟩
  rcases exists_find_apply_lt checked below found listed with ⟨_, edits', _, found', less⟩
  exact ⟨edits', found', less⟩

/-- The shader `void main() { float x = 1.0; vec2 v = vec2(x); }`. -/
def spreading : Shader :=
  .ofDecls .essl100 [.function ⟨.unnumbered, .void, "main", [], ⟨.unnumbered,
    [.decl .unnumbered ⟨.unnumbered, none, .float, "x", some (.float .unnumbered .one)⟩,
      .decl .unnumbered ⟨.unnumbered, none, .vector .float .two, "v", some
        (.call .unnumbered "vec2" [.var .unnumbered "x"])⟩]⟩⟩]

/-- With a constant in the place of `x` the constructor around it is a constant too, and
nothing is left to find. -/
theorem exprToConstant_progresses_spreading :
    ∃ edits, Kind.exprToConstant.find ⟨.essl100, true⟩ spreading = .ok edits ∧
      edits = [.exprToConstant ⟨7, .vector .float .two⟩, .exprToConstant ⟨8, .float⟩] ∧
      Kind.exprToConstant.find ⟨.essl100, true⟩
        ((Edit.exprToConstant ⟨8, .float⟩).apply spreading) = .ok [] ∧
      ∀ applied, Series .exprToConstant ⟨.essl100, true⟩ spreading applied →
        applied.length ≤ edits.length := by
  have isValid : (spreading.check .essl100).toOption.isSome = true := by decide
  have found : Kind.exprToConstant.find ⟨.essl100, true⟩ spreading =
      .ok [.exprToConstant ⟨7, .vector .float .two⟩, .exprToConstant ⟨8, .float⟩] := by
    rfl
  cases checked : spreading.check .essl100 with
  | error problems =>
      rw [checked] at isValid
      cases isValid
  | ok types =>
      have below : ∀ id ∈ spreading.ids, id < spreading.nextId := by decide
      rcases exprToConstant_progresses checked below true with ⟨edits, found', _, bounded⟩
      rw [found] at found'
      cases found'
      exact ⟨_, found, rfl, rfl, bounded⟩

end Reduction
end Whittle
