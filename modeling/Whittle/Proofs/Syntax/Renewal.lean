import Mathlib.Data.List.Induction
import Whittle.Proofs.Identifiers.Operations
import Whittle.Proofs.Syntax.Mapping

namespace Whittle

/-!
# New expressions in the place of several others

Some edits put a new expression in the place of one target after the other and draw
identifiers in between, so what they put in depends on how many came before.  It
consists of new nodes only.  So no later target is in it, and the whole series is
one change of all expressions, with a step for each target.
-/

open Whittle.Expr (rewrite changeBy NaturalAt)

/-- What does not have a target in it may be put in before other targets change. -/
theorem Expr.naturalAt_const {targets : List NodeId} {replacement : Expr}
    (isNew : ∀ id ∈ replacement.ids, id ∉ targets) (e : Expr) :
    NaturalAt targets (fun _ => replacement) e := by
  intro _ _ _ spares _
  refine rewrite_eq_self fun part isPart => spares part (isNew part.id ?_)
  rw [← map_id_subexprs]
  exact List.mem_map_of_mem isPart

/-- A kind of new expressions: for which target they are, what they are if they are
numbered from `next` on, and how many identifiers are drawn for each. -/
structure Renewal (α : Type) where
  target : α → NodeId
  make : (next : NodeId) → α → Expr
  cost : Nat
  renews : ∀ (next : NodeId) (item : α), Renews next (next + cost) [] (make next item).ids

namespace Renewal

variable {α : Type} (renewal : Renewal α) {next : NodeId} {items : List α} {shader : Shader}

/-- The changes by identifier. -/
def steps (next : NodeId) : List α → List (NodeId × (Expr → Expr))
  | [] => []
  | item :: rest =>
      (renewal.target item, fun _ => renewal.make next item) :: steps (next + renewal.cost) rest

/-- The new expression for one item in the place of its target. -/
def replace (shader : Shader) (item : α) : Shader :=
  ({ shader with nextId := shader.nextId + renewal.cost }.replaceExpr (renewal.target item)
    (renewal.make shader.nextId item)).1

/-- New references, each to the variable that is named for the item. -/
def references (target : α → NodeId) (name : α → String) : Renewal α where
  target := target
  make next item := .var next (name item)
  cost := 1
  renews next _ := Renews.range' next 1

theorem map_fst_steps : (renewal.steps next items).map Prod.fst = items.map renewal.target := by
  induction items generalizing next with
  | nil => rfl
  | cons item rest inductionHypothesis => exact congrArg (renewal.target item :: ·) inductionHypothesis

theorem steps_append_singleton (item : α) :
    renewal.steps next (items ++ [item]) = renewal.steps next items ++
      [(renewal.target item, fun _ => renewal.make (next + renewal.cost * items.length) item)] := by
  induction items generalizing next with
  | nil => rfl
  | cons first rest inductionHypothesis =>
      rw [List.cons_append, steps, inductionHypothesis, steps, List.length_cons, List.cons_append,
        Nat.mul_succ, Nat.add_assoc, Nat.add_comm renewal.cost]

/-- Every step puts in a new expression for its target, numbered from `next` on or
later. -/
theorem exists_of_lookup_steps {id : NodeId} {change : Expr → Expr}
    (isStep : (renewal.steps next items).lookup id = some change) :
    ∃ item ∈ items, ∃ later : NodeId, next ≤ later ∧ renewal.target item = id ∧
      change = fun _ => renewal.make later item := by
  induction items generalizing next with
  | nil => cases isStep
  | cons first rest inductionHypothesis =>
      rw [steps, List.lookup_cons] at isStep
      split at isStep
      · rename_i isFirst
        cases isStep
        exact ⟨first, List.mem_cons_self, next, Nat.le_refl next, (beq_iff_eq.mp isFirst).symm, rfl⟩
      · rcases inductionHypothesis isStep with ⟨item, listed, later, isLater, isTarget, isChange⟩
        exact ⟨item, List.mem_cons_of_mem _ listed, later,
          Nat.le_trans (Nat.le_add_right next renewal.cost) isLater, isTarget, isChange⟩

theorem exists_lookup_steps {item : α} (listed : item ∈ items) :
    ∃ change, (renewal.steps next items).lookup (renewal.target item) = some change := by
  refine Option.isSome_iff_exists.mp (Option.isSome_iff_ne_none.mpr fun isNone => ?_)
  rw [Expr.lookup_eq_none_iff_notMem, map_fst_steps] at isNone
  exact isNone (List.mem_map_of_mem listed)

theorem le_of_mem_ids_make {later : NodeId} {item : α} {id : NodeId}
    (listed : id ∈ (renewal.make later item).ids) : later ≤ id := by
  have once := renewal.renews later item id
  rw [List.count_nil, Nat.zero_add] at once
  split at once
  · rename_i drawn
    exact drawn.1
  · exact absurd (List.count_pos_iff.mpr listed) (Nat.not_lt.mpr once)

theorem isNumbered_replace (numbered : shader.IsNumbered) (item : α) :
    (renewal.replace shader item).IsNumbered :=
  numbered.replaceExpr ⟨rfl, Nat.le_add_right _ _⟩ fun e _ _ =>
    (renewal.renews shader.nextId item).trans_sublist (List.nil_sublist e.ids)

/-- Replacing targets one after the other is a step for each of them. -/
theorem foldl_replace (numbered : shader.IsNumbered) (distinct : (items.map renewal.target).Nodup)
    (old : ∀ item ∈ items, renewal.target item < shader.nextId) :
    items.foldl renewal.replace shader =
      Shader.mapExprs (rewrite (changeBy (renewal.steps shader.nextId items)))
        { shader with nextId := shader.nextId + renewal.cost * items.length } := by
  induction items using List.reverseRecOn with
  | nil => exact (Shader.mapExprs_eq_self fun e _ => Expr.rewrite_eq_self fun _ _ => rfl).symm
  | append_singleton front last inductionHypothesis =>
      rw [List.map_append, List.map_singleton, List.nodup_append'] at distinct
      rw [List.forall_mem_append, List.forall_mem_singleton] at old
      have isNew : renewal.target last ∉ (renewal.steps shader.nextId front).map Prod.fst := by
        rw [map_fst_steps]
        exact fun isOld => distinct.2.2 isOld List.mem_cons_self
      have before := inductionHypothesis distinct.1 old.1
      have numberedBefore : (front.foldl renewal.replace shader).IsNumbered :=
        .foldl (fun _ item isNumbered => renewal.isNumbered_replace isNumbered item) numbered _
      rw [before] at numberedBefore
      rw [List.foldl_append, before, List.foldl_cons, List.foldl_nil, steps_append_singleton]
      let next := shader.nextId + renewal.cost * front.length
      have step := @Shader.getD_modifyExpr?_mapExprs (fun _ => renewal.make next last)
        { shader with nextId := next + renewal.cost } (renewal.steps shader.nextId front)
        (renewal.target last) numberedBefore.1 isNew fun part _ change isStep => ?_
      · rw [List.length_append, List.length_singleton, Nat.mul_succ, ← Nat.add_assoc]
        exact step
      · rcases renewal.exists_of_lookup_steps isStep with ⟨item, _, later, isLater, _, rfl⟩
        refine Expr.naturalAt_const (fun id isMade isTarget => ?_) part
        have drawn := Nat.le_trans isLater (renewal.le_of_mem_ids_make isMade)
        rw [map_fst_steps, List.mem_cons] at isTarget
        rcases isTarget with rfl | isEarlier
        · exact Nat.not_lt.mpr drawn old.2
        · rcases List.mem_map.mp isEarlier with ⟨item, listed, rfl⟩
          exact Nat.not_lt.mpr drawn (old.1 item listed)

end Renewal
end Whittle
