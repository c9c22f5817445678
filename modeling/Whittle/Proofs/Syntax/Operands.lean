import Mathlib.Data.List.Perm.Basic
import Whittle.Syntax.Shader

namespace Whittle

/-!
# Operands by number

A search that must not overlook a use of something counts: the uses that it has
found among operands of a certain form, and all uses.  If the numbers are the same,
every use is an operand of that form.
-/

namespace Expr

/-- What holds of an expression whenever it holds of all parts of its operands holds
of all expressions. -/
theorem subexprs_induction {P : Expr → Prop}
    (step : ∀ e, (∀ child ∈ e.children, ∀ part ∈ child.subexprs, P part) → P e) (e : Expr) : P e := by
  suffices parts : ∀ part ∈ e.subexprs, P part from parts e e.self_mem_subexprs
  induction e using children_induction with
  | step e inductionHypothesis =>
      rw [subexprs_eq_cons, List.forall_mem_cons]
      refine ⟨step e inductionHypothesis, fun part within => ?_⟩
      rcases List.mem_flatMap.mp within with ⟨child, isChild, isPart⟩
      exact inductionHypothesis child isChild part isPart

theorem perm_flatMap_subexprs {es : List Expr}
    (perm : ∀ e ∈ es, e.subexprs.Perm (e :: e.subexprs.flatMap children)) :
    (es.flatMap subexprs).Perm (es ++ (es.flatMap subexprs).flatMap children) := by
  induction es with
  | nil => exact .nil
  | cons e rest inductionHypothesis =>
      rw [List.forall_mem_cons] at perm
      have both := perm.1.append (inductionHypothesis perm.2)
      rw [List.flatMap_cons, List.flatMap_append]
      refine both.trans (.cons e ?_)
      show (e.subexprs.flatMap children ++ (rest ++ _)).Perm (rest ++ (e.subexprs.flatMap children ++ _))
      rw [← List.append_assoc, ← List.append_assoc]
      exact List.perm_append_comm.append_right _

/-- Every part of an expression is the expression itself or an operand of one part. -/
theorem perm_subexprs (e : Expr) : e.subexprs.Perm (e :: e.subexprs.flatMap children) := by
  induction e using children_induction with
  | step e inductionHypothesis =>
      rw [subexprs_eq_cons, List.flatMap_cons]
      exact (perm_flatMap_subexprs inductionHypothesis).cons e

theorem countP_flatMap_children {p : Expr → Bool} {es : List Expr}
    (sole : ∀ e ∈ es, ∃ child, e.children = [child] ∧ p child = true) :
    (es.flatMap children).countP p = es.length := by
  induction es with
  | nil => rfl
  | cons e rest inductionHypothesis =>
      rw [List.forall_mem_cons] at sole
      rcases sole with ⟨⟨child, onlyChild, isUse⟩, rest⟩
      rw [List.flatMap_cons, onlyChild, List.singleton_append, List.countP_cons_of_pos isUse,
        inductionHypothesis rest, List.length_cons]

/-- If there are no more expressions with `p` than expressions that have one as their
sole operand, then all of them are operands of this kind. -/
theorem operands_of_countP_le {p q : Expr → Bool} {roots : List Expr}
    (sole : ∀ e, q e = true → ∃ child, e.children = [child] ∧ p child = true)
    (few : (roots.flatMap subexprs).countP p ≤ (roots.flatMap subexprs).countP q) :
    (∀ root ∈ roots, p root = false) ∧
      ∀ e ∈ roots.flatMap subexprs, ∀ child ∈ e.children, p child = true → q e = true := by
  generalize isAll : roots.flatMap subexprs = all at few ⊢
  have perm : all.Perm (roots ++ ((all.filter q).flatMap children ++
      (all.filter fun e => !q e).flatMap children)) := by
    have operands := perm_flatMap_subexprs fun e (_ : e ∈ roots) => e.perm_subexprs
    rw [isAll] at operands
    refine operands.trans (.append_left _ ?_)
    rw [← List.flatMap_append]
    exact (List.filter_append_perm q all).symm.flatMap_right children
  have inside : ((all.filter q).flatMap children).countP p = all.countP q := by
    rw [List.countP_eq_length_filter (p := q)]
    exact countP_flatMap_children fun e listed => sole e (List.mem_filter.mp listed).2
  rw [perm.countP_eq, List.countP_append, List.countP_append, inside] at few
  have noRoot : roots.countP p = 0 := by omega
  have noOther : ((all.filter fun e => !q e).flatMap children).countP p = 0 := by omega
  rw [List.countP_eq_zero] at noRoot noOther
  refine ⟨fun root isRoot => Bool.not_eq_true _ ▸ noRoot root isRoot, fun e listed child isChild isUse => ?_⟩
  by_contra isOther
  exact noOther child (List.mem_flatMap.mpr ⟨e, List.mem_filter.mpr ⟨listed, by simpa using isOther⟩,
    isChild⟩) isUse

end Expr
end Whittle
