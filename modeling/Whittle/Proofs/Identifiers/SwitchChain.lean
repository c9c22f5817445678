import Mathlib.Data.List.Perm.Basic
import Whittle.Proofs.Identifiers.Operations
import Whittle.Reduction.Stmt.SwitchChain

namespace Whittle
namespace Reduction

/-!
# Identifiers in the chain for a switch

The chain of conditions is built step by step, each step drawing identifiers as
it goes.  The bodies of the arms move into the chain as they are, while the
selector is copied under new identifiers once for each comparison.
-/

/-- Whatever shader the steps start from, they draw identifiers and make
something of the identifiers in `sources` and the drawn ones. -/
structure Builds {α : Type} (sources : List NodeId) (ids : α → List NodeId)
    (steps : StateM Shader α) : Prop where
  draws : ∀ shader : Shader, shader.Draws (steps.run shader).2
  renews : ∀ shader : Shader, Renews shader.nextId (steps.run shader).2.nextId sources
    (ids (steps.run shader).1)

namespace Builds

variable {α β : Type} {sources sources' : List NodeId} {ids : α → List NodeId}
  {ids' : β → List NodeId} {steps : StateM Shader α}

theorem of_pure (a : α) : Builds (ids a) ids (pure a) :=
  ⟨fun shader => .refl shader, fun _ => .of_sublist (.refl _)⟩

/-- What is built of something built is built of its sources. -/
theorem bind {next : α → StateM Shader β} (first : Builds sources ids steps)
    (others : List NodeId) (second : ∀ a, Builds (ids a ++ others) ids' (next a)) :
    Builds (sources ++ others) ids' (steps >>= next) := by
  refine ⟨fun shader => ?_, fun shader => ?_⟩
  · exact (first.draws shader).trans ((second _).draws _)
  · exact (first.renews shader).bind ((second _).renews _) (first.draws shader).forward
      ((second _).draws _).forward

theorem of_subperm (builds : Builds sources ids steps) (within : sources.Subperm sources') :
    Builds sources' ids steps :=
  ⟨builds.draws, fun shader id =>
    Nat.le_trans (builds.renews shader id) (Nat.add_le_add_right (within.count_le id) _)⟩

theorem of_sublist (builds : Builds sources ids steps) (within : sources.Sublist sources') :
    Builds sources' ids steps :=
  builds.of_subperm within.subperm

end Builds

theorem builds_freshId : Builds [] (fun id => [id]) (Shader.freshId : StateM Shader NodeId) :=
  ⟨fun shader => shader.draws_freshId, fun shader => .range' shader.nextId 1⟩

theorem builds_refreshExpr (e : Expr) :
    Builds [] Expr.ids (fun shader => shader.refreshExpr e : StateM Shader Expr) :=
  ⟨fun shader => shader.draws_refreshExpr e, fun shader => shader.renews_refreshExpr e []⟩

namespace SwitchChain

theorem builds_block (stmts : List Stmt) :
    Builds (Stmt.idsOfList stmts) Stmt.ids (block stmts) := by
  refine builds_freshId.bind (Stmt.idsOfList stmts) fun scope => ?_
  refine builds_freshId.bind ([scope] ++ Stmt.idsOfList stmts) fun id => ?_
  have made : Builds _ Stmt.ids (pure (Stmt.block id scope stmts)) := .of_pure _
  exact made

theorem builds_comparison (selector : Expr) (number : Int) :
    Builds [] Expr.ids (comparison selector number) := by
  refine (builds_refreshExpr selector).bind [] fun lhs => ?_
  refine builds_freshId.bind (lhs.ids ++ []) fun rhs => ?_
  refine builds_freshId.bind ([rhs] ++ (lhs.ids ++ [])) fun id => ?_
  have made : Builds _ Expr.ids (pure (Expr.binary id .eq lhs (.int rhs number))) := .of_pure _
  refine made.of_subperm (List.Perm.subperm ?_)
  rw [Expr.ids, Expr.ids, List.append_nil]
  exact (List.perm_append_comm).cons id

/-- Each label that is a number adds a comparison and a disjunction. -/
theorem builds_alternatives (selector : Expr) (cond : Option Expr) (labels : List Label) :
    Builds (Expr.idsOfOption cond) Expr.idsOfOption (alternatives selector cond labels) := by
  induction labels generalizing cond with
  | nil => exact .of_pure cond
  | cons label rest inductionHypothesis =>
      cases label with
      | otherwise => exact inductionHypothesis cond
      | value number =>
          refine (builds_comparison selector number).bind (Expr.idsOfOption cond) fun test => ?_
          cases cond with
          | none => exact (inductionHypothesis (some test)).of_sublist (List.sublist_append_left _ _)
          | some before =>
              refine builds_freshId.bind (test.ids ++ before.ids) fun id => ?_
              refine (inductionHypothesis (some (.binary id .or before test))).of_subperm ?_
              exact (List.perm_append_comm.cons id).subperm

def idsOfArms (arms : List Arm) : List NodeId :=
  arms.flatMap fun arm => Stmt.idsOfList arm.body

theorem builds_prepend (selector : Expr) (chain : Option Stmt) (arms : List Arm) :
    Builds (Stmt.idsOfOption chain ++ idsOfArms arms) Stmt.idsOfOption
      (prepend selector chain arms) := by
  induction arms generalizing chain with
  | nil =>
      rw [idsOfArms, List.flatMap_nil, List.append_nil]
      exact .of_pure chain
  | cons arm rest inductionHypothesis =>
      have conds := builds_alternatives selector none arm.labels
      refine conds.bind (Stmt.idsOfOption chain ++ idsOfArms (arm :: rest)) fun cond => ?_
      cases cond with
      | none =>
          refine (inductionHypothesis chain).of_sublist ?_
          exact (List.Sublist.refl _).append (List.sublist_append_right _ _)
      | some cond =>
          have sources : (Stmt.idsOfList arm.body ++
              (cond.ids ++ (Stmt.idsOfOption chain ++ idsOfArms rest))).Perm
              (cond.ids ++ (Stmt.idsOfOption chain ++ idsOfArms (arm :: rest))) := by
            refine List.perm_iff_count.mpr fun id => ?_
            simp only [idsOfArms, List.flatMap_cons, List.count_append]
            omega
          refine Builds.of_subperm ?_ sources.subperm
          refine (builds_block arm.body).bind _ fun whenTrue => ?_
          refine builds_freshId.bind
            (whenTrue.ids ++ (cond.ids ++ (Stmt.idsOfOption chain ++ idsOfArms rest))) fun id => ?_
          refine (inductionHypothesis (some (.branch id cond whenTrue chain))).of_subperm ?_
          refine (List.perm_iff_count.mpr fun other => ?_).subperm
          simp only [Stmt.idsOfOption, Stmt.ids, List.count_append, List.count_cons,
            List.count_nil]
          omega

/-- A chain is made of the bodies of the arms: that of the default arm, and
those of the others. -/
theorem builds_chain (selector : Expr) (arms : List Arm) :
    Builds (idsOfArms arms) Stmt.idsOfOption (chain selector arms) := by
  have others : (idsOfArms (arms.filter fun arm => !arm.isDefault).reverse).Perm
      (idsOfArms (arms.filter fun arm => !arm.isDefault)) :=
    (List.reverse_perm _).flatMap_right _
  have whole := (List.filter_append_perm Arm.isDefault arms).flatMap_right
    fun arm => Stmt.idsOfList arm.body
  rw [List.flatMap_append] at whole
  unfold chain
  cases found : arms.find? Arm.isDefault with
  | none =>
      refine (builds_prepend selector none _).of_subperm ?_
      exact others.subperm.trans ((List.sublist_append_right _ _).subperm.trans whole.subperm)
  | some arm =>
      have isDefault : arm ∈ arms.filter Arm.isDefault :=
        List.mem_filter.mpr ⟨List.mem_of_find?_eq_some found, List.find?_some found⟩
      have last : (Stmt.idsOfList arm.body).Sublist (idsOfArms (arms.filter Arm.isDefault)) := by
        have one := (List.singleton_sublist.mpr isDefault).flatMap fun arm => Stmt.idsOfList arm.body
        rwa [List.flatMap_singleton] at one
      refine Builds.of_subperm ?_ (((last.append (.refl _)).subperm).trans whole.subperm)
      refine (builds_block arm.body).bind _ fun s => ?_
      exact (builds_prepend selector (some s) _).of_subperm (others.append_left _).subperm

end SwitchChain

/-- The body of an arm is that of a case, perhaps without its last statement. -/
theorem sublist_of_armBody? {isLast : Bool} {body stmts : List Stmt}
    (found : armBody? isLast body = some stmts) : stmts.Sublist body := by
  simp only [armBody?, Option.ite_none_right_eq_some, Option.some.injEq] at found
  rw [← found.2]
  split
  · exact List.dropLast_sublist body
  · exact .refl body

/-- The arms of a switch have the identifiers of statements behind its labels. -/
theorem idsOfArms_sublist_of_armsFrom? {labels : List Label} {cases : List Case} {arms : List Arm}
    (found : armsFrom? labels cases = some arms) :
    (SwitchChain.idsOfArms arms).Sublist (Stmt.idsOfCases cases) := by
  induction cases generalizing labels arms with
  | nil =>
      cases found
      exact .refl _
  | cons one rest inductionHypothesis =>
      rcases one with ⟨id, label, body⟩
      rw [armsFrom?] at found
      split at found
      · exact ((inductionHypothesis found).trans (List.sublist_append_right _ _)).cons id
      · simp only [Option.bind_eq_bind, Option.bind_eq_some_iff, Option.some.injEq] at found
        rcases found with ⟨stmts, isBody, others, isOthers, rfl⟩
        have own : (Stmt.idsOfList stmts).Sublist (Stmt.idsOfList body) := by
          rw [Stmt.idsOfList_eq_flatMap, Stmt.idsOfList_eq_flatMap]
          exact (sublist_of_armBody? isBody).flatMap Stmt.ids
        exact (own.append (inductionHypothesis isOthers)).cons id

/-- What is built takes over the identifier of the switch. -/
theorem renews_withId {first next : Nat} {sources : List NodeId} (id : NodeId) (built : Option Stmt)
    (renews : Renews first next sources (Stmt.idsOfOption built)) :
    Renews first next (id :: sources) ((built.getD (.empty id)).withId id).ids := by
  cases built with
  | none => exact .of_sublist ((List.nil_sublist sources).cons_cons id)
  | some s =>
      have parts : ∃ rest, s.ids = s.id :: rest ∧ (s.withId id).ids = id :: rest := by
        cases s <;> exact ⟨_, rfl, rfl⟩
      rcases parts with ⟨rest, same, renamed⟩
      rw [Stmt.idsOfOption, same] at renews
      rw [Option.getD_some, renamed]
      exact (renews.sublist_trans (List.sublist_cons_self s.id rest)).cons id

theorem SwitchChain.isNumbered_apply (edit : SwitchChain) {shader : Shader}
    (numbered : shader.IsNumbered) : (edit.apply shader).IsNumbered := by
  unfold apply
  split
  · rename_i id selector cases found
    split
    · exact numbered
    · rename_i arms isArms
      have builds := builds_chain (comparedSelector selector) arms
      refine numbered.replaceStmt (builds.draws shader) fun other listed isTarget => ?_
      rw [numbered.eq_of_findStmt? found listed isTarget, ← Shader.id_of_findStmt? found]
      have kept : (id :: SwitchChain.idsOfArms arms).Sublist (Stmt.switch id selector cases).ids :=
        ((idsOfArms_sublist_of_armsFrom? isArms).trans (List.sublist_append_right _ _)).cons_cons id
      exact (renews_withId id _ (builds.renews shader)).trans_sublist kept
  · exact numbered

end Reduction
end Whittle
