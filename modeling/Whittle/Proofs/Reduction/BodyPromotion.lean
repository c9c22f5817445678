import Whittle.Proofs.Reduction.Bodies
import Whittle.Proofs.Reduction.Unwrapping

namespace Whittle

/-!
# Promoting a body keeps shaders valid

A condition or a loop gives way to a block with one of its bodies, wherever it
stands.  The block has a scope of its own, so what the body declares stays
inside, except in one place: a block that is directly the body of a `for` loop
has one scope with the header.  There the body must not declare the variable
that the header declares.
-/

namespace Stmt

/-- The statements are these two. -/
def Swap (t t' s s' : Stmt) : Prop :=
  s = t ∧ s' = t'

/-- A change inside a statement is a change of one statement in it. -/
theorem Inside.exists_swap {R : Stmt → Stmt → Prop} {s s' : Stmt} (inside : Inside R s s') :
    ∃ t t', R t t' ∧ t ∈ s.substmts ∧ Inside (Swap t t') s s' := by
  induction inside with
  | @here s s' changed => exact ⟨s, s', changed, self_mem_substmts s, .here ⟨rfl, rfl⟩⟩
  | block _ inductionHypothesis =>
      rcases inductionHypothesis with ⟨t, t', changed, isPart, inside⟩
      refine ⟨t, t', changed, List.mem_cons_of_mem _ ?_, .block inside⟩
      rw [substmtsOfList_eq_flatMap]
      exact List.mem_flatMap.mpr ⟨_, List.mem_append_cons_self, isPart⟩
  | branchTrue _ inductionHypothesis =>
      rcases inductionHypothesis with ⟨t, t', changed, isPart, inside⟩
      exact ⟨t, t', changed, List.mem_cons_of_mem _ (List.mem_append_left _ isPart),
        .branchTrue inside⟩
  | branchFalse _ inductionHypothesis =>
      rcases inductionHypothesis with ⟨t, t', changed, isPart, inside⟩
      exact ⟨t, t', changed, List.mem_cons_of_mem _ (List.mem_append_right _ isPart),
        .branchFalse inside⟩
  | forInit _ inductionHypothesis =>
      rcases inductionHypothesis with ⟨t, t', changed, isPart, inside⟩
      exact ⟨t, t', changed, List.mem_cons_of_mem _ (List.mem_append_left _ isPart),
        .forInit inside⟩
  | forBody _ inductionHypothesis =>
      rcases inductionHypothesis with ⟨t, t', changed, isPart, inside⟩
      exact ⟨t, t', changed, List.mem_cons_of_mem _ (List.mem_append_right _ isPart),
        .forBody inside⟩
  | whileBody _ inductionHypothesis =>
      rcases inductionHypothesis with ⟨t, t', changed, isPart, inside⟩
      exact ⟨t, t', changed, List.mem_cons_of_mem _ isPart, .whileBody inside⟩
  | @case _ _ casesBefore caseId label before s _ behind casesBehind _ inductionHypothesis =>
      rcases inductionHypothesis with ⟨t, t', changed, isPart, inside⟩
      refine ⟨t, t', changed, List.mem_cons_of_mem _ ?_, .case inside⟩
      rw [substmtsOfCases_eq_flatMap]
      exact List.mem_flatMap.mpr ⟨.mk caseId label (before ++ s :: behind),
        List.mem_append_cons_self, List.mem_flatMap.mpr ⟨s, List.mem_append_cons_self, isPart⟩⟩

end Stmt

/-- A change by identifier is a change of the one statement of that identifier. -/
theorem Shader.exists_swap_of_modifyStmt? {shader drawn edited : Shader} {change : Stmt → Stmt}
    {t : Stmt} (distinct : shader.ids.Nodup) (sameDecls : drawn.decls = shader.decls)
    (isModified : drawn.modifyStmt? t.id change = some edited) (listed : t ∈ shader.stmts) :
    ∃ before f behind inFront s s' after, shader.decls = before ++ .function f :: behind ∧
      edited.decls = before ++ .function (f.withStmts (inFront ++ s' :: after)) :: behind ∧
      f.body.stmts = inFront ++ s :: after ∧ t ∈ s.substmts ∧
        Stmt.Inside (Stmt.Swap t (change t)) s s' := by
  rcases atBody_of_modifyStmt? isModified with
    ⟨before, _, _, behind, isAt, rfl, @⟨f, _, inFront, s, s', after, isBody, rfl, inside⟩⟩
  rw [sameDecls] at isAt
  rcases inside.exists_swap with ⟨one, _, ⟨sameId, rfl⟩, isInner, inside⟩
  have isFunction : f ∈ shader.functions :=
    mem_functions_iff.mpr (isAt ▸ List.mem_append_cons_self)
  have isOne : one ∈ f.stmts := by
    rw [Function.stmts, isBody]
    exact List.mem_flatMap.mpr ⟨s, List.mem_append_cons_self, isInner⟩
  cases stmt_eq_of_id_eq distinct (mem_stmts_of_mem_functions isFunction isOne) listed sameId
  exact ⟨before, f, behind, inFront, s, s', after, isAt, rfl, isBody, isInner, inside⟩

namespace Reduction
namespace BodyPromotion

open Check (Context)
open Unwrapping (bodyStmts Wraps)

/-- A statement with a body that may take its place, and the branch that is dropped with it,
if there is one. -/
inductive Promotes : Stmt → Stmt → Option Stmt → Prop where
  | branchTrue {id : NodeId} {cond : Expr} {whenTrue : Stmt} {whenFalse : Option Stmt} :
      Promotes (.branch id cond whenTrue whenFalse) whenTrue whenFalse
  | branchFalse {id : NodeId} {cond : Expr} {whenTrue whenFalse : Stmt} :
      Promotes (.branch id cond whenTrue (some whenFalse)) whenFalse (some whenTrue)
  | whileLoop {id : NodeId} {cond : Expr} {body : Stmt} (stays : Jumps.ofStmt body = .none) :
      Promotes (.whileLoop id cond body) body none
  | forLoop {id : NodeId} {init : Option Stmt} {cond step : Option Expr} {body : Stmt}
      (idle : needsInit init body = false) (stays : Jumps.ofStmt body = .none) :
      Promotes (.forLoop id init cond step body) body none

variable {t kept : Stmt} {dropped : Option Stmt} {ctx : Context}

/-- A part that a search offers is a body that may take the place of the statement, and no
required `return` goes with what is dropped. -/
theorem exists_promotes {f : Function} {part : Part} (listed : part ∈ replacingParts f t) :
    ∃ kept dropped, bodyIn? part t = some kept ∧ Promotes t kept dropped ∧
      dropped.any (holdsRequiredReturn f) = false := by
  unfold replacingParts at listed
  split at listed
  · rw [List.mem_singleton.mp listed]
    exact ⟨_, _, rfl, .branchTrue, rfl⟩
  · rcases List.mem_append.mp listed with isTrue | isFalse
    · split at isTrue
      · cases isTrue
      · rename_i noReturn
        rw [List.mem_singleton.mp isTrue]
        exact ⟨_, _, rfl, .branchTrue, Bool.eq_false_iff.mpr noReturn⟩
    · split at isFalse
      · cases isFalse
      · rename_i noReturn
        rw [List.mem_singleton.mp isFalse]
        exact ⟨_, _, rfl, .branchFalse, Bool.eq_false_iff.mpr noReturn⟩
  · split at listed
    · cases listed
    · rename_i stays
      rw [List.mem_singleton.mp listed]
      refine ⟨_, _, rfl, .whileLoop (Unwrapping.eq_none_of_escape_eq_false ?_), rfl⟩
      rw [Bool.eq_false_iff.mpr stays]
      rfl
  · split at listed
    · cases listed
    · rename_i allowed
      rw [Bool.or_eq_true, not_or, Bool.not_eq_true, Bool.not_eq_true] at allowed
      rw [List.mem_singleton.mp listed]
      refine ⟨_, _, rfl, .forLoop allowed.2 (Unwrapping.eq_none_of_escape_eq_false ?_), rfl⟩
      rw [allowed.1]
      rfl
  · cases listed

theorem header_of_declared?_eq_none (ctx : Context) {s : Stmt} (nothing : s.declared? = none) :
    ctx.header (some s) = ctx.opened := by
  cases s with
  | decl => cases nothing
  | _ => simp [Context.header, Context.behind]

namespace Promotes

/-- What may be promoted could be unwrapped as well.  For a loop that is so once its
initialiser is gone, if that is no declaration. -/
theorem exists_wraps (promotes : Promotes t kept dropped) :
    ∃ t', Wraps t' (bodyStmts kept) dropped ∧
      (∀ ctx : Context, ctx.Accepts t →
        ctx.Accepts t' ∧ (t.holdsReturn = true → t'.holdsReturn = true)) ∧
      ∀ bindings, t'.references bindings ⊆ t.references bindings := by
  cases promotes with
  | branchTrue => exact ⟨_, .branchTrue, fun _ accepted => ⟨accepted, id⟩, fun _ => List.Subset.refl _⟩
  | branchFalse => exact ⟨_, .branchFalse, fun _ accepted => ⟨accepted, id⟩, fun _ => List.Subset.refl _⟩
  | whileLoop stays =>
      exact ⟨_, .whileLoop stays, fun _ accepted => ⟨accepted, id⟩, fun _ => List.Subset.refl _⟩
  | @forLoop id init cond step _ idle stays =>
      cases init with
      | none => exact ⟨_, .forLoop rfl stays, fun _ accepted => ⟨accepted, fun holds => holds⟩,
          fun _ => List.Subset.refl _⟩
      | some s =>
          cases declares : s.declared? with
          | some var =>
              cases s with
              | decl declId var =>
                  have unreferenced : Unwrapping.isIdleInit (some (.decl declId var)) kept = true := by
                    simpa [needsInit, Unwrapping.isIdleInit, Stmt.declared?] using idle
                  exact ⟨_, .forLoop unreferenced stays,
                    fun _ accepted => ⟨accepted, fun holds => holds⟩, fun _ => List.Subset.refl _⟩
              | _ => cases declares
          | none =>
              refine ⟨.forLoop id none cond step kept, .forLoop rfl stays, fun ctx accepted => ?_,
                fun bindings => ?_⟩
              · rw [Context.accepts_forLoop_iff, header_of_declared?_eq_none ctx declares] at accepted
                refine ⟨Context.accepts_forLoop_iff.mpr
                  ⟨fun _ isInit => (nomatch isInit), trivial, accepted.2.2⟩, fun holds => ?_⟩
                have isInit := accepted.1 s rfl
                rw [Stmt.holdsReturn_forLoop] at holds ⊢
                cases s with
                | expr => exact holds
                | decl => cases declares
                | _ => cases isInit
              · have same : bindings.header (some s) = bindings.header none := by
                  cases s with
                  | decl => cases declares
                  | _ => rfl
                rw [Stmt.references, Stmt.references, same]
                exact List.subset_append_right _ _

theorem isLoopInit_eq_false (promotes : Promotes t kept dropped) : t.isLoopInit = false := by
  cases promotes <;> rfl

theorem acceptsBody_iff (promotes : Promotes t kept dropped) :
    ctx.AcceptsBody t ↔ ctx.opened.Accepts t := by
  cases promotes <;> exact .rfl

/-- The body of an accepted statement is accepted in its place, where what it declares is
new. -/
theorem acceptsList (promotes : Promotes t kept dropped) (accepted : ctx.Accepts t)
    (free : ∀ name ∈ Stmt.declaredBy (bodyStmts kept), ctx.inner.lookup name = none) :
    ctx.AcceptsList (bodyStmts kept) := by
  rcases promotes.exists_wraps with ⟨t', wraps, keeps, -⟩
  exact wraps.acceptsList (keeps ctx accepted).1 free

/-- The body of an accepted statement is accepted in a new scope. -/
theorem acceptsList_opened (promotes : Promotes t kept dropped) (accepted : ctx.Accepts t) :
    ctx.opened.AcceptsList (bodyStmts kept) :=
  promotes.acceptsList (Context.accepts_of_hosts (Context.hosts_opened ctx [t]) accepted)
    fun _ _ => rfl

theorem references_subset (promotes : Promotes t kept dropped) (bindings : Bindings) :
    Stmt.referencesOfList bindings (bodyStmts kept) ⊆ t.references bindings := by
  rcases promotes.exists_wraps with ⟨t', wraps, -, fewer⟩
  exact List.Subset.trans (wraps.references_subset bindings) (fewer bindings)

/-- A required `return` in an accepted statement is in the body that takes its place. -/
theorem any_holdsReturn (promotes : Promotes t kept dropped) {f : Function}
    (keepsReturn : dropped.any (holdsRequiredReturn f) = false) (notVoid : f.returnTy ≠ .void)
    (accepted : ctx.Accepts t) (holds : t.holdsReturn = true) :
    (bodyStmts kept).any Stmt.holdsReturn = true := by
  rcases promotes.exists_wraps with ⟨t', wraps, keeps, -⟩
  refine (wraps.holdsReturn ((keeps ctx accepted).2 holds)).resolve_right fun isDropped => ?_
  cases dropped with
  | none => cases isDropped
  | some s =>
      rw [Option.any_some] at isDropped keepsReturn
      simp [holdsRequiredReturn, notVoid, isDropped] at keepsReturn

end Promotes
/-! ## Where it may be promoted -/

/-- Only its initialiser is declared in the scope of the header of a loop. -/
theorem lookup_inner_header (ctx : Context) {init : Option Stmt} {name : String}
    (notDeclared : name ∉ Stmt.declaredBy init.toList) :
    (ctx.header init).inner.lookup name = none := by
  rw [Context.header_inner ctx.opened ctx init]
  exact (Context.Encloses.header (List.Subset.refl _)).free name notDeclared rfl

/-- Directly in the body of a `for` loop, the block that takes the place of a statement has
no scope of its own. -/
theorem Promotes.acceptsList_of_acceptsBody (promotes : Promotes t kept dropped)
    (accepted : ctx.AcceptsBody t)
    (free : ∀ name ∈ Stmt.declaredBy (bodyStmts kept), ctx.inner.lookup name = none) :
    ctx.AcceptsList (bodyStmts kept) := by
  have within := promotes.acceptsList (promotes.acceptsBody_iff.mp accepted) fun _ _ => rfl
  exact Context.acceptsList_of_hosts ((Context.Encloses.opened [] ctx).hosts (by simp) free
    (fun _ => ⟨rfl, rfl⟩) fun _ => rfl) within

/-- Wherever the first statement is accepted the second one is as well, and a `return` that
a function needs stays. -/
def GivesWay (f : Function) (s s' : Stmt) : Prop :=
  ∀ ctx : Context, ctx.Accepts s →
    ctx.Accepts s' ∧ (f.returnTy ≠ .void → s.holdsReturn = true → s'.holdsReturn = true)

namespace GivesWay

variable {f : Function} {s s' : Stmt} {id : NodeId} {before behind : List Stmt}

/-- A list is accepted with another member if that one is accepted and declares the same. -/
theorem acceptsList (givesWay : GivesWay f s s')
    (sameBehind : ∀ ctx : Context, ctx.behind s' = ctx.behind s)
    (accepted : ctx.AcceptsList (before ++ s :: behind)) :
    ctx.AcceptsList (before ++ s' :: behind) ∧ (f.returnTy ≠ .void →
      (before ++ s :: behind).any Stmt.holdsReturn = true →
        (before ++ s' :: behind).any Stmt.holdsReturn = true) := by
  rw [Context.acceptsList_append_iff] at accepted
  have kept := givesWay _ accepted.2.1
  refine ⟨Context.acceptsList_append_iff.mpr
    ⟨accepted.1, kept.1, by rw [sameBehind]; exact accepted.2.2⟩, fun notVoid holds => ?_⟩
  simp only [List.any_append, List.any_cons, Bool.or_eq_true] at holds ⊢
  exact holds.imp_right (Or.imp_left (kept.2 notVoid))

theorem branchTrue {cond : Expr} {other : Option Stmt} (givesWay : GivesWay f s s') :
    GivesWay f (.branch id cond s other) (.branch id cond s' other) := by
  intro ctx accepted
  have kept := givesWay _ accepted.2.1
  refine ⟨⟨accepted.1, kept.1, accepted.2.2⟩, fun notVoid holds => ?_⟩
  rw [Stmt.holdsReturn_branch, Bool.or_eq_true] at holds ⊢
  exact holds.imp_left (kept.2 notVoid)

theorem branchFalse {cond : Expr} {other : Stmt} (givesWay : GivesWay f s s') :
    GivesWay f (.branch id cond other (some s)) (.branch id cond other (some s')) := by
  intro ctx accepted
  have kept := givesWay _ accepted.2.2
  refine ⟨⟨accepted.1, accepted.2.1, kept.1⟩, fun notVoid holds => ?_⟩
  rw [Stmt.holdsReturn_branch, Bool.or_eq_true] at holds ⊢
  exact holds.imp_right (kept.2 notVoid)

theorem whileBody {cond : Expr} (givesWay : GivesWay f s s') :
    GivesWay f (.whileLoop id cond s) (.whileLoop id cond s') := by
  intro ctx accepted
  have kept := givesWay _ accepted.2
  refine ⟨⟨accepted.1, kept.1⟩, fun notVoid holds => ?_⟩
  rw [Stmt.holdsReturn_whileLoop] at holds ⊢
  exact kept.2 notVoid holds

theorem case {selector : Expr} {casesBefore casesBehind : List Case} {caseId : NodeId}
    {label : Label} (givesWay : GivesWay f s s')
    (sameBehind : ∀ ctx : Context, ctx.behind s' = ctx.behind s) :
    GivesWay f
      (.switch id selector (casesBefore ++ .mk caseId label (before ++ s :: behind) :: casesBehind))
      (.switch id selector (casesBefore ++ .mk caseId label (before ++ s' :: behind) :: casesBehind)) := by
  intro ctx accepted
  rcases accepted with ⟨hasSwitch, isInt, _, arms⟩
  rw [Context.acceptsCases_append_iff] at arms
  have kept := givesWay.acceptsList sameBehind arms.2.2.1
  refine ⟨⟨hasSwitch, isInt, by simp, Context.acceptsCases_append_iff.mpr
    ⟨arms.1, arms.2.1, kept.1, ?_⟩⟩, fun notVoid holds => ?_⟩
  · have same : ∀ ctx : Context, ctx.behindList (before ++ s' :: behind) =
        ctx.behindList (before ++ s :: behind) := fun ctx => by
      rw [Context.behindList_append, Context.behindList_append, Context.behindList, sameBehind]
      rfl
    rw [same]
    exact arms.2.2.2
  · rw [Stmt.holdsReturn_switch, List.flatMap_append, List.flatMap_cons, List.any_append,
      List.any_append, Bool.or_eq_true, Bool.or_eq_true] at holds ⊢
    exact holds.imp_right (Or.imp_left (kept.2 notVoid))

end GivesWay

section

variable {f : Function} {s s' : Stmt} {id scope : NodeId}

theorem behind_eq_of_inside (promotes : Promotes t kept dropped)
    (inside : Stmt.Inside (Stmt.Swap t (.block id scope (bodyStmts kept))) s s') (ctx : Context) :
    ctx.behind s' = ctx.behind s := by
  cases inside with
  | here changed =>
      rcases changed with ⟨rfl, rfl⟩
      cases promotes <;> rfl
  | _ => rfl

theorem bindings_behind_eq_of_inside (promotes : Promotes t kept dropped)
    (inside : Stmt.Inside (Stmt.Swap t (.block id scope (bodyStmts kept))) s s')
    (bindings : Bindings) : bindings.behind s' = bindings.behind s := by
  cases inside with
  | here changed =>
      rcases changed with ⟨rfl, rfl⟩
      cases promotes <;> rfl
  | _ => rfl

theorem referencesOfList_member_subset {before behind : List Stmt}
    (fewer : ∀ bindings, s'.references bindings ⊆ s.references bindings)
    (sameBehind : ∀ bindings : Bindings, bindings.behind s' = bindings.behind s)
    (bindings : Bindings) :
    Stmt.referencesOfList bindings (before ++ s' :: behind) ⊆
      Stmt.referencesOfList bindings (before ++ s :: behind) := by
  rw [Stmt.referencesOfList_append, Stmt.referencesOfList_append, Stmt.referencesOfList,
    Stmt.referencesOfList, sameBehind]
  intro r listed
  rw [List.mem_append, List.mem_append] at listed ⊢
  exact listed.imp_right (Or.imp_left (fewer _ ·))

/-- What initialises a loop has no body to promote. -/
theorem not_inside_of_isLoopInit (promotes : Promotes t kept dropped) {t' : Stmt}
    (isInit : s.isLoopInit = true) : ¬ Stmt.Inside (Stmt.Swap t t') s s' := by
  intro inside
  cases inside with
  | here changed =>
      rw [changed.1, promotes.isLoopInit_eq_false] at isInit
      cases isInit
  | _ => cases isInit

/-- A body may be promoted anywhere within a statement, as long as it declares nothing that
the header of a `for` loop declares whose body the statement is. -/
theorem Promotes.givesWay_of_inside (promotes : Promotes t kept dropped)
    (keepsReturn : dropped.any (holdsRequiredReturn f) = false)
    (inside : Stmt.Inside (Stmt.Swap t (.block id scope (bodyStmts kept))) s s')
    (apart : ∀ id init cond step, Stmt.forLoop id init cond step t ∈ s.substmts →
      ∀ name ∈ Stmt.declaredBy (bodyStmts kept), name ∉ Stmt.declaredBy init.toList) :
    GivesWay f s s' ∧ ∀ ctx : Context,
      (s = t → ∀ name ∈ Stmt.declaredBy (bodyStmts kept), ctx.inner.lookup name = none) →
        ctx.AcceptsBody s → ctx.AcceptsBody s' ∧
          (f.returnTy ≠ .void → s.holdsReturn = true → s'.holdsReturn = true) := by
  -- Acceptance as the body of a loop is another question for blocks alone, which share the
  -- scope of the header, so the two questions go through the induction side by side.
  induction inside with
  | here changed =>
      rcases changed with ⟨rfl, rfl⟩
      have returns : ∀ {ctx : Context}, ctx.Accepts _ → f.returnTy ≠ .void → _ :=
        fun accepted notVoid holds => (Stmt.holdsReturn_block id scope _).trans
          (promotes.any_holdsReturn keepsReturn notVoid accepted holds)
      exact ⟨fun ctx accepted => ⟨promotes.acceptsList_opened accepted, returns accepted⟩,
        fun ctx free accepted => ⟨promotes.acceptsList_of_acceptsBody accepted (free rfl),
          returns (promotes.acceptsBody_iff.mp accepted)⟩⟩
  | @block blockId blockScope before s s' behind inner inductionHypothesis =>
      have givesWay := (inductionHypothesis fun id init cond step isPart => apart id init cond step
        (List.mem_cons_of_mem _ (by
          rw [Stmt.substmtsOfList_eq_flatMap]
          exact List.mem_flatMap.mpr ⟨s, List.mem_append_cons_self, isPart⟩))).1
      unfold GivesWay
      rw [Stmt.holdsReturn_block, Stmt.holdsReturn_block]
      have inList : ∀ ctx : Context, ctx.AcceptsList (before ++ s :: behind) → _ := fun _ accepted =>
        givesWay.acceptsList (behind_eq_of_inside promotes inner) accepted
      exact ⟨fun ctx accepted => inList ctx.opened accepted, fun ctx _ accepted => inList ctx accepted⟩
  | branchTrue _ inductionHypothesis =>
      have givesWay := (inductionHypothesis fun id init cond step isPart => apart id init cond step
        (List.mem_cons_of_mem _ (List.mem_append_left _ isPart))).1
      exact ⟨givesWay.branchTrue, fun ctx _ accepted => givesWay.branchTrue ctx.opened accepted⟩
  | branchFalse _ inductionHypothesis =>
      have givesWay := (inductionHypothesis fun id init cond step isPart => apart id init cond step
        (List.mem_cons_of_mem _ (List.mem_append_right _ isPart))).1
      exact ⟨givesWay.branchFalse, fun ctx _ accepted => givesWay.branchFalse ctx.opened accepted⟩
  | @forInit loopId init init' cond step body inner =>
      have never : ∀ ctx : Context, ¬ ctx.Accepts (.forLoop loopId (some init) cond step body) :=
        fun ctx accepted => not_inside_of_isLoopInit promotes
          ((Context.accepts_forLoop_iff.mp accepted).1 init rfl) inner
      exact ⟨fun ctx accepted => absurd accepted (never ctx),
        fun ctx _ accepted => absurd accepted (never ctx.opened)⟩
  | @forBody loopId init cond step body body' _ inductionHypothesis =>
      have inBody := (inductionHypothesis fun id init cond step isPart => apart id init cond step
        (List.mem_cons_of_mem _ (List.mem_append_right _ isPart))).2
      have givesWay : GivesWay f (.forLoop loopId init cond step body)
          (.forLoop loopId init cond step body') := by
        intro ctx accepted
        rw [Context.accepts_forLoop_iff] at accepted
        have kept := inBody (ctx.header init).inLoop (fun isBody name declared =>
          lookup_inner_header ctx (apart loopId init cond step
            (isBody ▸ Stmt.self_mem_substmts _) name declared)) accepted.2.2.2.2
        refine ⟨Context.accepts_forLoop_iff.mpr ⟨accepted.1, accepted.2.1, accepted.2.2.1,
          accepted.2.2.2.1, kept.1⟩, fun notVoid holds => ?_⟩
        rw [Stmt.holdsReturn_forLoop, Bool.or_eq_true] at holds ⊢
        exact holds.imp_right (kept.2 notVoid)
      exact ⟨givesWay, fun ctx _ accepted => givesWay ctx.opened accepted⟩
  | whileBody _ inductionHypothesis =>
      have givesWay := (inductionHypothesis fun id init cond step isPart => apart id init cond step
        (List.mem_cons_of_mem _ isPart)).1
      exact ⟨givesWay.whileBody, fun ctx _ accepted => givesWay.whileBody ctx.opened accepted⟩
  | @case _ _ casesBefore caseId label before s _ behind casesBehind inner inductionHypothesis =>
      have givesWay := (inductionHypothesis fun id init cond step isPart => apart id init cond step
        (List.mem_cons_of_mem _ (by
          rw [Stmt.substmtsOfCases_eq_flatMap]
          exact List.mem_flatMap.mpr ⟨.mk caseId label (before ++ s :: behind),
            List.mem_append_cons_self, List.mem_flatMap.mpr ⟨s, List.mem_append_cons_self, isPart⟩⟩))).1
      have sameBehind := behind_eq_of_inside promotes inner
      exact ⟨givesWay.case sameBehind,
        fun ctx _ accepted => givesWay.case sameBehind ctx.opened accepted⟩

/-- What is referred to in a body means the same when the body is promoted. -/
theorem Promotes.references_subset_of_inside (promotes : Promotes t kept dropped)
    (inside : Stmt.Inside (Stmt.Swap t (.block id scope (bodyStmts kept))) s s')
    (bindings : Bindings) : s'.references bindings ⊆ s.references bindings := by
  induction inside generalizing bindings with
  | here changed =>
      rcases changed with ⟨rfl, rfl⟩
      exact promotes.references_subset bindings
  | block inner inductionHypothesis =>
      exact referencesOfList_member_subset inductionHypothesis
        (bindings_behind_eq_of_inside promotes inner) bindings
  | branchTrue _ inductionHypothesis =>
      intro r listed
      rw [Stmt.references, List.mem_append, List.mem_append] at listed ⊢
      exact listed.imp_right (Or.imp_left (inductionHypothesis bindings ·))
  | branchFalse _ inductionHypothesis =>
      intro r listed
      rw [Stmt.references, List.mem_append, List.mem_append] at listed ⊢
      exact listed.imp_right (Or.imp_right (inductionHypothesis bindings ·))
  | @forInit _ init init' _ _ _ inner inductionHypothesis =>
      have same : bindings.header (some init') = bindings.header (some init) :=
        bindings_behind_eq_of_inside promotes inner bindings
      intro r listed
      rw [Stmt.references, List.mem_append] at listed ⊢
      rw [same] at listed
      exact listed.imp_left (inductionHypothesis bindings ·)
  | forBody _ inductionHypothesis =>
      intro r listed
      rw [Stmt.references, List.mem_append, List.mem_append, List.mem_append] at listed ⊢
      exact listed.imp_right (Or.imp_right (Or.imp_right (inductionHypothesis _ ·)))
  | whileBody _ inductionHypothesis =>
      intro r listed
      rw [Stmt.references, List.mem_append] at listed ⊢
      exact listed.imp_right (inductionHypothesis bindings ·)
  | case inner inductionHypothesis =>
      have sameBehind := bindings_behind_eq_of_inside promotes inner
      intro r listed
      rw [Stmt.references, Stmt.referencesOfCases_append, Stmt.referencesOfCases, List.mem_append,
        List.mem_append, List.mem_append] at listed ⊢
      rw [Bindings.behindList_append, Bindings.behindList, sameBehind] at listed
      rw [Bindings.behindList_append, Bindings.behindList]
      exact listed.imp_right (Or.imp_right (Or.imp_left
        (referencesOfList_member_subset inductionHypothesis sameBehind _ ·)))

end

/-- The statement does not stand directly in the body of a `for` loop, or the body that would
take its place declares nothing that the header declares. -/
def KeepsApart (edit : BodyPromotion) : Stmt → Prop
  | .forLoop _ init _ _ body =>
      body.id = edit.stmt → ∀ kept ∈ bodyIn? edit.part body,
        ∀ name ∈ Stmt.declaredBy (bodyStmts kept), name ∉ Stmt.declaredBy init.toList
  | _ => True

instance (edit : BodyPromotion) : DecidablePred edit.KeepsApart
  | .forLoop _ init _ _ body =>
      inferInstanceAs (Decidable (body.id = edit.stmt → ∀ kept ∈ bodyIn? edit.part body,
        ∀ name ∈ Stmt.declaredBy (bodyStmts kept), name ∉ Stmt.declaredBy init.toList))
  | .decl .. | .expr .. | .block .. | .branch .. | .whileLoop .. | .switch .. | .ret ..
  | .breakOut .. | .continueLoop .. | .discard .. | .empty .. => .isTrue trivial

theorem exists_of_mem_ofStmt {everywhere : Bool} {f : Function} {edit : BodyPromotion}
    (listed : edit ∈ ofStmt everywhere f t) : t.id = edit.stmt ∧ edit.part ∈ replacingParts f t := by
  unfold ofStmt at listed
  split at listed
  · rcases List.mem_map.mp listed with ⟨part, isPart, rfl⟩
    exact ⟨rfl, isPart⟩
  · cases listed

/-- Up to identifiers that are drawn, the edit puts a block in the place of the statement. -/
theorem exists_apply_eq {edit : BodyPromotion} {shader : Shader}
    (isFound : shader.findStmt? edit.stmt = some t) (isKept : bodyIn? edit.part t = some kept) :
    ∃ (drawn : Shader) (scope : NodeId), drawn.decls = shader.decls ∧
      edit.apply shader = (drawn.modifyStmt? edit.stmt
        fun _ => .block edit.stmt scope (bodyStmts kept)).getD drawn := by
  unfold apply
  rw [isFound, Option.bind_some, isKept]
  cases kept with
  | block id scope stmts => exact ⟨shader, scope, rfl, rfl⟩
  | _ => exact ⟨shader.freshId.2, shader.nextId, rfl, rfl⟩

end BodyPromotion

variable {shader : Shader} {version : Version}

/-- A promotion that is found leaves a valid shader valid, and every reference that remains
means the variable that it meant before, as long as no declaration gets into the scope of a
header that declares its name. -/
theorem isValid_apply_of_compoundToBlock (valid : shader.IsValid version)
    (below : ∀ id ∈ shader.ids, id < shader.nextId) {everywhere : Bool} {edits : List Edit}
    (found : Kind.find .compoundToBlock ⟨version, everywhere⟩ shader = .ok edits)
    {edit : BodyPromotion} (listed : .compoundToBlock edit ∈ edits)
    (apart : ∀ s ∈ shader.stmts, edit.KeepsApart s) :
    (edit.apply shader).IsValid version ∧ (edit.apply shader).references ⊆ shader.references := by
  rcases Shader.isValid_iff.mp valid with ⟨distinct, follows⟩
  have numbered := edit.isNumbered_apply ⟨distinct, below⟩
  cases found
  rcases List.mem_map.mp listed with ⟨_, isFound, isEdit⟩
  cases isEdit
  rcases List.mem_flatMap.mp isFound with ⟨g, isFunction, isFound⟩
  rcases List.mem_flatMap.mp isFound with ⟨t, isStmt, isFound⟩
  rcases BodyPromotion.exists_of_mem_ofStmt isFound with ⟨isTarget, isPart⟩
  rcases BodyPromotion.exists_promotes isPart with ⟨kept, dropped, isKept, promotes, keepsReturn⟩
  have isListed := Shader.mem_stmts_of_mem_functions isFunction isStmt
  have isFound : shader.findStmt? edit.stmt = some t := isTarget ▸ Shader.findStmt?_id distinct isListed
  rcases BodyPromotion.exists_apply_eq isFound isKept with ⟨drawn, scope, sameDecls, applied⟩
  rw [Shader.isValid_iff, and_assoc]
  refine ⟨numbered.1, ?_⟩
  rw [applied]
  cases isModified : drawn.modifyStmt? edit.stmt
      (fun _ => .block edit.stmt scope (Unwrapping.bodyStmts kept)) with
  | none =>
      rw [Option.getD_none, Shader.references, sameDecls]
      exact ⟨Shader.followsRules_of_decls_eq sameDecls follows, List.Subset.refl _⟩
  | some edited =>
      rw [Option.getD_some]
      rw [← isTarget] at isModified
      rcases Shader.exists_swap_of_modifyStmt? distinct sameDecls isModified isListed with
        ⟨before, f, behind, inFront, s, s', after, isAt, isEdited, isBody, isInner, inside⟩
      have isFunction' : f ∈ shader.functions :=
        Shader.mem_functions_iff.mpr (isAt ▸ List.mem_append_cons_self)
      have mem_stmts : ∀ inner ∈ s.substmts, inner ∈ f.stmts := fun inner isInner => by
        rw [Function.stmts, isBody]
        exact List.mem_flatMap.mpr ⟨s, List.mem_append_cons_self, isInner⟩
      cases Shader.function_eq_of_mem_stmts distinct isFunction' isFunction (mem_stmts t isInner) isStmt
      have givesWay := (promotes.givesWay_of_inside keepsReturn inside
        fun id init cond step isLoop =>
          apart _ (Shader.mem_stmts_of_mem_functions isFunction' (mem_stmts _ isLoop)) isTarget
            kept isKept).1
      have accepted := Shader.acceptsList_body follows isAt
      rw [isBody] at accepted
      have keeps := givesWay.acceptsList (BodyPromotion.behind_eq_of_inside promotes inside) accepted
      rw [← isBody] at keeps
      refine ⟨Shader.followsRules_withStmts follows isAt isEdited (by simp) keeps.1 keeps.2,
        Shader.references_withStmts_subset isAt isEdited fun bindings => ?_⟩
      rw [isBody]
      exact BodyPromotion.referencesOfList_member_subset
        (promotes.references_subset_of_inside inside)
        (BodyPromotion.bindings_behind_eq_of_inside promotes inside) bindings

/-- The shader `void main() { for (int i = 0; i < 3; i++) if (i < 2) { int <name> = i; } }`. -/
def guarded (name : String) : Shader :=
  .ofDecls .essl100 [.function ⟨.unnumbered, .void, "main", [], ⟨.unnumbered,
    [.forLoop .unnumbered
      (some (.decl .unnumbered ⟨.unnumbered, none, .int, "i", some (.int .unnumbered 0)⟩))
      (some (.binary .unnumbered .lt (.var .unnumbered "i") (.int .unnumbered 3)))
      (some (.unary .unnumbered .postIncrement (.var .unnumbered "i")))
      (.branch .unnumbered (.binary .unnumbered .lt (.var .unnumbered "i") (.int .unnumbered 2))
        (.block .unnumbered .unnumbered
          [.decl .unnumbered ⟨.unnumbered, none, .int, name, some (.var .unnumbered "i")⟩])
        none)]⟩⟩]

/-- The condition goes away, and its body becomes the body of the loop. -/
theorem isValid_apply_guarded :
    (guarded "j").IsValid .essl100 ∧
      Kind.find .compoundToBlock ⟨.essl100, true⟩ (guarded "j") =
        .ok [.compoundToBlock ⟨11, .whenTrue, "if"⟩] ∧
      (BodyPromotion.apply ⟨11, .whenTrue, "if"⟩ (guarded "j")).IsValid .essl100 ∧
      (BodyPromotion.apply ⟨11, .whenTrue, "if"⟩ (guarded "j")).references ⊆
        (guarded "j").references := by
  have valid : (guarded "j").IsValid .essl100 := by decide
  have found : Kind.find .compoundToBlock ⟨.essl100, true⟩ (guarded "j") =
      .ok [.compoundToBlock ⟨11, .whenTrue, "if"⟩] := by rfl
  have below : ∀ id ∈ (guarded "j").ids, id < (guarded "j").nextId := by decide
  have apart : ∀ s ∈ (guarded "j").stmts,
      BodyPromotion.KeepsApart ⟨11, .whenTrue, "if"⟩ s := by decide
  exact ⟨valid, found, isValid_apply_of_compoundToBlock valid below found List.mem_cons_self apart⟩

/-- A body that declares the name of the header may stand in a condition but not in its
place, where the loop would declare the name twice. -/
theorem not_isValid_apply_guarded :
    (guarded "i").IsValid .essl100 ∧
      (∀ id ∈ (guarded "i").ids, id < (guarded "i").nextId) ∧
      Kind.find .compoundToBlock ⟨.essl100, true⟩ (guarded "i") =
        .ok [.compoundToBlock ⟨11, .whenTrue, "if"⟩] ∧
      ¬ ((Edit.compoundToBlock ⟨11, .whenTrue, "if"⟩).apply (guarded "i")).IsValid .essl100 :=
  ⟨by decide, by decide, by rfl, by decide⟩

end Reduction
end Whittle
