import Whittle.Proofs.RoundTrip.Printable
import Whittle.Proofs.Syntax.Alike
import Whittle.Proofs.Syntax.Slot

namespace Whittle

/-!
# What can be written is a matter of shape

Whether a statement can be written depends on its shape and on whether its expressions can.
So a statement of the same shape with other expressions can be written as well, and so can
whatever stands in a statement that can.
-/

namespace Stmt

variable {fits : Expr → Bool}

theorem isPrintableList_iff {stmts : List Stmt} :
    isPrintableList fits stmts = true ↔ ∀ s ∈ stmts, s.isPrintable fits = true := by
  induction stmts with
  | nil => exact iff_of_true rfl (List.forall_mem_nil _)
  | cons s rest inductionHypothesis =>
      rw [isPrintableList, Bool.and_eq_true, inductionHypothesis, List.forall_mem_cons]

theorem isPrintableCases_iff {cases : List Case} :
    isPrintableCases fits cases = true ↔
      ∀ one ∈ cases, one.label.isPrintable = true ∧ isPrintableList fits one.body = true := by
  induction cases with
  | nil => exact iff_of_true rfl (List.forall_mem_nil _)
  | cons one rest inductionHypothesis =>
      cases one with
      | mk id label body =>
          rw [isPrintableCases, Bool.and_eq_true, Bool.and_eq_true, inductionHypothesis,
            List.forall_mem_cons]
          rfl

/-- What may stand in the header of a loop may stand anywhere. -/
theorem isPrintable_of_isPrintableInit {s : Stmt}
    (printable : isPrintableInit fits (some s) = true) :
    s.isPrintable fits = true ∧ s.endsOpen = false := by
  cases s with
  | decl | expr =>
      rw [isPrintableInit] at printable
      exact ⟨by rwa [isPrintable], rfl⟩
  | _ => cases printable

end Stmt

/-- Expressions related to ones that can be written can be written. -/
def CarriesOver (R : Expr → Expr → Prop) (fits fits' : Expr → Bool) : Prop :=
  ∀ ⦃e e' : Expr⦄, R e e' → fits e = true → fits' e' = true

section

variable {fits fits' : Expr → Bool} {R : Expr → Expr → Prop}

theorem CarriesOver.all_option (carries : CarriesOver R fits fits') {e? e?' : Option Expr}
    (related : Option.Rel R e? e?') (fit : e?.all fits = true) : e?'.all fits' = true := by
  cases related with
  | none => rfl
  | some related => exact carries related fit

theorem VarDecl.Alike.isPrintableLocal (carries : CarriesOver R fits fits')
    {var var' : VarDecl} (alike : var.Alike R var') (printable : var.isPrintableLocal fits = true) :
    var'.isPrintableLocal fits' = true := by
  simp only [VarDecl.isPrintableLocal, VarDecl.isPrintable, Bool.and_eq_true, alike.ty, alike.name,
    alike.qualifier] at printable ⊢
  exact ⟨⟨printable.1.1, carries.all_option alike.init printable.1.2⟩, printable.2⟩

theorem Stmt.isPrintableInit_of_rel (carries : CarriesOver R fits fits')
    {init init' : Option Stmt} (related : Option.Rel (Stmt.Alike R) init init')
    (printable : isPrintableInit fits init = true) :
    isPrintableInit fits' init' = true := by
  cases related with
  | none => rfl
  | some alike =>
      cases alike with
      | decl declared => exact declared.isPrintableLocal carries printable
      | expr evaluated => exact carries evaluated printable
      | _ => cases printable

theorem Stmt.Alike.endsOpen_eq {s s' : Stmt} (alike : s.Alike R s') : s'.endsOpen = s.endsOpen := by
  cases alike with
  | branch tested first second =>
      cases second with
      | none => rfl
      | some second => exact second.endsOpen_eq
  | forLoop before tested behind within => exact within.endsOpen_eq
  | whileLoop tested within => exact within.endsOpen_eq
  | _ => rfl

mutual

/-- A statement can be written if one of its shape can, whose expressions can. -/
theorem Stmt.Alike.isPrintable (carries : CarriesOver R fits fits') {s s' : Stmt}
    (alike : s.Alike R s') (printable : s.isPrintable fits = true) :
    s'.isPrintable fits' = true := by
  cases alike with
  | decl declared =>
      rw [Stmt.isPrintable] at printable ⊢
      exact declared.isPrintableLocal carries printable
  | expr evaluated =>
      rw [Stmt.isPrintable] at printable ⊢
      exact carries evaluated printable
  | block within =>
      rw [Stmt.isPrintable] at printable ⊢
      exact Stmt.isPrintableList_of_alike carries within printable
  | branch tested first second =>
      cases second with
      | none =>
          rw [Stmt.isPrintable, Bool.and_eq_true] at printable ⊢
          exact ⟨carries tested printable.1, first.isPrintable carries printable.2⟩
      | some second =>
          simp only [Stmt.isPrintable, Bool.and_eq_true, Bool.not_eq_true'] at printable ⊢
          exact ⟨⟨⟨carries tested printable.1.1.1, first.isPrintable carries printable.1.1.2⟩,
            second.isPrintable carries printable.1.2⟩, first.endsOpen_eq.trans printable.2⟩
  | forLoop before tested behind within =>
      simp only [Stmt.isPrintable, Bool.and_eq_true] at printable ⊢
      exact ⟨⟨⟨Stmt.isPrintableInit_of_rel carries before printable.1.1.1,
        carries.all_option tested printable.1.1.2⟩, carries.all_option behind printable.1.2⟩,
        within.isPrintable carries printable.2⟩
  | whileLoop tested within =>
      rw [Stmt.isPrintable, Bool.and_eq_true] at printable ⊢
      exact ⟨carries tested printable.1, within.isPrintable carries printable.2⟩
  | switch selected within =>
      rw [Stmt.isPrintable, Bool.and_eq_true] at printable ⊢
      exact ⟨carries selected printable.1, Stmt.isPrintableCases_of_alike carries within printable.2⟩
  | ret returned =>
      rw [Stmt.isPrintable] at printable ⊢
      exact carries.all_option returned printable
  | breakOut | continueLoop | discard | empty => rfl

theorem Stmt.isPrintableList_of_alike (carries : CarriesOver R fits fits')
    {stmts stmts' : List Stmt} (alike : List.Forall₂ (Stmt.Alike R) stmts stmts')
    (printable : isPrintableList fits stmts = true) : isPrintableList fits' stmts' = true := by
  cases alike with
  | nil => rfl
  | cons first behind =>
      rw [isPrintableList, Bool.and_eq_true] at printable ⊢
      exact ⟨first.isPrintable carries printable.1, isPrintableList_of_alike carries behind printable.2⟩

theorem Stmt.isPrintableCases_of_alike (carries : CarriesOver R fits fits')
    {cases cases' : List Case} (alike : List.Forall₂ (Case.Alike R) cases cases')
    (printable : isPrintableCases fits cases = true) : isPrintableCases fits' cases' = true := by
  cases alike with
  | nil => rfl
  | cons first behind =>
      cases first with
      | mk within =>
          simp only [isPrintableCases, Bool.and_eq_true] at printable ⊢
          exact ⟨⟨printable.1.1, isPrintableList_of_alike carries within printable.1.2⟩,
            isPrintableCases_of_alike carries behind printable.2⟩

end

end

section

variable {fits : Expr → Bool} {run : List Stmt}

mutual

theorem Slot.isPrintableList_of_fill {slot : Slot}
    (printable : Stmt.isPrintableList fits (slot.fill run) = true) :
    Stmt.isPrintableList fits run = true := by
  cases slot with
  | here before behind =>
      rw [Stmt.isPrintableList_iff] at printable ⊢
      exact fun s listed => printable s
        (List.mem_append_right _ (List.mem_append_left _ listed))
  | within before inner behind =>
      rw [Stmt.isPrintableList_iff] at printable
      exact StmtSlot.isPrintableList_of_fill
        (printable _ (List.mem_append_right _ List.mem_cons_self))

theorem StmtSlot.isPrintableList_of_fill {slot : StmtSlot}
    (printable : (slot.fill run).isPrintable fits = true) :
    Stmt.isPrintableList fits run = true := by
  cases slot with
  | block id scope inner =>
      rw [StmtSlot.fill, Stmt.isPrintable] at printable
      exact Slot.isPrintableList_of_fill printable
  | branchTrue id cond inner whenFalse =>
      cases whenFalse <;> simp only [StmtSlot.fill, Stmt.isPrintable, Bool.and_eq_true] at printable
      · exact StmtSlot.isPrintableList_of_fill printable.2
      · exact StmtSlot.isPrintableList_of_fill printable.1.1.2
  | branchFalse id cond whenTrue inner =>
      simp only [StmtSlot.fill, Stmt.isPrintable, Bool.and_eq_true] at printable
      exact StmtSlot.isPrintableList_of_fill printable.1.2
  | forBody id init cond step inner =>
      simp only [StmtSlot.fill, Stmt.isPrintable, Bool.and_eq_true] at printable
      exact StmtSlot.isPrintableList_of_fill printable.2
  | whileBody id cond inner =>
      simp only [StmtSlot.fill, Stmt.isPrintable, Bool.and_eq_true] at printable
      exact StmtSlot.isPrintableList_of_fill printable.2
  | case id selector before caseId label inner behind =>
      rw [StmtSlot.fill, Stmt.isPrintable, Bool.and_eq_true, Stmt.isPrintableCases_iff] at printable
      exact Slot.isPrintableList_of_fill
        (printable.2 _ (List.mem_append_right _ List.mem_cons_self)).2

end

end

end Whittle
