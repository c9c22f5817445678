import Whittle.Proofs.Syntax.Inside
import Whittle.Proofs.Identifiers.Exchange

namespace Whittle

/-!
# Places in lists of statements

Edits of statements put a run of statements in the place of one that stands in a
list.  A place is a tree with a hole in one of its lists, so the shader before
the edit and the one behind it are the same place filled with two different
runs.  What does not look at the run is a matter of the place alone.
-/

mutual

/-- A place in a list of statements, or in a list within one of its members. -/
inductive Slot where
  | here (before behind : List Stmt)
  | within (before : List Stmt) (inner : StmtSlot) (behind : List Stmt)

/-- A place in a list within a statement. -/
inductive StmtSlot where
  | block (id scope : NodeId) (inner : Slot)
  | branchTrue (id : NodeId) (cond : Expr) (inner : StmtSlot) (whenFalse : Option Stmt)
  | branchFalse (id : NodeId) (cond : Expr) (whenTrue : Stmt) (inner : StmtSlot)
  | forBody (id : NodeId) (init : Option Stmt) (cond step : Option Expr) (inner : StmtSlot)
  | whileBody (id : NodeId) (cond : Expr) (inner : StmtSlot)
  | case (id : NodeId) (selector : Expr) (casesBefore : List Case) (caseId : NodeId)
      (label : Label) (inner : Slot) (casesBehind : List Case)

end

mutual

def Slot.fill (run : List Stmt) : Slot → List Stmt
  | .here before behind => before ++ (run ++ behind)
  | .within before inner behind => before ++ inner.fill run :: behind

def StmtSlot.fill (run : List Stmt) : StmtSlot → Stmt
  | .block id scope inner => .block id scope (inner.fill run)
  | .branchTrue id cond inner whenFalse => .branch id cond (inner.fill run) whenFalse
  | .branchFalse id cond whenTrue inner => .branch id cond whenTrue (some (inner.fill run))
  | .forBody id init cond step inner => .forLoop id init cond step (inner.fill run)
  | .whileBody id cond inner => .whileLoop id cond (inner.fill run)
  | .case id selector before caseId label inner behind =>
      .switch id selector (before ++ .mk caseId label (inner.fill run) :: behind)

end

mutual

/-- The place between two runs of statements at a place. -/
def Slot.between (front back : List Stmt) : Slot → Slot
  | .here before behind => .here (before ++ front) (back ++ behind)
  | .within before inner behind => .within before (inner.between front back) behind

/-- The place between two runs of statements at a place within a statement. -/
def StmtSlot.between (front back : List Stmt) : StmtSlot → StmtSlot
  | .block id scope inner => .block id scope (inner.between front back)
  | .branchTrue id cond inner whenFalse => .branchTrue id cond (inner.between front back) whenFalse
  | .branchFalse id cond whenTrue inner => .branchFalse id cond whenTrue (inner.between front back)
  | .forBody id init cond step inner => .forBody id init cond step (inner.between front back)
  | .whileBody id cond inner => .whileBody id cond (inner.between front back)
  | .case id selector before caseId label inner behind =>
      .case id selector before caseId label (inner.between front back) behind

end

mutual

theorem Slot.fill_between (front run back : List Stmt) (slot : Slot) :
    (slot.between front back).fill run = slot.fill (front ++ (run ++ back)) := by
  cases slot with
  | here before behind => simp only [Slot.between, Slot.fill, List.append_assoc]
  | within before inner behind =>
      rw [Slot.between, Slot.fill, Slot.fill, inner.fill_between front run back]

theorem StmtSlot.fill_between (front run back : List Stmt) (slot : StmtSlot) :
    (slot.between front back).fill run = slot.fill (front ++ (run ++ back)) := by
  cases slot with
  | block _ _ inner | case _ _ _ _ _ inner _ =>
      rw [StmtSlot.between, StmtSlot.fill, StmtSlot.fill, inner.fill_between front run back]
  | branchTrue _ _ inner _ | branchFalse _ _ _ inner | forBody _ _ _ _ inner | whileBody _ _ inner =>
      rw [StmtSlot.between, StmtSlot.fill, StmtSlot.fill, inner.fill_between front run back]

end

theorem Slot.fill_here (stmts : List Stmt) : (Slot.here [] []).fill stmts = stmts := by
  rw [Slot.fill, List.nil_append, List.append_nil]

mutual

theorem Stmt.exists_fill_of_mem_lists {s : Stmt} {stmts : List Stmt} (isList : stmts ∈ s.lists) :
    ∃ slot : StmtSlot, s = slot.fill stmts := by
  cases s with
  | block id scope body =>
      rcases List.mem_cons.mp isList with rfl | isWithin
      · exact ⟨.block id scope (.here [] []), by rw [StmtSlot.fill, Slot.fill_here]⟩
      · rcases exists_fill_of_mem_listsWithin isWithin with ⟨before, inner, behind, rfl⟩
        exact ⟨.block id scope (.within before inner behind), rfl⟩
  | branch id cond whenTrue whenFalse =>
      rcases List.mem_append.mp isList with inTrue | inFalse
      · rcases exists_fill_of_mem_lists inTrue with ⟨inner, rfl⟩
        exact ⟨.branchTrue id cond inner whenFalse, rfl⟩
      · cases whenFalse with
        | none => cases inFalse
        | some s =>
            rcases exists_fill_of_mem_lists (s := s) inFalse with ⟨inner, rfl⟩
            exact ⟨.branchFalse id cond whenTrue inner, rfl⟩
  | forLoop id init cond step body =>
      rcases exists_fill_of_mem_lists (s := body) isList with ⟨inner, rfl⟩
      exact ⟨.forBody id init cond step inner, rfl⟩
  | whileLoop id cond body =>
      rcases exists_fill_of_mem_lists (s := body) isList with ⟨inner, rfl⟩
      exact ⟨.whileBody id cond inner, rfl⟩
  | switch id selector cases =>
      rcases exists_fill_of_mem_listsOfCases isList with ⟨before, caseId, label, inner, behind, rfl⟩
      exact ⟨.case id selector before caseId label inner behind, rfl⟩
  | decl | expr | ret | breakOut | continueLoop | discard | empty => cases isList

theorem Stmt.exists_fill_of_mem_listsWithin {all stmts : List Stmt}
    (isList : stmts ∈ Stmt.listsWithin all) :
    ∃ before inner behind, all = (Slot.within before inner behind).fill stmts := by
  match all with
  | [] => cases isList
  | s :: rest =>
      rcases List.mem_append.mp isList with inFirst | inRest
      · rcases exists_fill_of_mem_lists inFirst with ⟨inner, rfl⟩
        exact ⟨[], inner, rest, rfl⟩
      · rcases exists_fill_of_mem_listsWithin inRest with ⟨before, inner, behind, rfl⟩
        exact ⟨s :: before, inner, behind, rfl⟩

theorem Stmt.exists_fill_of_mem_listsOfCases {cases : List Case} {stmts : List Stmt}
    (isList : stmts ∈ Stmt.listsOfCases cases) :
    ∃ before id label, ∃ inner : Slot, ∃ behind,
      cases = before ++ Case.mk id label (inner.fill stmts) :: behind := by
  match cases with
  | [] => cases isList
  | .mk id label body :: rest =>
      rcases List.mem_append.mp isList with inFirst | inRest
      · rcases List.mem_cons.mp inFirst with rfl | isWithin
        · exact ⟨[], id, label, .here [] [], rest, by rw [Slot.fill_here, List.nil_append]⟩
        · rcases exists_fill_of_mem_listsWithin isWithin with ⟨before, inner, behind, rfl⟩
          exact ⟨[], id, label, .within before inner behind, rest, rfl⟩
      · rcases exists_fill_of_mem_listsOfCases inRest with ⟨before, id', label', inner, behind, rfl⟩
        exact ⟨.mk id label body :: before, id', label', inner, behind, rfl⟩

end

/-! ## Edits at a place -/

mutual

theorem Slot.ids_subset_fill (run : List Stmt) (slot : Slot) :
    Stmt.idsOfList run ⊆ Stmt.idsOfList (slot.fill run) := by
  cases slot with
  | here before behind =>
      intro id listed
      simp only [Slot.fill, Stmt.idsOfList_append, List.mem_append]
      exact Or.inr (Or.inl listed)
  | within before inner behind =>
      intro id listed
      simp only [Slot.fill, Stmt.idsOfList_append, Stmt.idsOfList, List.mem_append]
      exact Or.inr (Or.inl (List.mem_of_mem_tail (inner.ids_subset_tail run listed)))

theorem StmtSlot.ids_subset_tail (run : List Stmt) (slot : StmtSlot) :
    Stmt.idsOfList run ⊆ (slot.fill run).ids.tail := by
  intro id listed
  cases slot with
  | block _ _ inner | case _ _ _ _ _ inner _ =>
      have := inner.ids_subset_fill run listed
      simp [StmtSlot.fill, Stmt.ids, Stmt.idsOfCases_append, Stmt.idsOfCases, this]
  | branchTrue _ _ inner _ | branchFalse _ _ _ inner | forBody _ _ _ _ inner | whileBody _ _ inner =>
      have := List.mem_of_mem_tail (inner.ids_subset_tail run listed)
      simp [StmtSlot.fill, Stmt.ids, Stmt.idsOfOption, this]

end

mutual

/-- Identifiers in a list stand around a place or in the run there. -/
theorem Slot.count_ids_fill (id : NodeId) (run : List Stmt) (slot : Slot) :
    (Stmt.idsOfList (slot.fill run)).count id =
      (Stmt.idsOfList (slot.fill [])).count id + (Stmt.idsOfList run).count id := by
  cases slot with
  | here before behind =>
      simp only [Slot.fill, Stmt.idsOfList_append, Stmt.idsOfList, List.count_append,
        List.count_nil]
      omega
  | within before inner behind =>
      simp only [Slot.fill, Stmt.idsOfList_append, Stmt.idsOfList, List.count_append,
        StmtSlot.count_ids_fill id run inner]
      omega

theorem StmtSlot.count_ids_fill (id : NodeId) (run : List Stmt) (slot : StmtSlot) :
    (slot.fill run).ids.count id =
      (slot.fill []).ids.count id + (Stmt.idsOfList run).count id := by
  cases slot with
  | block _ _ inner =>
      simp only [StmtSlot.fill, Stmt.ids, List.count_cons, Slot.count_ids_fill id run inner]
      omega
  | branchTrue _ _ inner _ | branchFalse _ _ _ inner | forBody _ _ _ _ inner | whileBody _ _ inner =>
      simp only [StmtSlot.fill, Stmt.ids, Stmt.idsOfOption, List.count_cons, List.count_append,
        StmtSlot.count_ids_fill id run inner]
      omega
  | case _ _ _ _ _ inner _ =>
      simp only [StmtSlot.fill, Stmt.ids, Stmt.idsOfCases_append, Stmt.idsOfCases, List.count_cons,
        List.count_append, Slot.count_ids_fill id run inner]
      omega

end

theorem StmtSlot.ids_subset_fill (run : List Stmt) (slot : StmtSlot) :
    Stmt.idsOfList run ⊆ (slot.fill run).ids :=
  fun _ listed => List.mem_of_mem_tail (slot.ids_subset_tail run listed)

theorem Stmt.changedOr_of_ne {s : Stmt} {target : NodeId} (differ : s.id ≠ target)
    (change : Stmt → Stmt) (inside : Option Stmt) : s.changedOr target change inside = inside := by
  rw [changedOr, if_neg (by simpa using differ)]

/-- Where identifiers do not repeat, a statement around a place has another
identifier than what stands at the place. -/
theorem StmtSlot.id_fill_ne {t : Stmt} {slot : StmtSlot} (distinct : (slot.fill [t]).ids.Nodup) :
    (slot.fill [t]).id ≠ t.id := by
  have ofT : t.id ∈ Stmt.idsOfList [t] := by simp [Stmt.idsOfList, t.id_mem_ids]
  have within := slot.ids_subset_tail [t] ofT
  have split : (slot.fill [t]).ids = (slot.fill [t]).id :: (slot.fill [t]).ids.tail := by
    cases slot.fill [t] <;> rfl
  rw [split, List.nodup_cons] at distinct
  exact fun same => distinct.1 (same ▸ within)

theorem Stmt.modify?_eq_none {target : NodeId} {change : Stmt → Stmt} {s : Stmt}
    (absent : target ∉ s.ids) : s.modify? target change = none := by
  cases found : s.modify? target change with
  | none => rfl
  | some s' =>
      rcases (inside_of_modify? found).exchange with ⟨part, _, changed, isPart, _⟩
      have listed := isPart part part.self_mem_substmts
      exact absurd ((map_id_substmts_sublist s).subset (List.mem_map_of_mem listed))
        (changed.1 ▸ absent)

theorem Stmt.splice?_eq_none {target : NodeId} {replacement : List Stmt} {s : Stmt}
    (absent : target ∉ s.ids) : s.splice? target replacement = none := by
  cases found : s.splice? target replacement with
  | none => rfl
  | some s' =>
      rcases (inside_of_splice? found).exchange with ⟨part, _, changed, isPart, _⟩
      rcases changed.exchange with ⟨_, _, spliced, members, _⟩
      rcases spliced.exchange with ⟨member, same, isMember, _⟩
      have listed := isPart member (members member isMember)
      exact absurd ((map_id_substmts_sublist s).subset (List.mem_map_of_mem listed))
        (same ▸ absent)

/-- A change passes over statements that do not have the identifier. -/
theorem Stmt.modifyList?_append {target : NodeId} {change : Stmt → Stmt} {before : List Stmt}
    (absent : target ∉ Stmt.idsOfList before) (rest : List Stmt) :
    Stmt.modifyList? target change (before ++ rest) =
      (Stmt.modifyList? target change rest).map (before ++ ·) := by
  induction before with
  | nil => simp
  | cons s before inductionHypothesis =>
      rw [Stmt.idsOfList, List.mem_append, not_or] at absent
      rw [List.cons_append, modifyList?, modify?_eq_none absent.1, inductionHypothesis absent.2]
      cases Stmt.modifyList? target change rest <;> rfl

theorem Stmt.spliceMember?_append {target : NodeId} {replacement before : List Stmt}
    (absent : target ∉ Stmt.idsOfList before) (rest : List Stmt) :
    Stmt.spliceMember? target replacement (before ++ rest) =
      (Stmt.spliceMember? target replacement rest).map (before ++ ·) := by
  induction before with
  | nil => simp
  | cons s before inductionHypothesis =>
      rw [Stmt.idsOfList, List.mem_append, not_or] at absent
      have differ : ¬ (s.id == target) = true := fun same =>
        absent.1 (beq_iff_eq.mp same ▸ s.id_mem_ids)
      rw [List.cons_append, spliceMember?, if_neg differ, inductionHypothesis absent.2]
      cases Stmt.spliceMember? target replacement rest <;> rfl

theorem Stmt.spliceWithin?_append {target : NodeId} {replacement before : List Stmt}
    (absent : target ∉ Stmt.idsOfList before) (rest : List Stmt) :
    Stmt.spliceWithin? target replacement (before ++ rest) =
      (Stmt.spliceWithin? target replacement rest).map (before ++ ·) := by
  induction before with
  | nil => simp
  | cons s before inductionHypothesis =>
      rw [Stmt.idsOfList, List.mem_append, not_or] at absent
      rw [List.cons_append, spliceWithin?, splice?_eq_none absent.1, inductionHypothesis absent.2]
      cases Stmt.spliceWithin? target replacement rest <;> rfl

theorem Stmt.modifyOption?_eq_none {target : NodeId} {change : Stmt → Stmt} {s? : Option Stmt}
    (absent : target ∉ Stmt.idsOfOption s?) : Stmt.modifyOption? target change s? = none := by
  cases s? with
  | none => rfl
  | some s => rw [modifyOption?, modify?_eq_none absent]; rfl

theorem Stmt.modifyList?_eq_none {target : NodeId} {change : Stmt → Stmt} {stmts : List Stmt}
    (absent : target ∉ Stmt.idsOfList stmts) : Stmt.modifyList? target change stmts = none := by
  have := @modifyList?_append target change stmts absent []
  rw [List.append_nil] at this
  rw [this]
  rfl

theorem Stmt.modifyCases?_append {target : NodeId} {change : Stmt → Stmt} {before : List Case}
    (absent : target ∉ Stmt.idsOfCases before) (rest : List Case) :
    Stmt.modifyCases? target change (before ++ rest) =
      (Stmt.modifyCases? target change rest).map (before ++ ·) := by
  induction before with
  | nil => simp
  | cons one before inductionHypothesis =>
      cases one with
      | mk id label body =>
          simp only [Stmt.idsOfCases, List.mem_cons, List.mem_append, not_or] at absent
          rw [List.cons_append, modifyCases?, modifyList?_eq_none absent.2.1,
            inductionHypothesis absent.2.2]
          cases Stmt.modifyCases? target change rest <;> rfl

theorem Stmt.spliceWithin?_eq_none {target : NodeId} {replacement stmts : List Stmt}
    (absent : target ∉ Stmt.idsOfList stmts) :
    Stmt.spliceWithin? target replacement stmts = none := by
  have := @spliceWithin?_append target replacement stmts absent []
  rw [List.append_nil] at this
  rw [this]
  rfl

theorem Stmt.spliceList?_eq_none {target : NodeId} {replacement stmts : List Stmt}
    (absent : target ∉ Stmt.idsOfList stmts) :
    Stmt.spliceList? target replacement stmts = none := by
  have := @spliceMember?_append target replacement stmts absent []
  rw [List.append_nil] at this
  rw [spliceList?, this, spliceWithin?_eq_none absent]
  rfl

theorem Stmt.spliceCases?_append {target : NodeId} {replacement : List Stmt} {before : List Case}
    (absent : target ∉ Stmt.idsOfCases before) (rest : List Case) :
    Stmt.spliceCases? target replacement (before ++ rest) =
      (Stmt.spliceCases? target replacement rest).map (before ++ ·) := by
  induction before with
  | nil => simp
  | cons one before inductionHypothesis =>
      cases one with
      | mk id label body =>
          simp only [Stmt.idsOfCases, List.mem_cons, List.mem_append, not_or] at absent
          have inBody := @spliceList?_eq_none target replacement body absent.2.1
          rw [spliceList?] at inBody
          rw [List.cons_append, spliceCases?, inBody, inductionHypothesis absent.2.2]
          cases Stmt.spliceCases? target replacement rest <;> rfl

mutual

/-- The statement at a place is the one that a change by its identifier reaches. -/
theorem Slot.modifyList?_fill {t : Stmt} {change : Stmt → Stmt} (slot : Slot)
    (distinct : (Stmt.idsOfList (slot.fill [t])).Nodup) :
    Stmt.modifyList? t.id change (slot.fill [t]) = some (slot.fill [change t]) := by
  have ofT : t.id ∈ Stmt.idsOfList [t] := by simp [Stmt.idsOfList, t.id_mem_ids]
  cases slot with
  | here before behind =>
      rw [Slot.fill, Stmt.idsOfList_append, List.nodup_append] at distinct
      have absent : t.id ∉ Stmt.idsOfList before := fun listed =>
        distinct.2.2 _ listed _ ((Slot.here [] behind).ids_subset_fill [t] ofT) rfl
      have found : t.modify? t.id change = some (change t) := by
        cases t <;> simp [Stmt.modify?, Stmt.changedOr, Stmt.id]
      rw [Slot.fill, Stmt.modifyList?_append absent, List.cons_append, Stmt.modifyList?, found]
      rfl
  | within before inner behind =>
      rw [Slot.fill, Stmt.idsOfList_append, List.nodup_append] at distinct
      have listed : t.id ∈ (inner.fill [t]).ids := inner.ids_subset_fill [t] ofT
      have absent : t.id ∉ Stmt.idsOfList before := fun isBefore =>
        distinct.2.2 _ isBefore _ (List.mem_append_left _ listed) rfl
      rw [Slot.fill, Stmt.modifyList?_append absent, Stmt.modifyList?,
        inner.modify?_fill (List.nodup_append.mp distinct.2.1).1]
      rfl

theorem StmtSlot.modify?_fill {t : Stmt} {change : Stmt → Stmt} (slot : StmtSlot)
    (distinct : (slot.fill [t]).ids.Nodup) :
    (slot.fill [t]).modify? t.id change = some (slot.fill [change t]) := by
  have ofT : t.id ∈ Stmt.idsOfList [t] := by simp [Stmt.idsOfList, t.id_mem_ids]
  have differ := StmtSlot.id_fill_ne distinct
  cases slot with
  | block id scope inner =>
      rw [StmtSlot.fill, Stmt.ids, List.nodup_cons, List.nodup_cons] at distinct
      rw [StmtSlot.fill] at differ ⊢
      rw [Stmt.modify?, Stmt.changedOr_of_ne differ, inner.modifyList?_fill distinct.2.2]
      rfl
  | branchTrue id cond inner whenFalse =>
      rw [StmtSlot.fill, Stmt.ids, List.nodup_cons, List.nodup_append, List.nodup_append] at distinct
      rw [StmtSlot.fill] at differ ⊢
      rw [Stmt.modify?, Stmt.changedOr_of_ne differ, inner.modify?_fill distinct.2.2.1.1]
      rfl
  | branchFalse id cond whenTrue inner =>
      rw [StmtSlot.fill, Stmt.ids, List.nodup_cons, List.nodup_append, List.nodup_append,
        Stmt.idsOfOption] at distinct
      have absent : t.id ∉ whenTrue.ids := fun isTrue =>
        distinct.2.2.1.2.2 _ isTrue _ (inner.ids_subset_fill [t] ofT) rfl
      rw [StmtSlot.fill] at differ ⊢
      rw [Stmt.modify?, Stmt.changedOr_of_ne differ, Stmt.modify?_eq_none absent,
        Stmt.modifyOption?, inner.modify?_fill distinct.2.2.1.2.1]
      rfl
  | forBody id init cond step inner =>
      rw [StmtSlot.fill, Stmt.ids, List.nodup_cons, List.nodup_append, List.nodup_append,
        List.nodup_append] at distinct
      have absent : t.id ∉ Stmt.idsOfOption init := fun isInit =>
        distinct.2.2.2 _ isInit _ (List.mem_append_right _ (List.mem_append_right _
          (inner.ids_subset_fill [t] ofT))) rfl
      rw [StmtSlot.fill] at differ ⊢
      rw [Stmt.modify?, Stmt.changedOr_of_ne differ, Stmt.modifyOption?_eq_none absent,
        inner.modify?_fill distinct.2.2.1.2.1.2.1]
      rfl
  | whileBody id cond inner =>
      rw [StmtSlot.fill, Stmt.ids, List.nodup_cons, List.nodup_append] at distinct
      rw [StmtSlot.fill] at differ ⊢
      rw [Stmt.modify?, Stmt.changedOr_of_ne differ, inner.modify?_fill distinct.2.2.1]
      rfl
  | case id selector before caseId label inner behind =>
      rw [StmtSlot.fill, Stmt.ids, Stmt.idsOfCases_append, Stmt.idsOfCases, List.nodup_cons,
        List.nodup_append, List.nodup_append, List.nodup_cons, List.nodup_append] at distinct
      have absent : t.id ∉ Stmt.idsOfCases before := fun isBefore =>
        distinct.2.2.1.2.2 _ isBefore _ (List.mem_cons_of_mem _ (List.mem_append_left _
          (inner.ids_subset_fill [t] ofT))) rfl
      rw [StmtSlot.fill] at differ ⊢
      rw [Stmt.modify?, Stmt.changedOr_of_ne differ, Stmt.modifyCases?_append absent,
        Stmt.modifyCases?, inner.modifyList?_fill distinct.2.2.1.2.1.2.1]
      rfl

end

mutual

/-- The statement at a place is the one that others are spliced in for by its
identifier. -/
theorem Slot.spliceList?_fill {t : Stmt} {run : List Stmt} (slot : Slot)
    (distinct : (Stmt.idsOfList (slot.fill [t])).Nodup) :
    Stmt.spliceList? t.id run (slot.fill [t]) = some (slot.fill run) := by
  have ofT : t.id ∈ Stmt.idsOfList [t] := by simp [Stmt.idsOfList, t.id_mem_ids]
  cases slot with
  | here before behind =>
      rw [Slot.fill, Stmt.idsOfList_append, List.nodup_append] at distinct
      have absent : t.id ∉ Stmt.idsOfList before := fun listed =>
        distinct.2.2 _ listed _ ((Slot.here [] behind).ids_subset_fill [t] ofT) rfl
      rw [Slot.fill, Stmt.spliceList?, Stmt.spliceMember?_append absent, List.cons_append,
        Stmt.spliceMember?, if_pos (beq_self_eq_true t.id)]
      rfl
  | within before inner behind =>
      rw [Slot.fill, Stmt.idsOfList_append, List.nodup_append, Stmt.idsOfList,
        List.nodup_append] at distinct
      have listed : t.id ∈ (inner.fill [t]).ids := inner.ids_subset_fill [t] ofT
      have absent : t.id ∉ Stmt.idsOfList before := fun isBefore =>
        distinct.2.2 _ isBefore _ (List.mem_append_left _ listed) rfl
      have absentBehind : t.id ∉ Stmt.idsOfList behind := fun isBehind =>
        distinct.2.1.2.2 _ listed _ isBehind rfl
      have noMember : Stmt.spliceMember? t.id run behind = none := by
        have := @Stmt.spliceMember?_append t.id run behind absentBehind []
        rw [List.append_nil] at this
        rw [this]
        rfl
      have differ := StmtSlot.id_fill_ne distinct.2.1.1
      rw [Slot.fill, Stmt.spliceList?, Stmt.spliceMember?_append absent, Stmt.spliceMember?,
        if_neg (by simpa using differ), noMember, Stmt.spliceWithin?_append absent,
        Stmt.spliceWithin?, inner.splice?_fill distinct.2.1.1]
      rfl

theorem StmtSlot.splice?_fill {t : Stmt} {run : List Stmt} (slot : StmtSlot)
    (distinct : (slot.fill [t]).ids.Nodup) :
    (slot.fill [t]).splice? t.id run = some (slot.fill run) := by
  have ofT : t.id ∈ Stmt.idsOfList [t] := by simp [Stmt.idsOfList, t.id_mem_ids]
  cases slot with
  | block id scope inner =>
      rw [StmtSlot.fill, Stmt.ids, List.nodup_cons, List.nodup_cons] at distinct
      have inList := @Slot.spliceList?_fill t run inner distinct.2.2
      rw [Stmt.spliceList?] at inList
      rw [StmtSlot.fill, Stmt.splice?, inList]
      rfl
  | branchTrue id cond inner whenFalse =>
      rw [StmtSlot.fill, Stmt.ids, List.nodup_cons, List.nodup_append, List.nodup_append] at distinct
      rw [StmtSlot.fill, Stmt.splice?, inner.splice?_fill distinct.2.2.1.1]
      rfl
  | branchFalse id cond whenTrue inner =>
      rw [StmtSlot.fill, Stmt.ids, List.nodup_cons, List.nodup_append, List.nodup_append,
        Stmt.idsOfOption] at distinct
      have absent : t.id ∉ whenTrue.ids := fun isTrue =>
        distinct.2.2.1.2.2 _ isTrue _ (inner.ids_subset_fill [t] ofT) rfl
      rw [StmtSlot.fill, Stmt.splice?, Stmt.splice?_eq_none absent, Stmt.spliceOption?,
        inner.splice?_fill distinct.2.2.1.2.1]
      rfl
  | forBody id init cond step inner =>
      rw [StmtSlot.fill, Stmt.ids, List.nodup_cons, List.nodup_append, List.nodup_append,
        List.nodup_append] at distinct
      rw [StmtSlot.fill, Stmt.splice?, inner.splice?_fill distinct.2.2.1.2.1.2.1]
      rfl
  | whileBody id cond inner =>
      rw [StmtSlot.fill, Stmt.ids, List.nodup_cons, List.nodup_append] at distinct
      rw [StmtSlot.fill, Stmt.splice?, inner.splice?_fill distinct.2.2.1]
      rfl
  | case id selector before caseId label inner behind =>
      rw [StmtSlot.fill, Stmt.ids, Stmt.idsOfCases_append, Stmt.idsOfCases, List.nodup_cons,
        List.nodup_append, List.nodup_append, List.nodup_cons, List.nodup_append] at distinct
      have absent : t.id ∉ Stmt.idsOfCases before := fun isBefore =>
        distinct.2.2.1.2.2 _ isBefore _ (List.mem_cons_of_mem _ (List.mem_append_left _
          (inner.ids_subset_fill [t] ofT))) rfl
      have inList := @Slot.spliceList?_fill t run inner distinct.2.2.1.2.1.2.1
      rw [Stmt.spliceList?] at inList
      rw [StmtSlot.fill, Stmt.splice?, Stmt.spliceCases?_append absent, Stmt.spliceCases?, inList]
      rfl

end

/-- A place in a list of statements of a function among the declarations of a
shader.  Of the function given here, only what is in front of its statements
counts. -/
structure Spot where
  before : List Decl
  function : Function
  slot : Slot
  behind : List Decl

namespace Spot

variable {spot : Spot} {t : Stmt}

def fill (run : List Stmt) (spot : Spot) : List Decl :=
  spot.before ++ .function (spot.function.withStmts (spot.slot.fill run)) :: spot.behind

/-- The place between two runs of statements at the place. -/
def between (front back : List Stmt) (spot : Spot) : Spot :=
  { spot with slot := spot.slot.between front back }

theorem fill_between (front run back : List Stmt) (spot : Spot) :
    (spot.between front back).fill run = spot.fill (front ++ (run ++ back)) := by
  rw [fill, fill, between, Slot.fill_between]

theorem ids_of_fill (run : List Stmt) (spot : Spot) :
    (spot.fill run).flatMap Decl.ids = spot.before.flatMap Decl.ids ++
      ((spot.function.id :: (spot.function.params.map Param.id ++
        (spot.function.body.id :: Stmt.idsOfList (spot.slot.fill run)))) ++
          spot.behind.flatMap Decl.ids) := by
  rw [fill, List.flatMap_append, List.flatMap_cons]
  rfl

/-- Where identifiers do not repeat, neither do those at a place, and none of them stands
around it. -/
theorem nodup_ids_run {run : List Stmt} (distinct : ((spot.fill run).flatMap Decl.ids).Nodup) :
    (Stmt.idsOfList run).Nodup ∧
      ∀ id ∈ Stmt.idsOfList run, id ∉ (spot.fill []).flatMap Decl.ids := by
  rw [List.nodup_iff_count_le_one] at distinct ⊢
  have counts : ∀ id, ((spot.fill run).flatMap Decl.ids).count id =
      ((spot.fill []).flatMap Decl.ids).count id + (Stmt.idsOfList run).count id := by
    intro id
    simp only [ids_of_fill, List.count_append, List.count_cons, spot.slot.count_ids_fill id run]
    omega
  constructor
  · intro id
    have atMost := distinct id
    rw [counts] at atMost
    omega
  · intro id listed
    have atMost := distinct id
    have positive := List.count_pos_iff.mpr listed
    rw [counts] at atMost
    exact List.count_eq_zero.mp (by omega)

/-- Changes of a body pass over declarations that do not have the identifier. -/
theorem modifyFirst?_fill {change? : List Stmt → Option (List Stmt)} {run run' : List Stmt}
    (passes : ∀ stmts, t.id ∉ Stmt.idsOfList stmts → change? stmts = none)
    (reaches : change? (spot.slot.fill run) = some (spot.slot.fill run'))
    (absent : t.id ∉ spot.before.flatMap Decl.ids) :
    Decl.modifyFirst? (Decl.modifyBody? change?) (spot.fill run) = some (spot.fill run') := by
  unfold fill
  revert absent
  induction spot.before with
  | nil =>
      intro _
      rw [List.nil_append, Decl.modifyFirst?, Decl.modifyBody?]
      simp only [Function.withStmts, reaches, Option.map_some]
      rfl
  | cons decl rest inductionHypothesis =>
      intro absent
      rw [List.flatMap_cons, List.mem_append, not_or] at absent
      have passed : decl.modifyBody? change? = none := by
        cases decl with
        | precision | struct | global => rfl
        | function f =>
            have noId : t.id ∉ Stmt.idsOfList f.body.stmts := fun listed => absent.1 (by
              simp [Decl.ids, listed])
            rw [Decl.modifyBody?, passes _ noId]
            rfl
      rw [List.cons_append, Decl.modifyFirst?, passed, inductionHypothesis absent.2]
      rfl

theorem distinct_slot (distinct : ((spot.fill [t]).flatMap Decl.ids).Nodup) :
    (Stmt.idsOfList (spot.slot.fill [t])).Nodup ∧ t.id ∉ spot.before.flatMap Decl.ids := by
  have ofT : t.id ∈ Stmt.idsOfList [t] := by simp [Stmt.idsOfList, t.id_mem_ids]
  rw [ids_of_fill, List.nodup_append, List.nodup_append, List.nodup_cons, List.nodup_append,
    List.nodup_cons] at distinct
  refine ⟨distinct.2.1.1.2.2.1.2, fun isBefore => distinct.2.2 _ isBefore _ ?_ rfl⟩
  exact List.mem_append_left _ (List.mem_cons_of_mem _ (List.mem_append_right _
    (List.mem_cons_of_mem _ (spot.slot.ids_subset_fill [t] ofT))))

end Spot

namespace Shader

variable {shader : Shader} {spot : Spot} {t : Stmt}

/-- The statement at a place, as its identifier reaches it. -/
theorem modifyStmt?_fill (isAt : shader.decls = spot.fill [t]) (distinct : shader.ids.Nodup)
    (change : Stmt → Stmt) :
    shader.modifyStmt? t.id change = some { shader with decls := spot.fill [change t] } := by
  rw [ids, isAt] at distinct
  have inSlot := Spot.distinct_slot distinct
  have modified := @Spot.modifyFirst?_fill spot t (Stmt.modifyList? t.id change) [t] [change t]
    (fun _ => Stmt.modifyList?_eq_none) (spot.slot.modifyList?_fill inSlot.1) inSlot.2
  rw [modifyStmt?, modifyDecl?, isAt, modified]
  rfl

/-- Another statement takes the place of the statement there. -/
theorem replaceStmt_fill (isAt : shader.decls = spot.fill [t]) (distinct : shader.ids.Nodup)
    (r : Stmt) : (shader.replaceStmt t.id r).1 = { shader with decls := spot.fill [r] } := by
  rw [replaceStmt, orUnchanged, modifyStmt?_fill isAt distinct]
  rfl

/-- A run of statements is spliced in for the statement at a place. -/
theorem splice?_fill (isAt : shader.decls = spot.fill [t]) (distinct : shader.ids.Nodup)
    (run : List Stmt) :
    shader.splice? t.id run = some { shader with decls := spot.fill run } := by
  rw [ids, isAt] at distinct
  have inSlot := Spot.distinct_slot distinct
  have modified := @Spot.modifyFirst?_fill spot t (Stmt.spliceList? t.id run) [t] run
    (fun _ => Stmt.spliceList?_eq_none) (spot.slot.spliceList?_fill inSlot.1) inSlot.2
  rw [splice?, modifyDecl?, isAt, modified]
  rfl

/-- A run of statements takes the place of the statement there. -/
theorem replaceStmtWith_fill (isAt : shader.decls = spot.fill [t]) (distinct : shader.ids.Nodup)
    (run : List Stmt) :
    (shader.replaceStmtWith t.id run).1 = { shader with decls := spot.fill run } := by
  rw [replaceStmtWith, splice?_fill isAt distinct]

end Shader
end Whittle
