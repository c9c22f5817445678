import Whittle.Proofs.Identifiers.Operations
import Whittle.Proofs.Scoping.References
import Whittle.Proofs.Typing.Calls
import Whittle.Proofs.Typing.Checking
import Whittle.Proofs.Typing.Congruence
import Whittle.Proofs.Typing.Slots
import Whittle.Reduction.Site

namespace Whittle

/-!
# Rewriting what stands in a list

The statements that edits look at stand in lists of functions.  In a shader that
follows the rules each such list can be reached, so a statement in it stands at a
place of the shader.  What the run behind an edit owes to the rules is then a
matter of the context of that place and of the names around it.
-/

namespace Check
namespace Context

open Reduction (ownLists)

theorem mem_listsOfCases_of_mem {cases : List Case} {one : Case} (listed : one ∈ cases) :
    one.body ∈ Stmt.listsOfCases cases := by
  induction cases with
  | nil => cases listed
  | cons first rest inductionHypothesis =>
      cases first with
      | mk id label body =>
          rcases List.mem_cons.mp listed with rfl | inRest
          · exact List.mem_append_left _ List.mem_cons_self
          · exact List.mem_append_right _ (inductionHypothesis inRest)

mutual

/-- The lists of an accepted statement are those that are searched for members.
An initialiser of a loop would not be searched, but holds no list. -/
theorem Accepts.ownLists_subset {ctx : Context} {s inner : Stmt} (accepted : ctx.Accepts s)
    (isInner : inner ∈ s.substmts) : ownLists inner ⊆ s.lists := by
  cases s with
  | block id scope stmts =>
      rcases List.mem_cons.mp isInner with rfl | within
      · exact List.cons_subset.mpr ⟨List.mem_cons_self, List.nil_subset _⟩
      · exact List.Subset.trans (AcceptsList.ownLists_subset accepted within)
          (List.subset_cons_self _ _)
  | branch id cond whenTrue whenFalse =>
      rcases List.mem_cons.mp isInner with rfl | within
      · exact List.nil_subset _
      · rcases List.mem_append.mp within with inTrue | inFalse
        · exact List.Subset.trans (Accepts.ownLists_subset accepted.2.1 inTrue)
            (List.subset_append_left _ _)
        · cases whenFalse with
          | none => cases inFalse
          | some s =>
              exact List.Subset.trans (Accepts.ownLists_subset (s := s) accepted.2.2 inFalse)
                (List.subset_append_right _ _)
  | forLoop id init cond step body =>
      rw [accepts_forLoop_iff] at accepted
      rcases List.mem_cons.mp isInner with rfl | within
      · exact List.nil_subset _
      · rcases List.mem_append.mp within with inInit | inBody
        · cases init with
          | none => cases inInit
          | some s =>
              have isLoopInit := accepted.1 s rfl
              cases s with
              | decl | expr =>
                  rw [List.mem_singleton.mp inInit]
                  exact List.nil_subset _
              | _ => cases isLoopInit
        · have isBody := accepted.2.2.2.2
          cases body with
          | block bodyId scope stmts =>
              rcases List.mem_cons.mp inBody with rfl | inStmts
              · exact List.cons_subset.mpr ⟨List.mem_cons_self, List.nil_subset _⟩
              · exact List.Subset.trans (AcceptsList.ownLists_subset isBody inStmts)
                  (List.subset_cons_self _ _)
          | _ =>
              have inLists := Accepts.ownLists_subset isBody inBody
              exact inLists
  | whileLoop id cond body =>
      rcases List.mem_cons.mp isInner with rfl | within
      · exact List.nil_subset _
      · have inLists := Accepts.ownLists_subset accepted.2 within
        exact inLists
  | switch id selector cases =>
      rcases List.mem_cons.mp isInner with rfl | within
      · intro stmts isCase
        rcases List.mem_map.mp isCase with ⟨one, isOne, rfl⟩
        exact mem_listsOfCases_of_mem isOne
      · exact AcceptsCases.ownLists_subset accepted.2.2.2 within
  | decl | expr | ret | breakOut | continueLoop | discard | empty =>
      rw [List.mem_singleton.mp isInner]
      exact List.nil_subset _

theorem AcceptsList.ownLists_subset {ctx : Context} {stmts : List Stmt} {inner : Stmt}
    (accepted : ctx.AcceptsList stmts) (isInner : inner ∈ Stmt.substmtsOfList stmts) :
    ownLists inner ⊆ Stmt.listsWithin stmts := by
  match stmts with
  | [] => cases isInner
  | s :: rest =>
      rcases List.mem_append.mp isInner with inFirst | inRest
      · exact List.Subset.trans (Accepts.ownLists_subset accepted.1 inFirst)
          (List.subset_append_left _ _)
      · exact List.Subset.trans (AcceptsList.ownLists_subset accepted.2 inRest)
          (List.subset_append_right _ _)

theorem AcceptsCases.ownLists_subset {ctx : Context} {before : List Label} {cases : List Case}
    {inner : Stmt} (accepted : ctx.AcceptsCases before cases)
    (isInner : inner ∈ Stmt.substmtsOfCases cases) : ownLists inner ⊆ Stmt.listsOfCases cases := by
  match cases with
  | [] => cases isInner
  | .mk id label body :: rest =>
      rcases List.mem_append.mp isInner with inFirst | inRest
      · exact List.Subset.trans (List.Subset.trans
          (AcceptsList.ownLists_subset accepted.2.1 inFirst) (List.subset_cons_self _ _))
          (List.subset_append_left _ _)
      · exact List.Subset.trans (AcceptsCases.ownLists_subset accepted.2.2 inRest)
          (List.subset_append_right _ _)

end

/-- Every function that is declared in accepted declarations is accepted. -/
theorem AcceptsDecls.exists_acceptsFunction {ctx : Context} {decls : List Decl} {f : Function}
    (accepted : ctx.AcceptsDecls decls) (listed : .function f ∈ decls) :
    ∃ ctx : Context, ctx.AcceptsFunction f := by
  induction decls generalizing ctx with
  | nil => cases listed
  | cons decl rest inductionHypothesis =>
      rcases List.mem_cons.mp listed with rfl | inRest
      · exact ⟨ctx, accepted.1⟩
      · exact inductionHypothesis accepted.2 inRest

end Context
end Check

namespace Reduction

variable {shader : Shader} {version : Version} {site : Site}

/-- A list of an accepted function is its body, or a list that is searched for members. -/
theorem eq_body_or_mem_listsWithin {f : Function} {ctx : Check.Context} {list : StmtList}
    (accepted : ctx.AcceptsList f.body.stmts) (isList : list ∈ stmtLists f) :
    list = ⟨f.body.stmts, true⟩ ∨ list.stmts ∈ Stmt.listsWithin f.body.stmts := by
  rcases List.mem_cons.mp isList with rfl | isInner
  · exact Or.inl rfl
  · rcases List.mem_map.mp isInner with ⟨stmts, isOwn, rfl⟩
    rcases List.mem_flatMap.mp isOwn with ⟨inner, isInner, isOwn⟩
    have isInner : inner ∈ Stmt.substmtsOfList f.body.stmts := by
      rw [Stmt.substmtsOfList_eq_flatMap]
      exact isInner
    exact Or.inr (accepted.ownLists_subset isInner isOwn)

/-- A list of an accepted function is its body, or the whole list at a place within a
statement. -/
theorem exists_slot_of_mem_stmtLists {f : Function} {ctx : Check.Context} {list : StmtList}
    (accepted : ctx.AcceptsList f.body.stmts) (isList : list ∈ stmtLists f) :
    list = ⟨f.body.stmts, true⟩ ∨
      ∃ before inner behind, f.body.stmts = (Slot.within before inner behind).fill list.stmts :=
  (eq_body_or_mem_listsWithin accepted isList).imp_right Stmt.exists_fill_of_mem_listsWithin

theorem exists_slot_of_mem_functionSites {f : Function} {ctx : Check.Context}
    (accepted : ctx.AcceptsList f.body.stmts) (listed : site ∈ functionSites f) :
    site.function = f ∧ ∃ slot : Slot, f.body.stmts = slot.fill [site.stmt] ∧
      (site.list.isSoleStmt = true ∨ slot.fill [] ≠ []) := by
  rcases List.mem_flatMap.mp listed with ⟨list, isList, isSite⟩
  rcases List.mem_map.mp isSite with ⟨s, isMember, rfl⟩
  refine ⟨rfl, ?_⟩
  rcases List.append_of_mem isMember with ⟨front, back, members⟩
  rcases exists_slot_of_mem_stmtLists accepted isList with rfl | ⟨before, inner, behind, split⟩
  · have split : f.body.stmts = front ++ s :: back := members
    refine ⟨.here front back, split, ?_⟩
    have sole : front ++ back = [] → f.body.stmts.length = 1 := fun isEmpty => by
      rw [List.append_eq_nil_iff] at isEmpty
      rw [split, isEmpty.1, isEmpty.2]
      rfl
    by_cases isEmpty : front ++ back = []
    · exact Or.inl (by simp [StmtList.isSoleStmt, sole isEmpty])
    · exact Or.inr isEmpty
  · refine ⟨(Slot.within before inner behind).between front back, ?_, Or.inr ?_⟩
    · rw [Slot.fill_between, split, members]
      rfl
    · simp [Slot.between, Slot.fill]

/-- A function that is declared has what stands in its body at a place of the shader. -/
theorem exists_spot_of_mem_functions {f : Function} (isFunction : f ∈ shader.functions)
    {slot : Slot} {run : List Stmt} (isAt : f.body.stmts = slot.fill run) :
    ∃ spot : Spot, spot.function = f ∧ spot.slot = slot ∧ shader.decls = spot.fill run := by
  rcases List.append_of_mem (Shader.mem_functions_iff.mp isFunction) with ⟨before, behind, split⟩
  refine ⟨⟨before, f, slot, behind⟩, rfl, rfl, ?_⟩
  rw [Spot.fill, ← isAt]
  exact split

/-- A list of an accepted function is a whole list at a place in its body. -/
theorem exists_fill_of_mem_stmtLists {f : Function} {ctx : Check.Context} {list : StmtList}
    (accepted : ctx.AcceptsList f.body.stmts) (isList : list ∈ stmtLists f) :
    ∃ slot : Slot, f.body.stmts = slot.fill list.stmts := by
  rcases exists_slot_of_mem_stmtLists accepted isList with rfl | ⟨before, inner, behind, split⟩
  · exact ⟨.here [] [], (Slot.fill_here _).symm⟩
  · exact ⟨_, split⟩

/-- A list of a function in a shader that follows the rules stands at a place. -/
theorem exists_spot_of_mem_stmtLists (follows : shader.FollowsRules version) {f : Function}
    (isFunction : f ∈ shader.functions) {list : StmtList} (isList : list ∈ stmtLists f) :
    ∃ spot : Spot, spot.function = f ∧ shader.decls = spot.fill list.stmts := by
  rcases follows.decls.exists_acceptsFunction (Shader.mem_functions_iff.mp isFunction) with
    ⟨ctx, accepted⟩
  rcases exists_fill_of_mem_stmtLists accepted.body isList with ⟨slot, isAt⟩
  rcases exists_spot_of_mem_functions isFunction isAt with ⟨spot, sameFunction, _, isSpot⟩
  exact ⟨spot, sameFunction, isSpot⟩

/-- A statement in a list of a shader that follows the rules stands at a place.
Without it the function still has a body, unless it was the only one there. -/
theorem exists_spot_of_mem_sites (follows : shader.FollowsRules version)
    (listed : site ∈ sites shader) :
    ∃ spot : Spot, spot.function = site.function ∧ shader.decls = spot.fill [site.stmt] ∧
      site.function.body.stmts = spot.slot.fill [site.stmt] ∧
      (site.list.isSoleStmt = true ∨ spot.slot.fill [] ≠ []) := by
  rcases List.mem_flatMap.mp listed with ⟨f, isFunction, isSite⟩
  rcases follows.decls.exists_acceptsFunction (Shader.mem_functions_iff.mp isFunction) with
    ⟨ctx, accepted⟩
  rcases exists_slot_of_mem_functionSites accepted.body isSite with ⟨rfl, slot, isAt, sole⟩
  rcases exists_spot_of_mem_functions isFunction isAt with ⟨spot, sameFunction, sameSlot, isSpot⟩
  rw [← sameSlot] at isAt sole
  exact ⟨spot, sameFunction, isSpot, isAt, sole⟩

end Reduction

mutual

theorem Slot.mem_substmts_fill (t : Stmt) (slot : Slot) :
    t ∈ Stmt.substmtsOfList (slot.fill [t]) := by
  cases slot with
  | here before behind =>
      rw [Slot.fill, Stmt.substmtsOfList_eq_flatMap]
      exact List.mem_flatMap.mpr ⟨t, by simp, t.self_mem_substmts⟩
  | within before inner behind =>
      rw [Slot.fill, Stmt.substmtsOfList_eq_flatMap]
      exact List.mem_flatMap.mpr ⟨inner.fill [t], by simp, inner.mem_substmts_fill t⟩

theorem StmtSlot.mem_substmts_fill (t : Stmt) (slot : StmtSlot) :
    t ∈ (slot.fill [t]).substmts := by
  cases slot with
  | block id scope inner => exact List.mem_cons_of_mem _ (inner.mem_substmts_fill t)
  | branchTrue id cond inner whenFalse =>
      exact List.mem_cons_of_mem _ (List.mem_append_left _ (inner.mem_substmts_fill t))
  | branchFalse id cond whenTrue inner =>
      exact List.mem_cons_of_mem _ (List.mem_append_right _ (inner.mem_substmts_fill t))
  | forBody id init cond step inner =>
      exact List.mem_cons_of_mem _ (List.mem_append_right _ (inner.mem_substmts_fill t))
  | whileBody id cond inner => exact List.mem_cons_of_mem _ (inner.mem_substmts_fill t)
  | case id selector before caseId label inner behind =>
      refine List.mem_cons_of_mem _ ?_
      rw [Stmt.substmtsOfCases_eq_flatMap]
      refine List.mem_flatMap.mpr ⟨.mk caseId label (inner.fill [t]), by simp, ?_⟩
      have inBody := inner.mem_substmts_fill t
      rwa [Stmt.substmtsOfList_eq_flatMap] at inBody

end

mutual

/-- The expressions of a list stand around a place or in the run there. -/
theorem Slot.mem_roots_fill_iff {e : Expr} {run : List Stmt} (slot : Slot) :
    e ∈ Stmt.rootsOfList (slot.fill run) ↔
      e ∈ Stmt.rootsOfList (slot.fill []) ∨ e ∈ Stmt.rootsOfList run := by
  cases slot with
  | here before behind =>
      simp only [Slot.fill, Stmt.rootsOfList_eq_flatMap, List.flatMap_append, List.flatMap_nil,
        List.mem_append, List.not_mem_nil, false_or]
      tauto
  | within before inner behind =>
      have inSlot := @StmtSlot.mem_roots_fill_iff e run inner
      simp only [Slot.fill, Stmt.rootsOfList_eq_flatMap, List.flatMap_append, List.flatMap_cons,
        List.mem_append] at inSlot ⊢
      tauto

theorem StmtSlot.mem_roots_fill_iff {e : Expr} {run : List Stmt} (slot : StmtSlot) :
    e ∈ (slot.fill run).roots ↔ e ∈ (slot.fill []).roots ∨ e ∈ Stmt.rootsOfList run := by
  cases slot with
  | block id scope inner => exact inner.mem_roots_fill_iff
  | branchTrue _ _ inner _ | branchFalse _ _ _ inner | forBody _ _ _ _ inner | whileBody _ _ inner =>
      have inSlot := @StmtSlot.mem_roots_fill_iff e run inner
      simp only [StmtSlot.fill, Stmt.roots, Stmt.rootsOfOption, List.mem_cons, List.mem_append]
      tauto
  | case id selector before caseId label inner behind =>
      have inSlot := @Slot.mem_roots_fill_iff e run inner
      simp only [StmtSlot.fill, Stmt.roots, Stmt.rootsOfCases_eq_flatMap, List.flatMap_append,
        List.flatMap_cons, Case.body, ← Stmt.rootsOfList_eq_flatMap, List.mem_cons, List.mem_append]
      tauto

end

theorem Shader.mem_roots_fill_iff {shader : Shader} {spot : Spot} {run : List Stmt} {e : Expr}
    (isAt : shader.decls = spot.fill run) :
    e ∈ shader.roots ↔
      e ∈ (spot.fill []).flatMap Decl.roots ∨ e ∈ Stmt.rootsOfList run := by
  have inSlot := @Slot.mem_roots_fill_iff e run spot.slot
  have function : ∀ run, (Decl.function (spot.function.withStmts run)).roots =
      Stmt.rootsOfList run := fun run => (Stmt.rootsOfList_eq_flatMap run).symm
  rw [Shader.roots, isAt]
  simp only [Spot.fill, List.flatMap_append, List.flatMap_cons, List.mem_append, function]
  tauto

namespace Stmt

variable {target : NodeId}

theorem find?_cons_of_ne {s : Stmt} (differ : target ≠ s.id) (rest : List Stmt) :
    (s :: rest).find? (fun inner => inner.id == target) =
      rest.find? fun inner => inner.id == target :=
  List.find?_cons_of_neg fun same => differ (beq_iff_eq.mp same).symm

theorem find?_append_of_notMem {front : List Stmt} {ids : List NodeId}
    (isSublist : (front.map Stmt.id).Sublist ids) (absent : target ∉ ids) (rest : List Stmt) :
    (front ++ rest).find? (fun inner => inner.id == target) =
      rest.find? fun inner => inner.id == target := by
  have passed : front.find? (fun inner => inner.id == target) = none := by
    rw [List.find?_eq_none]
    intro s listed same
    rw [beq_iff_eq] at same
    exact absent (same ▸ isSublist.subset (List.mem_map_of_mem listed))
  rw [List.find?_append, passed, Option.none_or]

theorem find?_substmts_append (s : Stmt) (rest : List Stmt) :
    (s.substmts ++ rest).find? (fun inner => inner.id == s.id) = some s := by
  cases s <;> exact List.find?_cons_of_pos (beq_self_eq_true _)

end Stmt

mutual

/-- A statement at a place comes first among those with its identifier if this does not stand
around the place: the statements that hold it have other ones, and its own parts come later. -/
theorem Slot.find?_fill {t : Stmt} (slot : Slot) (absent : t.id ∉ Stmt.idsOfList (slot.fill [])) :
    (Stmt.substmtsOfList (slot.fill [t])).find? (fun s => s.id == t.id) = some t := by
  cases slot with
  | here before behind =>
      rw [Slot.fill, Stmt.idsOfList_append, List.mem_append, not_or] at absent
      rw [Slot.fill, Stmt.substmtsOfList_eq_flatMap, List.flatMap_append,
        ← Stmt.substmtsOfList_eq_flatMap,
        Stmt.find?_append_of_notMem (Stmt.map_id_substmtsOfList_sublist before) absent.1,
        List.singleton_append, List.flatMap_cons]
      exact t.find?_substmts_append _
  | within before inner behind =>
      rw [Slot.fill, Stmt.idsOfList_append, Stmt.idsOfList, List.mem_append, List.mem_append,
        not_or, not_or] at absent
      rw [Slot.fill, Stmt.substmtsOfList_eq_flatMap, List.flatMap_append,
        ← Stmt.substmtsOfList_eq_flatMap,
        Stmt.find?_append_of_notMem (Stmt.map_id_substmtsOfList_sublist before) absent.1,
        List.flatMap_cons, List.find?_append, inner.find?_fill absent.2.1, Option.some_or]

theorem StmtSlot.find?_fill {t : Stmt} (slot : StmtSlot) (absent : t.id ∉ (slot.fill []).ids) :
    (slot.fill [t]).substmts.find? (fun s => s.id == t.id) = some t := by
  cases slot with
  | block id scope inner =>
      simp only [StmtSlot.fill, Stmt.ids, List.mem_cons, not_or] at absent
      rw [StmtSlot.fill, Stmt.substmts, Stmt.find?_cons_of_ne absent.1, inner.find?_fill absent.2.2]
  | branchTrue id cond inner whenFalse =>
      simp only [StmtSlot.fill, Stmt.ids, List.mem_cons, List.mem_append, not_or] at absent
      rw [StmtSlot.fill, Stmt.substmts, Stmt.find?_cons_of_ne absent.1, List.find?_append,
        inner.find?_fill absent.2.2.1, Option.some_or]
  | branchFalse id cond whenTrue inner =>
      simp only [StmtSlot.fill, Stmt.ids, List.mem_cons, List.mem_append, not_or] at absent
      rw [StmtSlot.fill, Stmt.substmts, Stmt.find?_cons_of_ne absent.1,
        Stmt.find?_append_of_notMem (Stmt.map_id_substmts_sublist whenTrue) absent.2.2.1]
      exact inner.find?_fill absent.2.2.2
  | forBody id init cond step inner =>
      simp only [StmtSlot.fill, Stmt.ids, List.mem_cons, List.mem_append, not_or] at absent
      rw [StmtSlot.fill, Stmt.substmts, Stmt.find?_cons_of_ne absent.1,
        Stmt.find?_append_of_notMem (Stmt.map_id_substmtsOfOption_sublist init) absent.2.1]
      exact inner.find?_fill absent.2.2.2.2
  | whileBody id cond inner =>
      simp only [StmtSlot.fill, Stmt.ids, List.mem_cons, List.mem_append, not_or] at absent
      rw [StmtSlot.fill, Stmt.substmts, Stmt.find?_cons_of_ne absent.1,
        inner.find?_fill absent.2.2]
  | case id selector before caseId label inner behind =>
      simp only [StmtSlot.fill, Stmt.ids, Stmt.idsOfCases_append, Stmt.idsOfCases, List.mem_cons,
        List.mem_append, not_or] at absent
      rw [StmtSlot.fill, Stmt.substmts, Stmt.find?_cons_of_ne absent.1,
        Stmt.substmtsOfCases_eq_flatMap, List.flatMap_append, ← Stmt.substmtsOfCases_eq_flatMap,
        Stmt.find?_append_of_notMem (Stmt.map_id_substmtsOfCases_sublist before) absent.2.2.1,
        List.flatMap_cons, Case.body, ← Stmt.substmtsOfList_eq_flatMap, List.find?_append,
        inner.find?_fill absent.2.2.2.2.1, Option.some_or]

end

/-- The statement at a place is found by its identifier, which does not stand around the place. -/
theorem Shader.findStmt?_fill_of_notMem {shader : Shader} {spot : Spot} {t : Stmt}
    (isAt : shader.decls = spot.fill [t]) (absent : t.id ∉ (spot.fill []).flatMap Decl.ids) :
    shader.findStmt? t.id = some t := by
  simp only [Spot.ids_of_fill, List.mem_append, List.mem_cons, not_or] at absent
  have isSublist : ((spot.before.flatMap Decl.stmts).map Stmt.id).Sublist
      (spot.before.flatMap Decl.ids) := by
    rw [List.map_flatMap]
    exact List.Sublist.flatMap_right _ fun decl _ => decl.map_id_stmts_sublist
  have ofFunction : (Decl.function (spot.function.withStmts (spot.slot.fill [t]))).stmts =
      Stmt.substmtsOfList (spot.slot.fill [t]) := (Stmt.substmtsOfList_eq_flatMap _).symm
  rw [Shader.findStmt?, Shader.stmts, isAt, Spot.fill, List.flatMap_append,
    Stmt.find?_append_of_notMem isSublist absent.1, List.flatMap_cons, ofFunction,
    List.find?_append, spot.slot.find?_fill absent.2.1.2.2.2, Option.some_or]

/-- The statement at a place is found by its identifier. -/
theorem Shader.findStmt?_fill {shader : Shader} {spot : Spot} {t : Stmt}
    (isAt : shader.decls = spot.fill [t]) (distinct : shader.ids.Nodup) :
    shader.findStmt? t.id = some t := by
  rw [Shader.ids, isAt] at distinct
  have ofT : t.id ∈ Stmt.idsOfList [t] := List.mem_append_left _ t.id_mem_ids
  exact findStmt?_fill_of_notMem isAt ((Spot.nodup_ids_run distinct).2 t.id ofT)

/-! ## Names and returns around a place -/

namespace Reduction

mutual

/-- How much there is of something in a list adds up from the run at a place and
what is around it. -/
theorem Names.measure_fill {measure : Names → Nat}
    (adds : ∀ first second : Names, measure (first.join second) = measure first + measure second)
    (run : List Stmt) (slot : Slot) :
    measure (ofStmts (slot.fill run)) = measure (ofStmts (slot.fill [])) + measure (ofStmts run) := by
  cases slot with
  | here before behind =>
      simp only [Slot.fill, List.nil_append, ofStmts_append, adds]
      omega
  | within before inner behind =>
      have inSlot := Names.measure_fill_stmt adds run inner
      rw [Slot.fill, Slot.fill, ofStmts_append, ofStmts_append, ofStmts_cons (inner.fill run),
        ofStmts_cons (inner.fill [])]
      simp only [adds, inSlot]
      omega

theorem Names.measure_fill_stmt {measure : Names → Nat}
    (adds : ∀ first second : Names, measure (first.join second) = measure first + measure second)
    (run : List Stmt) (slot : StmtSlot) :
    measure (ofStmts [slot.fill run]) =
      measure (ofStmts [slot.fill []]) + measure (ofStmts run) := by
  cases slot with
  | block id scope inner =>
      simp only [StmtSlot.fill, ofStmts_block]
      exact Names.measure_fill adds run inner
  | branchTrue id cond inner whenFalse =>
      simp only [StmtSlot.fill, ofStmts_branch, adds, Names.measure_fill_stmt adds run inner]
      omega
  | branchFalse id cond whenTrue inner =>
      simp only [StmtSlot.fill, ofStmts_branch, Option.toList_some, adds,
        Names.measure_fill_stmt adds run inner]
      omega
  | forBody id init cond step inner =>
      simp only [StmtSlot.fill, ofStmts_forLoop, adds, Names.measure_fill_stmt adds run inner]
      omega
  | whileBody id cond inner =>
      simp only [StmtSlot.fill, ofStmts_whileLoop, adds, Names.measure_fill_stmt adds run inner]
      omega
  | case id selector before caseId label inner behind =>
      simp only [StmtSlot.fill, ofStmts_switch, List.flatMap_append, List.flatMap_cons, Case.body,
        ofStmts_append, adds, Names.measure_fill adds run inner]
      omega

end

theorem Names.declarations_fill (name : String) (run : List Stmt) (slot : Slot) :
    (ofStmts (slot.fill run)).declarations name =
      (ofStmts (slot.fill [])).declarations name + (ofStmts run).declarations name :=
  @Names.measure_fill (fun names => names.declarations name)
    (fun first second => declarations_join first second name) run slot

theorem Names.references_fill (name : String) (run : List Stmt) (slot : Slot) :
    (ofStmts (slot.fill run)).references name =
      (ofStmts (slot.fill [])).references name + (ofStmts run).references name :=
  @Names.measure_fill (fun names => names.references name)
    (fun first second => references_join first second name) run slot

end Reduction

theorem Slot.fill_ne_nil {run : List Stmt} {slot : Slot} (some : run ≠ [] ∨ slot.fill [] ≠ []) :
    slot.fill run ≠ [] := by
  cases slot with
  | here before behind =>
      simp only [Slot.fill, ne_eq, List.nil_append, List.append_eq_nil_iff, not_and] at some ⊢
      tauto
  | within before inner behind => simp [Slot.fill]

mutual

theorem Slot.any_holdsReturn_fill (run : List Stmt) (slot : Slot) :
    (slot.fill run).any Stmt.holdsReturn =
      ((slot.fill []).any Stmt.holdsReturn || run.any Stmt.holdsReturn) := by
  cases slot with
  | here before behind =>
      simp only [Slot.fill, List.any_append, List.any_nil, Bool.false_or]
      rw [Bool.or_comm (run.any _), Bool.or_assoc]
  | within before inner behind =>
      simp only [Slot.fill, List.any_append, List.any_cons, inner.holdsReturn_fill run]
      rw [Bool.or_right_comm (inner.fill []).holdsReturn, ← Bool.or_assoc]

theorem StmtSlot.holdsReturn_fill (run : List Stmt) (slot : StmtSlot) :
    (slot.fill run).holdsReturn = ((slot.fill []).holdsReturn || run.any Stmt.holdsReturn) := by
  cases slot with
  | block id scope inner =>
      simp only [StmtSlot.fill, Stmt.holdsReturn_block]
      exact inner.any_holdsReturn_fill run
  | branchTrue id cond inner whenFalse =>
      simp only [StmtSlot.fill, Stmt.holdsReturn_branch, inner.holdsReturn_fill run]
      rw [Bool.or_right_comm]
  | branchFalse id cond whenTrue inner =>
      simp only [StmtSlot.fill, Stmt.holdsReturn_branch, Option.any_some, inner.holdsReturn_fill run]
      rw [Bool.or_assoc]
  | forBody id init cond step inner =>
      simp only [StmtSlot.fill, Stmt.holdsReturn_forLoop, inner.holdsReturn_fill run]
      rw [Bool.or_assoc]
  | whileBody id cond inner =>
      simp only [StmtSlot.fill, Stmt.holdsReturn_whileLoop]
      exact inner.holdsReturn_fill run
  | case id selector before caseId label inner behind =>
      simp only [StmtSlot.fill, Stmt.holdsReturn_switch, List.flatMap_append, List.flatMap_cons,
        Case.body, List.any_append, inner.any_holdsReturn_fill run]
      rw [Bool.or_right_comm ((inner.fill []).any _), ← Bool.or_assoc]

end

namespace Check
namespace Context

variable {ctx ctx' : Context}

/-- Behind a function only its head is known. -/
theorem alike_behindDecl_withStmts (ctx : Context) (f : Function) (stmts stmts' : List Stmt) :
    (ctx.behindDecl (.function (f.withStmts stmts))).Alike
      (ctx.behindDecl (.function (f.withStmts stmts'))) := by
  by_cases isTaken : ctx.taken.contains f.name = true
  · have unchanged : ∀ stmts, ctx.behindDecl (.function (f.withStmts stmts)) = ctx :=
      fun _ => if_pos isTaken
    rw [unchanged, unchanged]
    exact .refl ctx
  · have extended : ∀ stmts, ctx.behindDecl (.function (f.withStmts stmts)) =
        { ctx.taking f.name with functions := f.withStmts stmts :: ctx.functions } :=
      fun _ => if_neg isTaken
    rw [extended, extended]
    exact { Alike.refl (ctx.taking f.name) with
      functions := .cons ⟨rfl, rfl, rfl⟩ (Alike.refl ctx).functions }

theorem acceptsDecls_of_alike {decls : List Decl} (alike : ctx.Alike ctx')
    (accepted : ctx.AcceptsDecls decls) : ctx'.AcceptsDecls decls := by
  have same : List.Forall₂ (Decl.Alike Eq) decls decls :=
    List.forall₂_same.mpr fun decl _ => .of_refl (fun _ => rfl) decl
  have retypes : Retypes Eq (ctx.placedDecls decls) := fun one _ e' sameExpr => by rw [sameExpr]
  exact (acceptsDecls_iff alike (holdsAlike_self _) same retypes.retypesBy).mp accepted

end Context

theorem hasMain_fill {shader shader' : Shader} {spot : Spot} {run run' : List Stmt}
    (isAt : shader.decls = spot.fill run) (isAt' : shader'.decls = spot.fill run')
    (hasMain : HasMain shader) : HasMain shader' := by
  unfold HasMain Shader.functions at hasMain ⊢
  rw [isAt] at hasMain
  rw [isAt']
  simp only [Spot.fill, List.filterMap_append, List.filterMap_cons, Decl.function?,
    List.filter_append, List.filter_cons, Function.withStmts] at hasMain ⊢
  generalize (spot.before.filterMap Decl.function?).filter (fun f => f.name == "main") = before
    at hasMain ⊢
  generalize (spot.behind.filterMap Decl.function?).filter (fun f => f.name == "main") = behind
    at hasMain ⊢
  by_cases isMain : (spot.function.name == "main") = true
  · simp only [if_pos isMain] at hasMain ⊢
    cases before with
    | nil => cases behind <;> exact hasMain
    | cons first rest => cases rest <;> trivial
  · simp only [if_neg isMain] at hasMain ⊢
    exact hasMain

end Check

namespace Spot

/-- The context of a place in a shader of a version. -/
def ctx (spot : Spot) (version : Version) : Check.Context :=
  ((((Check.Context.initial version).behindDecls spot.before).inFunction spot.function).atSlot
    spot.slot)

/-- What the rules ask around a place. -/
structure FollowsAround (spot : Spot) (version : Version) : Prop where
  before : (Check.Context.initial version).AcceptsDecls spot.before
  notTaken : spot.function.name ∉ ((Check.Context.initial version).behindDecls spot.before).taken
  notReserved : Check.isReservedName spot.function.name = false
  known : ((Check.Context.initial version).behindDecls spot.before).Knows spot.function.returnTy true
  params : ((Check.Context.initial version).behindDecls spot.before).opened.AcceptsParams
    spot.function.params
  slot : (((Check.Context.initial version).behindDecls spot.before).inFunction
    spot.function).AcceptsList (spot.slot.fill [])
  behind : (((Check.Context.initial version).behindDecls spot.before).behindDecl
    (.function (spot.function.withStmts (spot.slot.fill [])))).AcceptsDecls spot.behind

theorem ctx_between (spot : Spot) (version : Version) (front back : List Stmt) :
    (spot.between front back).ctx version = (spot.ctx version).behindList front :=
  Check.Context.atSlot_between _ front back spot.slot

/-- The bindings at a place in a shader. -/
def bindings (spot : Spot) : Bindings :=
  ((Bindings.empty.behindDecls spot.before).behindParams spot.function.params).atSlot spot.slot

end Spot

namespace Shader

variable {shader : Shader} {spot : Spot} {t : Stmt} {run : List Stmt} {version : Version}

/-- What stands at a place is accepted there. -/
theorem acceptsList_at (follows : shader.FollowsRules version) (isAt : shader.decls = spot.fill run) :
    (spot.ctx version).AcceptsList run := by
  have decls := follows.decls
  rw [isAt, Spot.fill, Check.Context.acceptsDecls_append_iff] at decls
  exact Check.Context.acceptsList_atSlot _ spot.slot decls.2.1.body

/-- The expressions that stand at a place are placed there. -/
theorem placedList_subset_placed (isAt : shader.decls = spot.fill run) :
    (spot.ctx version).placedList run ⊆ shader.placed version := by
  intro one listed
  rw [placed, isAt, Spot.fill, Check.Context.placedDecls_append]
  exact List.mem_append_right _ (List.mem_append_left _
    (Check.Context.placedList_atSlot_subset spot.slot listed))

/-- Nothing mentions what a statement declares that declares nothing. -/
theorem unmentioned_of_declared? (declaresNothing : t.declared? = none) (stmts : List Stmt) :
    Reduction.Unmentioned (Stmt.declaredBy [t]) stmts := by
  have nothing : Stmt.declaredBy [t] = [] := by simp [Stmt.declaredBy, declaresNothing]
  rw [nothing]
  exact fun _ listed => absurd listed List.not_mem_nil

/-- What the rules ask around a place, and what they ask of what stands there, in a
shader in which nothing around the place mentions what is declared there. -/
theorem followsRules_fill_iff (isAt : shader.decls = spot.fill run)
    (quiet : Reduction.Unmentioned (Stmt.declaredBy run) (spot.slot.fill [])) :
    shader.FollowsRules version ↔ spot.FollowsAround version ∧ (spot.ctx version).AcceptsList run ∧
      spot.slot.fill run ≠ [] ∧
      (spot.function.returnTy ≠ .void → (spot.slot.fill run).any Stmt.holdsReturn = true) ∧
      Check.HasMain shader := by
  have alike := Check.Context.alike_behindDecl_withStmts
    ((Check.Context.initial version).behindDecls spot.before) spot.function
  have body := @Check.Context.acceptsList_fill_iff
    (((Check.Context.initial version).behindDecls spot.before).inFunction spot.function) run
    spot.slot quiet
  constructor
  · rintro ⟨decls, main⟩
    rw [isAt, Spot.fill, Check.Context.acceptsDecls_append_iff] at decls
    rcases decls with ⟨before, function, behind⟩
    have parts := body.mp function.body
    exact ⟨⟨before, function.notTaken, function.notReserved, function.known, function.params,
      parts.1, Check.Context.acceptsDecls_of_alike (alike _ _) behind⟩,
      parts.2, function.notEmpty, function.returns, main⟩
  · rintro ⟨around, accepted, notEmpty, returns, main⟩
    refine ⟨?_, main⟩
    rw [isAt, Spot.fill, Check.Context.acceptsDecls_append_iff]
    exact ⟨around.before,
      { notTaken := around.notTaken
        notReserved := around.notReserved
        known := around.known
        params := around.params
        notEmpty := notEmpty
        body := body.mpr ⟨around.slot, accepted⟩
        returns := returns },
      Check.Context.acceptsDecls_of_alike (alike _ _) around.behind⟩

/-- What stands at a place is accepted in its context. -/
theorem accepts_at (follows : shader.FollowsRules version) (isAt : shader.decls = spot.fill [t])
    (declaresNothing : t.declared? = none) :
    (((Check.Context.initial version).behindDecls spot.before).inFunction
      spot.function).AcceptsList (spot.slot.fill []) ∧ (spot.ctx version).Accepts t := by
  have quiet := unmentioned_of_declared? declaresNothing (spot.slot.fill [])
  have parts := (followsRules_fill_iff isAt quiet).mp follows
  exact ⟨parts.1.slot, parts.2.1.1⟩

/-- A run of statements may take the place of another one that declares nothing, if it is
accepted there, nothing around it mentions what it declares, and the function still has a
body and its `return`. -/
theorem followsRules_fill_of_run {edited : Shader} {old : List Stmt}
    (follows : shader.FollowsRules version) (isAt : shader.decls = spot.fill old)
    (isEdited : edited.decls = spot.fill run) (declaresNothing : Stmt.declaredBy old = [])
    (accepted : (spot.ctx version).AcceptsList run)
    (quiet : Reduction.Unmentioned (Stmt.declaredBy run) (spot.slot.fill []))
    (notEmpty : spot.slot.fill run ≠ [])
    (returns : spot.function.returnTy ≠ .void → old.any Stmt.holdsReturn = true →
      run.any Stmt.holdsReturn = true) :
    edited.FollowsRules version := by
  have quietBefore : Reduction.Unmentioned (Stmt.declaredBy old) (spot.slot.fill []) := by
    rw [declaresNothing]
    exact fun _ listed => absurd listed List.not_mem_nil
  rcases (followsRules_fill_iff isAt quietBefore).mp follows with ⟨around, _, _, returned, main⟩
  refine (followsRules_fill_iff isEdited quiet).mpr
    ⟨around, accepted, notEmpty, fun notVoid => ?_, Check.hasMain_fill isAt isEdited main⟩
  have before := returned notVoid
  rw [Slot.any_holdsReturn_fill, Bool.or_eq_true] at before
  rw [Slot.any_holdsReturn_fill, Bool.or_eq_true]
  exact before.imp id (returns notVoid)

/-- A run of statements may take the place of another statement if it is accepted
there, nothing around it mentions what it declares, and the function still has a
body and its `return`. -/
theorem followsRules_fill {edited : Shader} (follows : shader.FollowsRules version)
    (isAt : shader.decls = spot.fill [t]) (isEdited : edited.decls = spot.fill run)
    (declaresNothing : t.declared? = none) (accepted : (spot.ctx version).AcceptsList run)
    (quiet : Reduction.Unmentioned (Stmt.declaredBy run) (spot.slot.fill []))
    (notEmpty : spot.slot.fill run ≠ [])
    (returns : spot.function.returnTy ≠ .void → t.holdsReturn = true →
      run.any Stmt.holdsReturn = true) :
    edited.FollowsRules version := by
  refine followsRules_fill_of_run follows isAt isEdited ?_ accepted quiet notEmpty
    fun notVoid holds => returns notVoid (by simpa using holds)
  simp [Stmt.declaredBy, declaresNothing]

/-- Statements that nothing around them mentions come and go without a trace, as long as
others stand beside them and none of them returns. -/
theorem followsRules_insert_iff {edited : Shader} {front back : List Stmt}
    (isAt : shader.decls = spot.fill (front ++ back))
    (isEdited : edited.decls = spot.fill (front ++ (run ++ back)))
    (quiet : Reduction.Unmentioned (Stmt.declaredBy run) (spot.slot.fill (front ++ back)))
    (notAlone : front ++ back ≠ []) (noReturn : run.any Stmt.holdsReturn = false) :
    edited.FollowsRules version ↔
      shader.FollowsRules version ∧ ((spot.ctx version).behindList front).AcceptsList run := by
  have isAt' : shader.decls = (spot.between front back).fill [] := by
    rw [isAt, Spot.fill_between, List.nil_append]
  have isEdited' : edited.decls = (spot.between front back).fill run := by
    rw [isEdited, Spot.fill_between]
  have empty : (spot.between front back).slot.fill [] = spot.slot.fill (front ++ back) := by
    rw [Spot.between, Slot.fill_between, List.nil_append]
  have nothing : Reduction.Unmentioned (Stmt.declaredBy []) ((spot.between front back).slot.fill []) :=
    fun _ listed => absurd listed List.not_mem_nil
  have notEmpty : (spot.between front back).slot.fill [] ≠ [] := by
    rw [empty]
    exact Slot.fill_ne_nil (.inl notAlone)
  have main : Check.HasMain edited ↔ Check.HasMain shader :=
    ⟨Check.hasMain_fill isEdited' isAt', Check.hasMain_fill isAt' isEdited'⟩
  rw [followsRules_fill_iff isEdited' (by rwa [empty]), followsRules_fill_iff isAt' nothing, main,
    Spot.ctx_between, Slot.any_holdsReturn_fill, noReturn, Bool.or_false]
  have notEmpty' := @Slot.fill_ne_nil run _ (.inr notEmpty)
  simp only [Check.Context.AcceptsList, ne_eq, notEmpty, notEmpty', not_false_eq_true, true_and]
  tauto

/-- References around a place resolve as before, and those at the place resolve in
its bindings. -/
theorem mem_references_iff {r : Reference} (isAt : shader.decls = spot.fill run)
    (quiet : Reduction.Unmentioned (Stmt.declaredBy run) (spot.slot.fill [])) :
    r ∈ shader.references ↔ r ∈ Decl.referencesOfList .empty (spot.fill []) ∨
      r ∈ Stmt.referencesOfList spot.bindings run := by
  have append : ∀ (bindings : Bindings) (first second : List Decl),
      Decl.referencesOfList bindings (first ++ second) = Decl.referencesOfList bindings first ++
        Decl.referencesOfList (bindings.behindDecls first) second := by
    intro bindings first second
    induction first generalizing bindings with
    | nil => rfl
    | cons decl rest inductionHypothesis =>
        rw [List.cons_append, Decl.referencesOfList, Decl.referencesOfList, inductionHypothesis,
          List.append_assoc]
        rfl
  rw [references, isAt]
  simp only [Spot.fill, append, Decl.referencesOfList, Decl.references, Function.withStmts,
    List.mem_append, Bindings.behindDecl, Spot.bindings,
    Stmt.mem_referencesOfList_fill_iff spot.slot quiet]
  tauto

end Shader
end Whittle
