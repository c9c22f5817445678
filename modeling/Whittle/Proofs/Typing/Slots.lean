import Whittle.Proofs.Syntax.Slot
import Whittle.Proofs.Typing.Hosting

namespace Whittle
namespace Check
namespace Context

open Reduction (Names Jumps Unmentioned)

/-!
# Checking at a place

A list of statements with a run at a place is accepted if it is without the run
and the run is accepted in the context of the place, as long as nothing around
the place mentions what the run declares there.
-/

mutual

def atSlot (ctx : Context) : Slot → Context
  | .here before _ => ctx.behindList before
  | .within before inner _ => (ctx.behindList before).atStmtSlot inner

/-- The context at a place in a list within a statement. -/
def atStmtSlot (ctx : Context) : StmtSlot → Context
  | .block _ _ inner => ctx.opened.atSlot inner
  | .branchTrue _ _ inner _ => ctx.opened.atStmtSlot inner
  | .branchFalse _ _ _ inner => ctx.opened.atStmtSlot inner
  | .forBody _ init _ _ inner =>
      match inner with
      | .block _ _ inner => (ctx.header init).inLoop.atSlot inner
      | inner => (ctx.header init).inLoop.opened.atStmtSlot inner
  | .whileBody _ _ inner => ctx.inLoop.opened.atStmtSlot inner
  | .case _ _ before _ _ inner _ => (ctx.inSwitch.opened.behindCases before).atSlot inner

end

variable {ctx ctx' : Context} {apart : List String}

/-- The contexts agree but for these names in the innermost scope. -/
structure Beside (apart : List String) (ctx ctx' : Context) : Prop where
  around : ctx' = { ctx with inner := ctx'.inner }
  inner : ∀ name, name ∉ apart → ctx'.inner.lookup name = ctx.inner.lookup name

namespace Beside

theorem refl (apart : List String) (ctx : Context) : Beside apart ctx ctx :=
  ⟨rfl, fun _ _ => rfl⟩

theorem symm (beside : Beside apart ctx ctx') : Beside apart ctx' ctx where
  around := by
    rw [beside.around]
  inner name notApart := (beside.inner name notApart).symm

theorem lookup? (beside : Beside apart ctx ctx') {name : String} (notApart : name ∉ apart) :
    ctx'.lookup? name = ctx.lookup? name := by
  have outer : ctx'.outer = ctx.outer := by rw [beside.around]
  simp only [Context.lookup?, List.findSome?_cons, beside.inner name notApart, outer]

theorem declared (beside : Beside apart ctx ctx') (name : String) (binding : Binding) :
    Beside apart (ctx.declared name binding) (ctx'.declared name binding) where
  around := by
    unfold Context.declared
    split
    · exact beside.around
    · rw [beside.around]
      rfl
  inner other notApart := by rw [inner_declared, inner_declared, beside.inner other notApart]

theorem behind (beside : Beside apart ctx ctx') (s : Stmt) :
    Beside apart (ctx.behind s) (ctx'.behind s) := by
  cases s with
  | decl id var => exact beside.declared _ _
  | _ => exact beside

theorem behindList (beside : Beside apart ctx ctx') (stmts : List Stmt) :
    Beside apart (ctx.behindList stmts) (ctx'.behindList stmts) := by
  induction stmts generalizing ctx ctx' with
  | nil => exact beside
  | cons s rest inductionHypothesis => exact inductionHypothesis (beside.behind s)

/-- What mentions none of these names is at home in both contexts. -/
theorem hosts {stmts : List Stmt} (beside : Beside apart ctx ctx')
    (notReferenced : ∀ name ∈ apart, name ∉ (Names.ofStmts stmts).referenced)
    (notDeclared : ∀ name ∈ apart, name ∉ Stmt.declaredBy stmts) : Hosts stmts ctx ctx' where
  version := by rw [beside.around]
  structs := by
    rw [beside.around]
    exact fun _ _ isDecl => isDecl
  calls := by
    rw [beside.around]
    exact fun _ _ _ isTy => isTy
  lookups name listed := beside.lookup? fun isApart => notReferenced name isApart listed
  free name listed := by
    rw [beside.inner name fun isApart => notDeclared name isApart listed]
    exact id
  breaks _ := by
    rw [beside.around]
    exact id
  continues _ := by
    rw [beside.around]
    exact id
  returns _ := by rw [beside.around]

end Beside

theorem declaredBy_cons_decl (id : NodeId) (var : VarDecl) (rest : List Stmt) :
    Stmt.declaredBy (.decl id var :: rest) = var.name :: Stmt.declaredBy rest := by
  simp [Stmt.declaredBy, Stmt.declared?]

/-- A run of statements adds what it declares to the innermost scope. -/
theorem beside_behindList (ctx : Context) (run : List Stmt) :
    Beside (Stmt.declaredBy run) ctx (ctx.behindList run) := by
  induction run generalizing ctx with
  | nil => exact .refl _ ctx
  | cons s rest inductionHypothesis =>
      have next := inductionHypothesis (ctx.behind s)
      cases s with
      | decl id var =>
          rw [declaredBy_cons_decl]
          refine ⟨?_, fun name notDeclared => ?_⟩
          · rw [behindList, next.around]
            simp only [behind, behindVar, Context.declared]
            split <;> rfl
          · rw [List.mem_cons, not_or] at notDeclared
            rw [behindList, next.inner name notDeclared.2, behind, behindVar, inner_declared,
              if_neg fun both => notDeclared.1 both.2]
      | _ => exact next

theorem behindList_append (ctx : Context) (first second : List Stmt) :
    ctx.behindList (first ++ second) = (ctx.behindList first).behindList second := by
  induction first generalizing ctx with
  | nil => rfl
  | cons s rest inductionHypothesis => exact inductionHypothesis (ctx.behind s)

theorem acceptsList_append_iff {first second : List Stmt} :
    ctx.AcceptsList (first ++ second) ↔
      ctx.AcceptsList first ∧ (ctx.behindList first).AcceptsList second := by
  induction first generalizing ctx with
  | nil => exact ⟨fun accepted => ⟨trivial, accepted⟩, And.right⟩
  | cons s rest inductionHypothesis =>
      rw [List.cons_append, AcceptsList, AcceptsList, inductionHypothesis, and_assoc]
      rfl

theorem placedList_append (ctx : Context) (first second : List Stmt) :
    ctx.placedList (first ++ second) =
      ctx.placedList first ++ (ctx.behindList first).placedList second := by
  induction first generalizing ctx with
  | nil => rfl
  | cons s rest inductionHypothesis =>
      rw [List.cons_append, placedList, inductionHypothesis, ← List.append_assoc]
      rfl

mutual

/-- Between two runs, the first one is declared. -/
theorem atSlot_between (ctx : Context) (front back : List Stmt) (slot : Slot) :
    ctx.atSlot (slot.between front back) = (ctx.atSlot slot).behindList front := by
  cases slot with
  | here before behind => exact behindList_append ctx before front
  | within before inner behind => exact atStmtSlot_between _ front back inner

theorem atStmtSlot_between (ctx : Context) (front back : List Stmt) (slot : StmtSlot) :
    ctx.atStmtSlot (slot.between front back) = (ctx.atStmtSlot slot).behindList front := by
  cases slot with
  | block _ _ inner | case _ _ _ _ _ inner _ => exact atSlot_between _ front back inner
  | branchTrue _ _ inner _ | branchFalse _ _ _ inner | whileBody _ _ inner =>
      exact atStmtSlot_between _ front back inner
  | forBody id init cond step inner =>
      cases inner with
      | block bodyId scope inner => exact atSlot_between _ front back inner
      | _ => exact atStmtSlot_between (ctx.header init).inLoop.opened front back _

end

/-- A statement with a place in it declares nothing. -/
theorem behind_fill (ctx : Context) (run : List Stmt) (slot : StmtSlot) :
    ctx.behind (slot.fill run) = ctx := by
  cases slot <;> rfl

theorem beside_fill (ctx : Context) (run : List Stmt) (slot : Slot) :
    Beside (Stmt.declaredBy run) (ctx.behindList (slot.fill [])) (ctx.behindList (slot.fill run)) := by
  cases slot with
  | here before behind =>
      simp only [Slot.fill, behindList_append, List.nil_append]
      exact (beside_behindList _ run).behindList behind
  | within before inner behind =>
      simp only [Slot.fill, behindList_append, behindList, behind_fill]
      exact .refl _ _

theorem acceptsCases_append_iff {before : List Label} {first second : List Case} :
    ctx.AcceptsCases before (first ++ second) ↔
      ctx.AcceptsCases before first ∧
        (ctx.behindCases first).AcceptsCases ((first.map Case.label).reverse ++ before) second := by
  induction first generalizing ctx before with
  | nil => exact ⟨fun accepted => ⟨trivial, accepted⟩, And.right⟩
  | cons one rest inductionHypothesis =>
      cases one with
      | mk id label body =>
          rw [List.cons_append, AcceptsCases, AcceptsCases, inductionHypothesis, and_assoc, and_assoc,
            List.map_cons, List.reverse_cons, List.append_assoc]
          rfl

theorem placedCases_append (ctx : Context) (first second : List Case) :
    ctx.placedCases (first ++ second) =
      ctx.placedCases first ++ (ctx.behindCases first).placedCases second := by
  induction first generalizing ctx with
  | nil => rfl
  | cons one rest inductionHypothesis =>
      cases one with
      | mk id label body =>
          rw [List.cons_append, placedCases, inductionHypothesis, ← List.append_assoc]
          rfl

theorem acceptsDecls_append_iff {first second : List Decl} :
    ctx.AcceptsDecls (first ++ second) ↔
      ctx.AcceptsDecls first ∧ (ctx.behindDecls first).AcceptsDecls second := by
  induction first generalizing ctx with
  | nil => exact ⟨fun accepted => ⟨trivial, accepted⟩, And.right⟩
  | cons decl rest inductionHypothesis =>
      rw [List.cons_append, AcceptsDecls, AcceptsDecls, inductionHypothesis, and_assoc]
      rfl

theorem placedDecls_append (ctx : Context) (first second : List Decl) :
    ctx.placedDecls (first ++ second) =
      ctx.placedDecls first ++ (ctx.behindDecls first).placedDecls second := by
  induction first generalizing ctx with
  | nil => rfl
  | cons decl rest inductionHypothesis =>
      rw [List.cons_append, placedDecls, inductionHypothesis, ← List.append_assoc]
      rfl

theorem Beside.acceptsList_iff {stmts : List Stmt} (beside : Beside apart ctx ctx')
    (quiet : Unmentioned apart stmts) : ctx'.AcceptsList stmts ↔ ctx.AcceptsList stmts := by
  have notDeclared : ∀ name ∈ apart, name ∉ Stmt.declaredBy stmts := fun name isApart listed =>
    (quiet name isApart).2 (Names.declaredBy_subset stmts listed)
  have notReferenced := fun name isApart => (quiet name isApart).1
  exact ⟨acceptsList_of_hosts (beside.symm.hosts notReferenced notDeclared),
    acceptsList_of_hosts (beside.hosts notReferenced notDeclared)⟩

theorem Beside.acceptsCases_iff {before : List Label} {cases : List Case}
    (beside : Beside apart ctx ctx') (quiet : Unmentioned apart (cases.flatMap Case.body)) :
    ctx'.AcceptsCases before cases ↔ ctx.AcceptsCases before cases := by
  have notDeclared : ∀ name ∈ apart, name ∉ Stmt.declaredBy (cases.flatMap Case.body) :=
    fun name isApart listed => (quiet name isApart).2 (Names.declaredBy_subset _ listed)
  have notReferenced := fun name isApart => (quiet name isApart).1
  exact ⟨acceptsCases_of_hosts (beside.symm.hosts notReferenced notDeclared),
    acceptsCases_of_hosts (beside.hosts notReferenced notDeclared)⟩

mutual

/-- A list of statements is accepted with a run at a place just if the rest and
the run are, provided that nothing around the place mentions what the run
declares. -/
theorem acceptsList_fill_iff {ctx : Context} {run : List Stmt} (slot : Slot)
    (quiet : Unmentioned (Stmt.declaredBy run) (slot.fill [])) :
    ctx.AcceptsList (slot.fill run) ↔
      ctx.AcceptsList (slot.fill []) ∧ (ctx.atSlot slot).AcceptsList run := by
  cases slot with
  | here before behind =>
      simp only [Slot.fill, List.nil_append, Unmentioned.append_iff] at quiet
      simp only [Slot.fill, List.nil_append, acceptsList_append_iff, atSlot,
        (beside_behindList _ run).acceptsList_iff quiet.2]
      tauto
  | within before inner behind =>
      simp only [Slot.fill, Unmentioned.append_iff] at quiet
      rw [Unmentioned.cons_iff] at quiet
      simp only [Slot.fill, acceptsList_append_iff, AcceptsList, behind_fill, atSlot,
        accepts_fill_iff inner quiet.2.1]
      tauto

theorem accepts_fill_iff {ctx : Context} {run : List Stmt} (slot : StmtSlot)
    (quiet : Unmentioned (Stmt.declaredBy run) [slot.fill []]) :
    ctx.Accepts (slot.fill run) ↔
      ctx.Accepts (slot.fill []) ∧ (ctx.atStmtSlot slot).AcceptsList run := by
  cases slot with
  | block id scope inner =>
      rw [StmtSlot.fill, Unmentioned, Names.ofStmts_block] at quiet
      exact acceptsList_fill_iff inner quiet
  | branchTrue id cond inner whenFalse =>
      simp only [StmtSlot.fill, Unmentioned, Names.ofStmts_branch, Names.join, List.mem_append,
        not_or] at quiet
      simp only [StmtSlot.fill, Accepts, atStmtSlot, accepts_fill_iff inner
        fun name listed => ⟨(quiet name listed).1.2.1, (quiet name listed).2.2.1⟩]
      tauto
  | branchFalse id cond whenTrue inner =>
      simp only [StmtSlot.fill, Unmentioned, Names.ofStmts_branch, Names.join, List.mem_append,
        not_or, Option.toList_some] at quiet
      simp only [StmtSlot.fill, Accepts, AcceptsOption, atStmtSlot, accepts_fill_iff inner
        fun name listed => ⟨(quiet name listed).1.2.2, (quiet name listed).2.2.2⟩]
      tauto
  | forBody id init cond step inner =>
      simp only [StmtSlot.fill, Unmentioned, Names.ofStmts_forLoop, Names.join, List.mem_append,
        not_or] at quiet
      have ofBody : Unmentioned (Stmt.declaredBy run) [inner.fill []] := fun name listed =>
        ⟨(quiet name listed).1.2.2.2, (quiet name listed).2.2.2.2⟩
      have inBody : (ctx.header init).inLoop.AcceptsBody (inner.fill run) ↔
          (ctx.header init).inLoop.AcceptsBody (inner.fill []) ∧
            (ctx.atStmtSlot (.forBody id init cond step inner)).AcceptsList run := by
        cases inner with
        | block bodyId scope inner =>
            rw [StmtSlot.fill, Unmentioned, Names.ofStmts_block] at ofBody
            exact acceptsList_fill_iff inner ofBody
        | _ => exact accepts_fill_iff _ ofBody
      rw [StmtSlot.fill, StmtSlot.fill, accepts_forLoop_iff, accepts_forLoop_iff, inBody]
      tauto
  | whileBody id cond inner =>
      simp only [StmtSlot.fill, Unmentioned, Names.ofStmts_whileLoop, Names.join, List.mem_append,
        not_or] at quiet
      simp only [StmtSlot.fill, Accepts, atStmtSlot, accepts_fill_iff inner
        fun name listed => ⟨(quiet name listed).1.2, (quiet name listed).2.2⟩]
      tauto
  | case id selector before caseId label inner behind =>
      have ofCases : Unmentioned (Stmt.declaredBy run)
          ((before ++ .mk caseId label (inner.fill []) :: behind).flatMap Case.body) := by
        intro name listed
        have := quiet name listed
        simp only [StmtSlot.fill, Names.ofStmts_switch, Names.join, List.mem_append, not_or] at this
        exact ⟨this.1.2, this.2.2⟩
      rw [List.flatMap_append, List.flatMap_cons, Unmentioned.append_iff, Unmentioned.append_iff]
        at ofCases
      have nonempty : ∀ body, before ++ Case.mk caseId label body :: behind ≠ [] := by simp
      simp only [StmtSlot.fill, Accepts, acceptsCases_append_iff, AcceptsCases, atStmtSlot,
        acceptsList_fill_iff inner ofCases.2.1, (beside_fill _ run inner).acceptsCases_iff ofCases.2.2,
        ne_eq, nonempty, not_false_eq_true]
      tauto

end

/-! ## What stands at a place -/

variable {run : List Stmt}

mutual

/-- What stands at a place of accepted statements is accepted there. -/
theorem acceptsList_atSlot (ctx : Context) (slot : Slot)
    (accepted : ctx.AcceptsList (slot.fill run)) : (ctx.atSlot slot).AcceptsList run := by
  cases slot with
  | here before behind =>
      rw [Slot.fill, acceptsList_append_iff, acceptsList_append_iff] at accepted
      exact accepted.2.1
  | within before inner behind =>
      rw [Slot.fill, acceptsList_append_iff] at accepted
      exact acceptsList_atStmtSlot _ inner accepted.2.1

theorem acceptsList_atStmtSlot (ctx : Context) (slot : StmtSlot)
    (accepted : ctx.Accepts (slot.fill run)) : (ctx.atStmtSlot slot).AcceptsList run := by
  cases slot with
  | block id scope inner => exact acceptsList_atSlot _ inner accepted
  | branchTrue id cond inner whenFalse => exact acceptsList_atStmtSlot _ inner accepted.2.1
  | branchFalse id cond whenTrue inner => exact acceptsList_atStmtSlot _ inner accepted.2.2
  | forBody id init cond step inner =>
      rw [StmtSlot.fill, accepts_forLoop_iff] at accepted
      have inBody := accepted.2.2.2.2
      cases inner with
      | block bodyId scope inner => exact acceptsList_atSlot _ inner inBody
      | _ => exact acceptsList_atStmtSlot (ctx.header init).inLoop.opened _ inBody
  | whileBody id cond inner => exact acceptsList_atStmtSlot _ inner accepted.2
  | case id selector before caseId label inner behind =>
      have inCases := accepted.2.2.2
      rw [acceptsCases_append_iff] at inCases
      exact acceptsList_atSlot _ inner inCases.2.2.1

end

mutual

/-- What is placed in a run is placed around it as well. -/
theorem placedList_atSlot_subset {ctx : Context} (slot : Slot) :
    (ctx.atSlot slot).placedList run ⊆ ctx.placedList (slot.fill run) := by
  cases slot with
  | here before behind =>
      rw [Slot.fill, placedList_append, placedList_append]
      exact fun one listed => List.mem_append_right _ (List.mem_append_left _ listed)
  | within before inner behind =>
      rw [Slot.fill, placedList_append]
      exact fun one listed => List.mem_append_right _ (List.mem_append_left _
        (placedList_atStmtSlot_subset inner listed))

theorem placedList_atStmtSlot_subset {ctx : Context} (slot : StmtSlot) :
    (ctx.atStmtSlot slot).placedList run ⊆ ctx.placed (slot.fill run) := by
  intro one listed
  cases slot with
  | block id scope inner => exact placedList_atSlot_subset inner listed
  | branchTrue id cond inner whenFalse =>
      exact List.mem_cons_of_mem _ (List.mem_append_left _
        (placedList_atStmtSlot_subset inner listed))
  | branchFalse id cond whenTrue inner =>
      exact List.mem_cons_of_mem _ (List.mem_append_right _
        (placedList_atStmtSlot_subset inner listed))
  | forBody id init cond step inner =>
      rw [StmtSlot.fill, placed_forLoop]
      refine List.mem_append_right _ (List.mem_append_right _ (List.mem_append_right _ ?_))
      cases inner with
      | block bodyId scope inner => exact placedList_atSlot_subset inner listed
      | _ => exact placedList_atStmtSlot_subset _ listed
  | whileBody id cond inner =>
      exact List.mem_cons_of_mem _ (placedList_atStmtSlot_subset inner listed)
  | case id selector before caseId label inner behind =>
      refine List.mem_cons_of_mem _ ?_
      rw [placedCases_append]
      exact List.mem_append_right _ (List.mem_append_left _ (placedList_atSlot_subset inner listed))

end

/-- The second context lies within the first one, and only these names are
declared between them. -/
structure Encloses (between : List String) (ctx ctx' : Context) : Prop where
  version : ctx'.version = ctx.version
  structs : ctx'.structs = ctx.structs
  functions : ctx'.functions = ctx.functions
  returnTy : ctx'.returnTy = ctx.returnTy
  loops : ctx.loops ≤ ctx'.loops
  switches : ctx.switches ≤ ctx'.switches
  lookups : ∀ name, name ∉ between → ctx'.lookup? name = ctx.lookup? name
  free : ∀ name, name ∉ between → ctx.inner.lookup name = none → ctx'.inner.lookup name = none

namespace Encloses

variable {between : List String} {ctx'' : Context}

theorem refl (between : List String) (ctx : Context) : Encloses between ctx ctx :=
  ⟨rfl, rfl, rfl, rfl, Nat.le_refl _, Nat.le_refl _, fun _ _ => rfl, fun _ _ isFree => isFree⟩

theorem trans (first : Encloses between ctx ctx') (second : Encloses between ctx' ctx'') :
    Encloses between ctx ctx'' where
  version := second.version.trans first.version
  structs := second.structs.trans first.structs
  functions := second.functions.trans first.functions
  returnTy := second.returnTy.trans first.returnTy
  loops := Nat.le_trans first.loops second.loops
  switches := Nat.le_trans first.switches second.switches
  lookups name apart := (second.lookups name apart).trans (first.lookups name apart)
  free name apart isFree := second.free name apart (first.free name apart isFree)

theorem opened (between : List String) (ctx : Context) : Encloses between ctx ctx.opened :=
  { refl between ctx with free := fun _ _ _ => rfl, lookups := fun _ _ => rfl }

theorem inLoop (between : List String) (ctx : Context) : Encloses between ctx ctx.inLoop :=
  { refl between ctx with loops := Nat.le_succ _, lookups := fun _ _ => rfl }

theorem inSwitch (between : List String) (ctx : Context) : Encloses between ctx ctx.inSwitch :=
  { refl between ctx with switches := Nat.le_succ _, lookups := fun _ _ => rfl }

theorem of_beside (listed : apart ⊆ between) (beside : Beside apart ctx ctx') :
    Encloses between ctx ctx' := by
  have lookups : ∀ name, name ∉ between → ctx'.lookup? name = ctx.lookup? name :=
    fun name notListed => beside.lookup? fun isApart => notListed (listed isApart)
  have free : ∀ name, name ∉ between → ctx.inner.lookup name = none →
      ctx'.inner.lookup name = none := fun name notListed isFree =>
    (beside.inner name fun isApart => notListed (listed isApart)).trans isFree
  rw [beside.around] at lookups free ⊢
  exact ⟨rfl, rfl, rfl, rfl, Nat.le_refl _, Nat.le_refl _, lookups, free⟩

theorem behindList {stmts : List Stmt} (listed : Stmt.declaredBy stmts ⊆ between) :
    Encloses between ctx (ctx.behindList stmts) :=
  of_beside listed (beside_behindList ctx stmts)

theorem behindCases {cases : List Case}
    (listed : Stmt.declaredBy (cases.flatMap Case.body) ⊆ between) :
    Encloses between ctx (ctx.behindCases cases) := by
  induction cases generalizing ctx with
  | nil => exact refl between ctx
  | cons one rest inductionHypothesis =>
      cases one with
      | mk id label body =>
          rw [List.flatMap_cons, Stmt.declaredBy_append, List.append_subset] at listed
          exact (behindList listed.1).trans (inductionHypothesis listed.2)

theorem header {init : Option Stmt} (listed : Stmt.declaredBy init.toList ⊆ between) :
    Encloses between ctx (ctx.header init) := by
  cases init with
  | none => exact opened between ctx
  | some s =>
      unfold Context.header
      dsimp only
      split
      · exact (opened between ctx).trans (@behindList _ between [s] listed)
      · exact opened between ctx

theorem declared {name : String} (listed : name ∈ between) (binding : Binding) :
    Encloses between ctx (ctx.declared name binding) := by
  refine of_beside (List.cons_subset.mpr ⟨listed, List.nil_subset _⟩) ⟨?_, fun other differ => ?_⟩
  · unfold Context.declared
    split <;> rfl
  · rw [inner_declared, if_neg fun both => differ (List.mem_singleton.mpr both.2)]

theorem behindParams {params : List Param} (listed : params.map Param.name ⊆ between) :
    Encloses between ctx (ctx.behindParams params) := by
  induction params generalizing ctx with
  | nil => exact refl between ctx
  | cons param rest inductionHypothesis =>
      rw [List.map_cons, List.cons_subset] at listed
      exact (declared listed.1 _).trans (inductionHypothesis listed.2)

theorem mono {more : List String} (encloses : Encloses between ctx ctx') (listed : between ⊆ more) :
    Encloses more ctx ctx' :=
  { encloses with
    lookups := fun name apart => encloses.lookups name fun isBetween => apart (listed isBetween)
    free := fun name apart => encloses.free name fun isBetween => apart (listed isBetween) }

/-- Statements may move from a context to one around it if they do not refer to
what is declared between the two, declare what is new in the outer one, and if no
jump that leaves them belongs to a loop or a switch between the two. -/
theorem hosts {stmts : List Stmt} (encloses : Encloses between ctx ctx')
    (apart : ∀ name ∈ between, name ∉ (Names.ofStmts stmts).referenced)
    (free : ∀ name ∈ Stmt.declaredBy stmts, ctx.inner.lookup name = none)
    (breaks : (Jumps.ofStmts stmts).breaks ≠ 0 →
      ctx'.loops = ctx.loops ∧ ctx'.switches = ctx.switches)
    (continues : (Jumps.ofStmts stmts).continues ≠ 0 → ctx'.loops = ctx.loops) :
    Hosts stmts ctx' ctx where
  version := encloses.version.symm
  structs name decl := by
    rw [struct?, struct?, encloses.structs]
    exact id
  calls callee args ty := by
    simp only [call, struct?, function?, encloses.structs, encloses.functions]
    exact id
  lookups name listed := (encloses.lookups name fun isBetween => apart name isBetween listed).symm
  free name listed _ := free name listed
  breaks leaves := by
    rw [(breaks leaves).1, (breaks leaves).2]
    exact id
  continues leaves := by
    rw [continues leaves]
    exact id
  returns _ := encloses.returnTy.symm

end Encloses

/-- A new scope takes in whatever the scope around it would. -/
theorem hosts_opened (ctx : Context) (stmts : List Stmt) : Hosts stmts ctx ctx.opened where
  version := rfl
  structs _ _ := id
  calls _ _ _ := id
  lookups _ _ := rfl
  free _ _ _ := rfl
  breaks _ := id
  continues _ := id
  returns _ := rfl

theorem typeOf_opened {e : Expr} {ty : Ty} (isTy : ctx.typeOf e = some ty) :
    ctx.opened.typeOf e = some ty :=
  (hosts_opened ctx [.expr .unnumbered e]).typeOf_eq_some
    (by rw [referenced_ofStmts_expr]; exact List.Subset.refl _) isTy

/-- An expression has its type behind statements that declare nothing it refers to. -/
theorem typeOf_behindList {e : Expr} {ty : Ty} {run : List Stmt}
    (quiet : ∀ name ∈ Stmt.declaredBy run, name ∉ (Names.ofExpr e).referenced)
    (isTy : ctx.typeOf e = some ty) : (ctx.behindList run).typeOf e = some ty := by
  have hosts : Hosts [.expr .unnumbered e] ctx (ctx.behindList run) :=
    (beside_behindList ctx run).hosts (by rwa [referenced_ofStmts_expr]) fun _ _ => List.not_mem_nil
  exact hosts.toCovers.typeOf_eq_some
    (by rw [referenced_ofStmts_expr]; exact List.Subset.refl _) isTy

mutual

/-- Around a place, only what stands there is declared. -/
theorem encloses_atSlot (ctx : Context) (slot : Slot) :
    Encloses (Names.ofStmts (slot.fill [])).declared ctx (ctx.atSlot slot) := by
  cases slot with
  | here before behind =>
      refine Encloses.behindList fun name listed => ?_
      rw [Slot.fill, Names.ofStmts_append]
      exact List.mem_append_left _ (Names.declaredBy_subset _ listed)
  | within before inner behind =>
      rw [Slot.fill, Names.ofStmts_append, Names.ofStmts_cons]
      refine Encloses.trans (Encloses.behindList fun name listed =>
        List.mem_append_left _ (Names.declaredBy_subset _ listed))
        ((encloses_atStmtSlot _ inner).mono fun name listed => ?_)
      exact List.mem_append_right _ (List.mem_append_left _ listed)

theorem encloses_atStmtSlot (ctx : Context) (slot : StmtSlot) :
    Encloses (Names.ofStmts [slot.fill []]).declared ctx (ctx.atStmtSlot slot) := by
  cases slot with
  | block id scope inner =>
      rw [StmtSlot.fill, Names.ofStmts_block]
      exact (Encloses.opened _ ctx).trans (encloses_atSlot _ inner)
  | branchTrue id cond inner whenFalse =>
      rw [StmtSlot.fill, Names.ofStmts_branch]
      exact (Encloses.opened _ ctx).trans ((encloses_atStmtSlot _ inner).mono
        fun name listed => List.mem_append_right _ (List.mem_append_left _ listed))
  | branchFalse id cond whenTrue inner =>
      rw [StmtSlot.fill, Names.ofStmts_branch]
      exact (Encloses.opened _ ctx).trans ((encloses_atStmtSlot _ inner).mono
        fun name listed => List.mem_append_right _ (List.mem_append_right _ listed))
  | forBody id init cond step inner =>
      rw [StmtSlot.fill, Names.ofStmts_forLoop]
      have header : Encloses ((Names.ofStmts init.toList).join ((Names.ofExprs cond.toList).join
          ((Names.ofExprs step.toList).join (Names.ofStmts [inner.fill []])))).declared
            ctx (ctx.header init).inLoop :=
        (Encloses.header fun name listed =>
          List.mem_append_left _ (Names.declaredBy_subset _ listed)).trans (Encloses.inLoop _ _)
      have ofBody : (Names.ofStmts [inner.fill []]).declared ⊆
          ((Names.ofStmts init.toList).join ((Names.ofExprs cond.toList).join
            ((Names.ofExprs step.toList).join (Names.ofStmts [inner.fill []])))).declared :=
        fun name listed => List.mem_append_right _ (List.mem_append_right _
          (List.mem_append_right _ listed))
      cases inner with
      | block bodyId scope inner =>
          rw [StmtSlot.fill, Names.ofStmts_block] at header ofBody ⊢
          exact header.trans ((encloses_atSlot _ inner).mono ofBody)
      | _ =>
          exact header.trans ((Encloses.opened _ _).trans ((encloses_atStmtSlot _ _).mono ofBody))
  | whileBody id cond inner =>
      rw [StmtSlot.fill, Names.ofStmts_whileLoop]
      exact (Encloses.inLoop _ ctx).trans ((Encloses.opened _ _).trans
        ((encloses_atStmtSlot _ inner).mono fun name listed => List.mem_append_right _ listed))
  | case id selector before caseId label inner behind =>
      rw [StmtSlot.fill, Names.ofStmts_switch, List.flatMap_append, List.flatMap_cons,
        Names.ofStmts_append, Names.ofStmts_append]
      refine (Encloses.inSwitch _ ctx).trans ((Encloses.opened _ _).trans
        ((Encloses.behindCases fun name listed => ?_).trans
          ((encloses_atSlot _ inner).mono fun name listed => ?_)))
      · exact List.mem_append_right _ (List.mem_append_left _ (Names.declaredBy_subset _ listed))
      · exact List.mem_append_right _ (List.mem_append_right _ (List.mem_append_left _ listed))

end

end Context
end Check
end Whittle
