import Whittle.Proofs.Typing.Lacking
import Whittle.Proofs.Typing.Slots

namespace Whittle
namespace Check
namespace Context

open Reduction (Names)

/-!
# Dropping statements at a place

A run of statements at a place goes, or gives way to another one that declares less.
The code behind the place does without the variables that are no longer declared.
-/

/-- The second list is accepted in the second context.  It holds expressions of the first
list with the types they have in the first context, and what is behind it may lack
these variables. -/
structure Carried (vars : List String) (ctx ctx' : Context) (stmts stmts' : List Stmt) : Prop where
  accepted : ctx'.AcceptsList stmts'
  leaves : Leaves (ctx.placedList stmts) (ctx'.placedList stmts')
  behind : Lacks vars [] [] (ctx.behindList stmts) (ctx'.behindList stmts')

/-- Wherever the first run is accepted, the second one can stand for it as long as nothing
refers to these variables. -/
def StandsFor (vars : List String) (run run' : List Stmt) : Prop :=
  ∀ ctx : Context, ctx.AcceptsList run → Carried vars ctx ctx run run'

variable {vars : List String} {ctx ctx' : Context} {run run' stmts stmts' : List Stmt}

theorem avoids_nil (ty : Ty) : Avoids [] ty :=
  fun _ _ => List.not_mem_nil

/-- A context lacks nothing of itself. -/
theorem Lacks.refl (vars functions : List String) (ctx : Context) : Lacks vars [] functions ctx ctx where
  version := rfl
  returnTy := rfl
  loops := rfl
  switches := rfl
  taken := List.Subset.refl _
  free _ isFree := isFree
  lookups _ _ := rfl
  struct _ _ := rfl
  function _ _ := rfl
  varTys _ binding _ := avoids_nil binding.ty
  fieldTys _ _ field _ := avoids_nil field.ty
  returnTys f _ := avoids_nil f.returnTy

/-- The expressions that are placed here spare the variables. -/
def SparesPlaced (vars : List String) (all : List Placed) : Prop :=
  ∀ one ∈ all, Lacks.Spares vars [] [] (Names.ofExpr one.e)

theorem sparesPlaced_append {first second : List Placed} :
    SparesPlaced vars (first ++ second) ↔ SparesPlaced vars first ∧ SparesPlaced vars second :=
  List.forall_mem_append

theorem SparesPlaced.tail {one : Placed} {rest : List Placed} (spares : SparesPlaced vars (one :: rest)) :
    SparesPlaced vars rest :=
  fun other listed => spares other (List.mem_cons_of_mem _ listed)

theorem sparesPlaced_placedList {stmts : List Stmt}
    (spares : ∀ e ∈ stmts.flatMap Stmt.roots, Lacks.Spares vars [] [] (Names.ofExpr e))
    (ctx : Context) : SparesPlaced vars (ctx.placedList stmts) := by
  intro one listed
  have isRoot := List.mem_map_of_mem (f := Placed.e) listed
  rw [map_e_placedList, Stmt.rootsOfList_eq_flatMap] at isRoot
  exact spares one.e isRoot

namespace Carried

/-- Statements that spare the variables are accepted without them. -/
theorem of_lacks (lacks : Lacks vars [] [] ctx ctx') (spares : SparesPlaced vars (ctx.placedList stmts))
    (accepted : ctx.AcceptsList stmts) : Carried vars ctx ctx' stmts stmts := by
  have fit : FitVars (Avoids []) (Stmt.substmtsOfList stmts) := fun _ _ var _ => avoids_nil var.ty
  have unchanged := Stmt.mapExprsList_id stmts
  refine ⟨?_, ?_, ?_⟩
  · have accepted' := Lacks.persistent.acceptsList lacks fit (Lacks.carries spares) accepted
    rwa [unchanged] at accepted'
  · have becomes : List.Forall₂ (Placed.Becomes (Lacks vars [] []) fun e => e) _ _ :=
      Lacks.persistent.placedList lacks fit
    rw [unchanged] at becomes
    exact Lacks.leaves spares becomes
  · have behind : Lacks vars [] [] _ (ctx'.behindList (Stmt.mapExprsList (fun e => e) stmts)) :=
      Lacks.persistent.behindList lacks fit
    rwa [unchanged] at behind

/-- Cases that spare the variables are accepted without them. -/
theorem cases_of_lacks (lacks : Lacks vars [] [] ctx ctx') {before : List Label} {cases : List Case}
    (spares : SparesPlaced vars (ctx.placedCases cases)) (accepted : ctx.AcceptsCases before cases) :
    ctx'.AcceptsCases before cases ∧ Leaves (ctx.placedCases cases) (ctx'.placedCases cases) := by
  have fit : FitVars (Avoids []) (Stmt.substmtsOfCases cases) := fun _ _ var _ => avoids_nil var.ty
  have accepted' := Lacks.persistent.acceptsCases lacks fit (Lacks.carries spares) accepted
  have becomes : List.Forall₂ (Placed.Becomes (Lacks vars [] []) fun e => e) _ _ :=
    Lacks.persistent.placedCases lacks fit
  rw [Stmt.mapExprsCases_id] at accepted' becomes
  exact ⟨accepted', Lacks.leaves spares becomes⟩

theorem append {behind behind' : List Stmt} (first : Carried vars ctx ctx' stmts stmts')
    (second : Carried vars (ctx.behindList stmts) (ctx'.behindList stmts') behind behind') :
    Carried vars ctx ctx' (stmts ++ behind) (stmts' ++ behind') where
  accepted := acceptsList_append_iff.mpr ⟨first.accepted, second.accepted⟩
  leaves := by
    rw [placedList_append, placedList_append]
    exact first.leaves.append second.leaves
  behind := by
    rw [behindList_append, behindList_append]
    exact second.behind

end Carried

mutual

/-- A run that stands for another one may take its place in a list. -/
theorem StandsFor.fill (stands : StandsFor vars run run') {ctx : Context} (slot : Slot)
    (spares : SparesPlaced vars (ctx.placedList (slot.fill run)))
    (accepted : ctx.AcceptsList (slot.fill run)) :
    Carried vars ctx ctx (slot.fill run) (slot.fill run') := by
  cases slot with
  | here before behind =>
      rw [Slot.fill, placedList_append, placedList_append, sparesPlaced_append,
        sparesPlaced_append] at spares
      rw [Slot.fill, acceptsList_append_iff, acceptsList_append_iff] at accepted
      have inFront := Carried.of_lacks (.refl vars [] ctx) spares.1 accepted.1
      have atPlace := stands _ accepted.2.1
      exact inFront.append (atPlace.append (.of_lacks atPlace.behind spares.2.2 accepted.2.2))
  | within before inner behind =>
      rw [Slot.fill, placedList_append, placedList, sparesPlaced_append, sparesPlaced_append,
        behind_fill] at spares
      rw [Slot.fill, acceptsList_append_iff, AcceptsList, behind_fill] at accepted
      have inFront := Carried.of_lacks (.refl vars [] ctx) spares.1 accepted.1
      have within := StandsFor.fillStmt stands inner spares.2.1 accepted.2.1
      refine inFront.append ⟨⟨within.1, ?_⟩, ?_, ?_⟩
      · rw [behind_fill]
        exact accepted.2.2
      · rw [placedList, placedList, behind_fill, behind_fill]
        exact within.2.append (.refl _)
      · rw [behindList, behindList, behind_fill, behind_fill]
        exact .refl vars [] _

/-- A run that stands for another one may take its place within a statement. -/
theorem StandsFor.fillStmt (stands : StandsFor vars run run') {ctx : Context} (slot : StmtSlot)
    (spares : SparesPlaced vars (ctx.placed (slot.fill run)))
    (accepted : ctx.Accepts (slot.fill run)) :
    ctx.Accepts (slot.fill run') ∧ Leaves (ctx.placed (slot.fill run)) (ctx.placed (slot.fill run')) := by
  cases slot with
  | block id scope inner =>
      have within := StandsFor.fill stands inner spares accepted
      exact ⟨within.accepted, within.leaves⟩
  | branchTrue id cond inner whenFalse =>
      have within := StandsFor.fillStmt stands inner (sparesPlaced_append.mp spares.tail).1
        accepted.2.1
      exact ⟨⟨accepted.1, within.1, accepted.2.2⟩, .cons _ (within.2.append (.refl _))⟩
  | branchFalse id cond whenTrue inner =>
      have within := StandsFor.fillStmt stands inner (sparesPlaced_append.mp spares.tail).2
        accepted.2.2
      exact ⟨⟨accepted.1, accepted.2.1, within.1⟩, .cons _ ((Leaves.refl _).append within.2)⟩
  | forBody id init cond step inner =>
      rw [StmtSlot.fill, accepts_forLoop_iff] at accepted
      rw [StmtSlot.fill, placed_forLoop, sparesPlaced_append, sparesPlaced_append,
        sparesPlaced_append] at spares
      have inBody := accepted.2.2.2.2
      have ofBody := spares.2.2.2
      have within : (ctx.header init).inLoop.AcceptsBody (inner.fill run') ∧
          Leaves ((ctx.header init).inLoop.placedBody (inner.fill run))
            ((ctx.header init).inLoop.placedBody (inner.fill run')) := by
        cases inner with
        | block bodyId scope inner =>
            have within := StandsFor.fill stands inner ofBody inBody
            exact ⟨within.accepted, within.leaves⟩
        | _ => exact StandsFor.fillStmt stands _ ofBody inBody
      rw [StmtSlot.fill, StmtSlot.fill, accepts_forLoop_iff, placed_forLoop, placed_forLoop]
      exact ⟨⟨accepted.1, accepted.2.1, accepted.2.2.1, accepted.2.2.2.1, within.1⟩,
        (Leaves.refl _).append ((Leaves.refl _).append ((Leaves.refl _).append within.2))⟩
  | whileBody id cond inner =>
      have within := StandsFor.fillStmt stands inner spares.tail accepted.2
      exact ⟨⟨accepted.1, within.1⟩, .cons _ within.2⟩
  | case id selector before caseId label inner behind =>
      have ofCases := spares.tail
      rw [placedCases_append, placedCases, sparesPlaced_append, sparesPlaced_append] at ofCases
      rcases accepted with ⟨hasSwitch, isSelector, _, accepted⟩
      rw [acceptsCases_append_iff, AcceptsCases] at accepted
      have within := StandsFor.fill stands inner ofCases.2.1 accepted.2.2.1
      have rest := Carried.cases_of_lacks within.behind ofCases.2.2 accepted.2.2.2
      refine ⟨⟨hasSwitch, isSelector, by simp, ?_⟩, .cons _ ?_⟩
      · rw [acceptsCases_append_iff]
        exact ⟨accepted.1, accepted.2.1, within.accepted, rest.1⟩
      · rw [placedCases_append, placedCases_append, placedCases, placedCases]
        exact (Leaves.refl _).append (within.leaves.append rest.2)

end

/-- A statement that declares nothing may go without a trace. -/
theorem standsFor_nil {s : Stmt} (declaresNothing : s.declared? = none) : StandsFor vars [s] [] := by
  intro ctx _
  refine ⟨trivial, .nil _, ?_⟩
  have same : ctx.behindList [s] = ctx := by
    cases s <;> first | rfl | cases declaresNothing
  rw [same]
  exact .refl vars [] ctx

/-- In front of its declaration, a variable is missing. -/
theorem lacks_behindVar (ctx : Context) (var : VarDecl) :
    Lacks [var.name] [] [] (ctx.behindVar var) ctx :=
  (Lacks.refl [var.name] [] ctx).undeclared List.mem_cons_self (avoids_nil var.ty)

/-- The declaration of a variable may go with its initialiser. -/
theorem standsFor_decl (id : NodeId) (var : VarDecl) : StandsFor [var.name] [.decl id var] [] :=
  fun ctx _ => ⟨trivial, .nil _, lacks_behindVar ctx var⟩

/-- The initialiser of a variable may stay without the variable. -/
theorem standsFor_init (id id' : NodeId) {var : VarDecl} {init : Expr} (isInit : var.init = some init) :
    StandsFor [var.name] [.decl id var] [.expr id' init] := by
  intro ctx accepted
  have isTy := accepted.1.2.initialised init isInit
  refine ⟨⟨Option.isSome_of_eq_some isTy, trivial⟩, ?_, lacks_behindVar ctx var⟩
  have placed : ctx.placedList [.decl id var] = [⟨ctx, init⟩] := by
    simp only [placedList, Context.placed, placedOption, isInit, List.append_nil]
    rfl
  rw [placed]
  exact .refl _

/-- Where a parameter is missing, its variable is, and the others are declared as well. -/
theorem Lacks.behindParams_eraseIdx (lacks : Lacks vars [] [] ctx ctx') {params : List Param}
    {position : Nat} {param : Param} (isParam : params[position]? = some param)
    (isMissing : param.name ∈ vars) (accepted : ctx.AcceptsParams params) :
    ctx'.AcceptsParams (params.eraseIdx position) ∧
      Lacks vars [] [] (ctx.behindParams params) (ctx'.behindParams (params.eraseIdx position)) := by
  have fit : ∀ params : List Param, ∀ param ∈ params, Avoids [] param.ty := fun _ param _ =>
    avoids_nil param.ty
  induction params generalizing ctx ctx' position with
  | nil => cases isParam
  | cons first rest inductionHypothesis =>
      cases position with
      | zero =>
          cases isParam
          have missing : Lacks vars [] [] (ctx.declared param.name ⟨param.ty, true⟩) ctx' :=
            lacks.undeclared isMissing (avoids_nil _)
          exact ⟨persistentTop.acceptsParams missing (fit rest) accepted.2.2,
            persistentTop.behindParams missing (fit rest)⟩
      | succ position =>
          have next := inductionHypothesis (lacks.declared first.name (avoids_nil first.ty))
            isParam accepted.2.2
          exact ⟨⟨lacks.knows (avoids_nil _) accepted.1,
            ⟨accepted.2.1.1, lacks.free _ accepted.2.1.2⟩, next.1⟩, next.2⟩

end Context
end Check
end Whittle
