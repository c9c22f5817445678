import Mathlib.Data.List.Nodup
import Whittle.Proofs.Identifiers.Edits
import Whittle.Proofs.Syntax.Renewal
import Whittle.Proofs.Typing.Splitting

namespace Whittle
namespace Reduction
namespace VectorSplit

open Check (Context)

/-!
# The parts of a vector split

The edit declares the scalars one behind the other and then replaces one access after
the other.  The declarations are accepted wherever their names are free, and the
replacements are one change of all expressions.
-/

section

variable (varName : String) (ty : Scalar) (shader : Shader) (start : Nat) (args : List Expr)

theorem getElem?_scalarDecls {i : Nat} {arg : Expr} (isArg : args[i]? = some arg) :
    ∃ stmtId varId, (scalarDecls varName ty shader start args).1[i]? =
      some (.decl stmtId ⟨varId, none, .scalar ty, splitName varName (start + i), some arg⟩) := by
  induction args generalizing shader start i with
  | nil => cases isArg
  | cons first rest inductionHypothesis =>
      cases i with
      | zero =>
          cases isArg
          exact ⟨_, _, rfl⟩
      | succ i =>
          have behind := inductionHypothesis shader.freshId.2.freshId.2 (start + 1) isArg
          rwa [Nat.add_right_comm] at behind

theorem length_scalarDecls : (scalarDecls varName ty shader start args).1.length = args.length := by
  induction args generalizing shader start with
  | nil => rfl
  | cons first rest inductionHypothesis => exact congrArg (· + 1) (inductionHypothesis _ _)

theorem rootsOfList_scalarDecls :
    Stmt.rootsOfList (scalarDecls varName ty shader start args).1 = args := by
  induction args generalizing shader start with
  | nil => rfl
  | cons first rest inductionHypothesis => exact congrArg (first :: ·) (inductionHypothesis _ _)

theorem declaredBy_scalarDecls : Stmt.declaredBy (scalarDecls varName ty shader start args).1 =
    (List.range' start args.length).map (splitName varName) := by
  induction args generalizing shader start with
  | nil => rfl
  | cons first rest inductionHypothesis =>
      exact congrArg (splitName varName start :: ·) (inductionHypothesis _ _)

theorem declared_ofStmts_scalarDecls :
    (Names.ofStmts (scalarDecls varName ty shader start args).1).declared =
      (List.range' start args.length).map (splitName varName) := by
  induction args generalizing shader start with
  | nil => rfl
  | cons first rest inductionHypothesis =>
      exact congrArg (splitName varName start :: ·) (inductionHypothesis _ _)

theorem any_holdsReturn_scalarDecls :
    (scalarDecls varName ty shader start args).1.any Stmt.holdsReturn = false := by
  induction args generalizing shader start with
  | nil => rfl
  | cons first rest inductionHypothesis => exact inductionHypothesis _ _

end

section

variable {varName : String} {ty : Scalar} {shader : Shader} {start : Nat} {args : List Expr}
  {ctx : Context}

/-- The scalars may be declared where their initialisers have the type of the scalars and
mention none of them. -/
theorem acceptsList_scalarDecls (letters : start + args.length ≤ 4)
    (typed : ∀ arg ∈ args, ctx.typeOf arg = some (.scalar ty))
    (free : ∀ i ∈ List.range' start args.length, ctx.CanDeclare (splitName varName i))
    (quiet : ∀ i ∈ List.range' start args.length, ∀ arg ∈ args,
      splitName varName i ∉ (Names.ofExpr arg).referenced) :
    ctx.AcceptsList (scalarDecls varName ty shader start args).1 := by
  induction args generalizing shader start ctx with
  | nil => trivial
  | cons arg rest inductionHypothesis =>
      rw [List.length_cons] at letters
      rw [List.length_cons, List.range'_succ, List.forall_mem_cons] at free quiet
      rw [List.forall_mem_cons] at typed
      have stays : ∀ s : Stmt, Stmt.declaredBy [s] = [splitName varName start] →
          ∀ other ∈ rest, (ctx.behind s).typeOf other = some (.scalar ty) := by
        intro s declares other listed
        refine @Context.typeOf_behindList ctx other _ [s] (fun name isName => ?_) (typed.2 other listed)
        rw [declares, List.mem_singleton] at isName
        exact isName ▸ quiet.1 other (List.mem_cons_of_mem _ listed)
      refine ⟨⟨rfl, trivial, nofun, fun init isInit => ?_, free.1⟩,
        inductionHypothesis (by omega) (stays _ rfl) (fun i inRange => ?_)
          fun i inRange other listed => quiet.2 i inRange other (List.mem_cons_of_mem _ listed)⟩
      · cases isInit
        exact typed.1
      · refine ⟨(free.2 i inRange).1, ?_⟩
        rw [Context.behind, Context.behindVar, Context.inner_declared, if_neg]
        · exact (free.2 i inRange).2
        · rintro ⟨_, same⟩
          rw [List.mem_range'_1] at inRange
          have := splitName_inj (by omega) (by omega) same
          omega

/-- Behind the declarations, the scalars may be written. -/
theorem lookup?_behindList_scalarDecls (letters : start + args.length ≤ 4)
    (notReserved : ∀ i ∈ List.range' start args.length,
      Check.isReservedName (splitName varName i) = false)
    {i : Nat} (inRange : i ∈ List.range' start args.length) :
    (ctx.behindList (scalarDecls varName ty shader start args).1).lookup? (splitName varName i) =
      some ⟨.scalar ty, true⟩ := by
  induction args generalizing shader start ctx with
  | nil => cases inRange
  | cons arg rest inductionHypothesis =>
      rw [List.length_cons] at letters
      rw [List.length_cons, List.range'_succ, List.forall_mem_cons] at notReserved
      rw [List.length_cons, List.range'_succ, List.mem_cons] at inRange
      rcases inRange with rfl | behind
      · have beside := Context.beside_behindList
          (ctx.declared (splitName varName i) ⟨.scalar ty, true⟩)
          (scalarDecls varName ty shader.freshId.2.freshId.2 (i + 1) rest).1
        refine (beside.lookup? fun isLater => ?_).trans ?_
        · rw [declaredBy_scalarDecls] at isLater
          rcases List.mem_map.mp isLater with ⟨j, inRange, same⟩
          rw [List.mem_range'_1] at inRange
          have := splitName_inj (by omega) (by omega) same
          omega
        · rw [Context.lookup?_declared, if_pos ⟨notReserved.1, rfl⟩]
      · exact inductionHypothesis (by omega) notReserved.2 behind

/-- What no scalar changes holds in all initialisers and behind the declarations. -/
theorem allAt_scalarDecls {Q : (String → Option Check.Binding) → Prop}
    (keeps : ∀ see i, Q see → Q fun other =>
      if other = splitName varName i then some ⟨.scalar ty, true⟩ else see other)
    (holds : Q ctx.lookup?) :
    Context.AllAt (fun ctx => Q ctx.lookup?)
        (ctx.placedList (scalarDecls varName ty shader start args).1) ∧
      Q (ctx.behindList (scalarDecls varName ty shader start args).1).lookup? := by
  induction args generalizing shader start ctx with
  | nil => exact ⟨List.forall_mem_nil _, holds⟩
  | cons arg rest inductionHypothesis =>
      have behind : Q (ctx.declared (splitName varName start) ⟨.scalar ty, true⟩).lookup? := by
        unfold Context.declared
        split
        · exact holds
        · rw [funext fun other => Context.lookup?_bound ctx (splitName varName start) other
            ⟨.scalar ty, true⟩]
          exact keeps _ start holds
      have others := @inductionHypothesis shader.freshId.2.freshId.2 (start + 1) _ behind
      exact ⟨Context.allAt_cons holds others.1, others.2⟩

end

open Whittle.Expr (rewrite changeBy)

/-- The changes of the accesses by identifier: each one becomes a new variable. -/
def steps (edit : VectorSplit) (next : NodeId) :
    List (NodeId × Nat) → List (NodeId × (Expr → Expr))
  | [] => []
  | (target, component) :: rest =>
      (target, fun _ => .var next (splitName edit.varName component)) :: edit.steps (next + 1) rest

variable {edit : VectorSplit} {next : NodeId} {accesses : List (NodeId × Nat)}

theorem steps_eq : edit.steps next accesses =
    (Renewal.references Prod.fst fun access => splitName edit.varName access.2).steps next accesses := by
  induction accesses generalizing next with
  | nil => rfl
  | cons access rest inductionHypothesis => exact congrArg (_ :: ·) inductionHypothesis

theorem map_fst_steps : (edit.steps next accesses).map Prod.fst = accesses.map Prod.fst := by
  rw [steps_eq, Renewal.map_fst_steps]
  rfl

/-- Where each target has one access, it becomes the variable for its component. -/
theorem exists_lookup_steps {target : NodeId} {component : Nat}
    (distinct : (accesses.map Prod.fst).Nodup) (listed : (target, component) ∈ accesses) :
    ∃ id, (edit.steps next accesses).lookup target =
      some fun _ => .var id (splitName edit.varName component) := by
  rw [steps_eq]
  rcases @Renewal.exists_lookup_steps _
    (.references Prod.fst fun access => splitName edit.varName access.2) next _ _ listed with
    ⟨change, isStep⟩
  rcases Renewal.exists_of_lookup_steps _ isStep with ⟨access, isAccess, later, _, sameTarget, rfl⟩
  cases List.inj_on_of_nodup_map distinct isAccess listed sameTarget
  exact ⟨later, isStep⟩

/-- Replacing accesses one after the other is a step for each. -/
theorem foldl_replaceAccess {base : Shader} (numbered : base.IsNumbered)
    (distinct : (accesses.map Prod.fst).Nodup) (old : ∀ access ∈ accesses, access.1 < base.nextId) :
    accesses.foldl edit.replaceAccess base =
      Shader.mapExprs (rewrite (changeBy (edit.steps base.nextId accesses)))
        { base with nextId := base.nextId + accesses.length } := by
  have folded := (Renewal.references Prod.fst fun access : NodeId × Nat =>
    splitName edit.varName access.2).foldl_replace numbered distinct old
  rw [← steps_eq, show (Renewal.references Prod.fst _).cost = 1 from rfl, Nat.one_mul] at folded
  exact folded

/-- What the edit does to expressions, if the new variables are numbered from `next` on. -/
def change (edit : VectorSplit) (next : NodeId) : Expr → Expr :=
  rewrite (changeBy (edit.steps next edit.accesses))

end VectorSplit
end Reduction
end Whittle
