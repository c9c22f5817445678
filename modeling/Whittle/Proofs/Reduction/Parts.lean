import Whittle.Reduction.Jumps
import Whittle.Reduction.Names

namespace Whittle

/-!
# Analyses and the parts of a statement

Which names a statement uses, whether it returns, and which jumps leave it are
questions about its parts.  The equations here answer them for each form of
statement, so that an induction on statements need not open the analyses.
-/

-- The equations of the functions that list the parts of a statement.
attribute [grind =] Stmt.substmts Stmt.substmtsOfOption Stmt.roots Stmt.rootsOfOption Stmt.declared?

namespace Stmt

theorem holdsReturn_block (id scope : NodeId) (stmts : List Stmt) :
    (Stmt.block id scope stmts).holdsReturn = stmts.any holdsReturn := by
  simp only [holdsReturn, substmts, isReturn, substmtsOfList_eq_flatMap, List.any_flatMap,
    List.any_cons, Bool.false_or]
  rfl

theorem holdsReturn_branch (id : NodeId) (cond : Expr) (whenTrue : Stmt)
    (whenFalse : Option Stmt) :
    (Stmt.branch id cond whenTrue whenFalse).holdsReturn =
      (whenTrue.holdsReturn || whenFalse.any holdsReturn) := by
  cases whenFalse <;> simp [holdsReturn, substmts, isReturn, substmtsOfOption]

theorem holdsReturn_forLoop (id : NodeId) (init : Option Stmt) (cond step : Option Expr)
    (body : Stmt) :
    (Stmt.forLoop id init cond step body).holdsReturn =
      (init.any holdsReturn || body.holdsReturn) := by
  cases init <;> simp [holdsReturn, substmts, isReturn, substmtsOfOption]

theorem holdsReturn_whileLoop (id : NodeId) (cond : Expr) (body : Stmt) :
    (Stmt.whileLoop id cond body).holdsReturn = body.holdsReturn := by
  simp [holdsReturn, substmts, isReturn]

theorem holdsReturn_switch (id : NodeId) (selector : Expr) (cases : List Case) :
    (Stmt.switch id selector cases).holdsReturn =
      (cases.flatMap Case.body).any holdsReturn := by
  simp only [holdsReturn, substmts, isReturn, substmtsOfCases_eq_flatMap, List.any_flatMap,
    List.any_cons, Bool.false_or]
  rfl

def declaredBy (stmts : List Stmt) : List String :=
  (stmts.filterMap declared?).map VarDecl.name

theorem declaredBy_append (first second : List Stmt) :
    declaredBy (first ++ second) = declaredBy first ++ declaredBy second := by
  rw [declaredBy, List.filterMap_append, List.map_append]
  rfl

end Stmt

namespace Reduction

namespace Jumps

theorem ofStmts_append (first second : List Stmt) :
    ofStmts (first ++ second) = (ofStmts first).add (ofStmts second) := by
  induction first with
  | nil => simp [ofStmts, add, none]
  | cons s rest inductionHypothesis =>
      rw [List.cons_append, ofStmts, inductionHypothesis, ofStmts]
      simp only [add, Nat.add_assoc]

theorem ofStmts_singleton (s : Stmt) : ofStmts [s] = ofStmt s :=
  rfl

theorem ofCases_eq (cases : List Case) : ofCases cases = ofStmts (cases.flatMap Case.body) := by
  induction cases with
  | nil => rfl
  | cons one rest inductionHypothesis =>
      cases one with
      | mk id label body => rw [ofCases, inductionHypothesis, List.flatMap_cons, ofStmts_append]; rfl

end Jumps

namespace Names

theorem ofStmts_append (first second : List Stmt) :
    ofStmts (first ++ second) = (ofStmts first).join (ofStmts second) := by
  simp [ofStmts, ofExprs, join, none]

theorem ofStmts_cons (s : Stmt) (rest : List Stmt) :
    ofStmts (s :: rest) = (ofStmts [s]).join (ofStmts rest) :=
  ofStmts_append [s] rest

theorem ofStmts_block (id scope : NodeId) (stmts : List Stmt) :
    ofStmts [.block id scope stmts] = ofStmts stmts := by
  simp [ofStmts, Stmt.substmts, Stmt.roots, Stmt.substmtsOfList_eq_flatMap,
    Stmt.rootsOfList_eq_flatMap, Stmt.declared?, List.filterMap_cons]

theorem ofStmts_branch (id : NodeId) (cond : Expr) (whenTrue : Stmt) (whenFalse : Option Stmt) :
    ofStmts [.branch id cond whenTrue whenFalse] =
      (ofExpr cond).join ((ofStmts [whenTrue]).join (ofStmts whenFalse.toList)) := by
  cases whenFalse <;>
  simp [ofStmts, ofExpr, ofExprs, join, none, Stmt.substmts, Stmt.roots, Stmt.substmtsOfOption,
    Stmt.rootsOfOption, Stmt.declared?, List.filterMap_cons]

theorem ofStmts_forLoop (id : NodeId) (init : Option Stmt) (cond step : Option Expr) (body : Stmt) :
    ofStmts [.forLoop id init cond step body] =
      (ofStmts init.toList).join ((ofExprs cond.toList).join
        ((ofExprs step.toList).join (ofStmts [body]))) := by
  cases init <;>
  simp [ofStmts, ofExprs, join, none, Stmt.substmts, Stmt.roots, Stmt.substmtsOfOption,
    Stmt.rootsOfOption, Stmt.declared?, List.filterMap_cons]

theorem ofStmts_whileLoop (id : NodeId) (cond : Expr) (body : Stmt) :
    ofStmts [.whileLoop id cond body] = (ofExpr cond).join (ofStmts [body]) := by
  simp [ofStmts, ofExpr, ofExprs, join, none, Stmt.substmts, Stmt.roots, Stmt.declared?, List.filterMap_cons]

theorem ofStmts_switch (id : NodeId) (selector : Expr) (cases : List Case) :
    ofStmts [.switch id selector cases] =
      (ofExpr selector).join (ofStmts (cases.flatMap Case.body)) := by
  simp [ofStmts, ofExpr, ofExprs, join, none, Stmt.substmts, Stmt.roots, Stmt.declared?, List.filterMap_cons,
    Stmt.substmtsOfCases_eq_flatMap, Stmt.rootsOfCases_eq_flatMap, List.flatMap_assoc]

/-- What a list declares in its own scope is part of all that it declares. -/
theorem declaredBy_subset (stmts : List Stmt) : Stmt.declaredBy stmts ⊆ (ofStmts stmts).declared := by
  induction stmts with
  | nil => exact List.nil_subset _
  | cons s rest inductionHypothesis =>
      rw [← List.singleton_append, Stmt.declaredBy_append, ofStmts_append]
      refine List.append_subset.mpr ⟨fun name listed => List.mem_append_left _ ?_,
        fun name listed => List.mem_append_right _ (inductionHypothesis listed)⟩
      cases s with
      | decl id var => simpa [Stmt.declaredBy, ofStmts, Stmt.substmts, Stmt.declared?] using listed
      | _ => simp [Stmt.declaredBy, Stmt.declared?] at listed

end Names

/-- All names that the statements declare, in whatever scope, are of a kind. -/
def Declares (fits : String → Prop) (stmts : List Stmt) : Prop :=
  ∀ name ∈ (Names.ofStmts stmts).declared, fits name

namespace Declares

variable {fits : String → Prop} {id : NodeId}

theorem append_iff {first second : List Stmt} :
    Declares fits (first ++ second) ↔ Declares fits first ∧ Declares fits second := by
  rw [Declares, Names.ofStmts_append]
  exact List.forall_mem_append

theorem cons_iff {s : Stmt} {rest : List Stmt} :
    Declares fits (s :: rest) ↔ Declares fits [s] ∧ Declares fits rest :=
  @append_iff fits [s] rest

theorem decl_iff {var : VarDecl} : Declares fits [.decl id var] ↔ fits var.name := by
  simp [Declares, Names.ofStmts, Stmt.substmts, Stmt.declared?]

theorem block_iff {scope : NodeId} {stmts : List Stmt} :
    Declares fits [.block id scope stmts] ↔ Declares fits stmts := by
  rw [Declares, Names.ofStmts_block, Declares]

theorem branch_iff {cond : Expr} {whenTrue : Stmt} {whenFalse : Option Stmt} :
    Declares fits [.branch id cond whenTrue whenFalse] ↔
      Declares fits [whenTrue] ∧ Declares fits whenFalse.toList := by
  simp only [Declares, Names.ofStmts_branch, Names.join, Names.ofExpr, Names.ofExprs, Names.none,
    List.nil_append, List.forall_mem_append]

theorem forLoop_iff {init : Option Stmt} {cond step : Option Expr} {body : Stmt} :
    Declares fits [.forLoop id init cond step body] ↔
      Declares fits init.toList ∧ Declares fits [body] := by
  simp only [Declares, Names.ofStmts_forLoop, Names.join, Names.ofExprs, Names.none,
    List.nil_append, List.forall_mem_append]

theorem whileLoop_iff {cond : Expr} {body : Stmt} :
    Declares fits [.whileLoop id cond body] ↔ Declares fits [body] := by
  rw [Declares, Names.ofStmts_whileLoop]
  exact .rfl

theorem switch_iff {selector : Expr} {cases : List Case} :
    Declares fits [.switch id selector cases] ↔ Declares fits (cases.flatMap Case.body) := by
  rw [Declares, Names.ofStmts_switch]
  exact .rfl

end Declares

/-- No variable of these names is referred to or declared in the statements. -/
def Unmentioned (names : List String) (stmts : List Stmt) : Prop :=
  ∀ name ∈ names, name ∉ (Names.ofStmts stmts).referenced ∧ name ∉ (Names.ofStmts stmts).declared

namespace Unmentioned

variable {names : List String}

theorem append_iff {first second : List Stmt} :
    Unmentioned names (first ++ second) ↔ Unmentioned names first ∧ Unmentioned names second := by
  simp only [Unmentioned, Names.ofStmts_append, Names.join, List.mem_append, not_or]
  grind

theorem cons_iff {s : Stmt} {rest : List Stmt} :
    Unmentioned names (s :: rest) ↔ Unmentioned names [s] ∧ Unmentioned names rest :=
  @append_iff names [s] rest

end Unmentioned
end Reduction
end Whittle
