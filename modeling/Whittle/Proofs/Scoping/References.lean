import Whittle.Proofs.Reduction.Parts
import Whittle.Proofs.Syntax.Slot

namespace Whittle

open Reduction (Names)

/-!
# What references mean

A reference means the variable of its name that was declared last among those in
scope.  Variables are told apart by the identifiers of their declarations, so a
reference that is moved, or around which declarations come and go, still means
the same just if it resolves to the same identifier.
-/

/-- What names stand for at some point of a program: the identifier of a
variable or a parameter, or nothing if there is none in scope.  The variables
that every shader has are declared nowhere. -/
abbrev Bindings := String → Option NodeId

namespace Bindings

/-- Nothing is declared. -/
def empty : Bindings := fun _ => none

/-- The bindings behind a declaration, which hides others of its name. -/
def bind (bindings : Bindings) (name : String) (id : NodeId) : Bindings :=
  fun other => if other = name then some id else bindings other

/-- The bindings behind a statement in a list. -/
def behind (bindings : Bindings) : Stmt → Bindings
  | .decl _ var => bindings.bind var.name var.id
  | _ => bindings

def behindList (bindings : Bindings) : List Stmt → Bindings
  | [] => bindings
  | s :: rest => (bindings.behind s).behindList rest

/-- The bindings behind the cases of a switch, which share a scope. -/
def behindCases (bindings : Bindings) : List Case → Bindings
  | [] => bindings
  | .mk _ _ body :: rest => (bindings.behindList body).behindCases rest

/-- The bindings in the header and the body of a loop. -/
def header (bindings : Bindings) (init : Option Stmt) : Bindings :=
  bindings.behindList init.toList

/-- The bindings in the body of a function. -/
def behindParams (bindings : Bindings) : List Param → Bindings
  | [] => bindings
  | param :: rest => (bindings.bind param.name param.id).behindParams rest

/-- The bindings behind a top-level declaration.  Functions and structs are not
variables. -/
def behindDecl (bindings : Bindings) : Decl → Bindings
  | .global var => bindings.bind var.name var.id
  | _ => bindings

def behindDecls (bindings : Bindings) : List Decl → Bindings
  | [] => bindings
  | decl :: rest => (bindings.behindDecl decl).behindDecls rest

end Bindings

/-- A reference to a variable, with the declaration that it resolves to. -/
structure Reference where
  id : NodeId
  name : String
  decl : Option NodeId
deriving DecidableEq

def Expr.reference? (bindings : Bindings) : Expr → Option Reference
  | .var id name => some ⟨id, name, bindings name⟩
  | _ => none

def Expr.references (bindings : Bindings) (roots : List Expr) : List Reference :=
  (roots.flatMap Expr.subexprs).filterMap (Expr.reference? bindings)

namespace Stmt

mutual

/-- The references in a statement.  What a statement within declares is not in
scope behind it, except for the initialiser of a loop, and for the statements of
a list. -/
def references (bindings : Bindings) : Stmt → List Reference
  | .decl _ var => Expr.references bindings var.init.toList
  | .expr _ e => Expr.references bindings [e]
  | .block _ _ stmts => referencesOfList bindings stmts
  | .branch _ cond whenTrue whenFalse =>
      Expr.references bindings [cond] ++
        (whenTrue.references bindings ++ referencesOfOption bindings whenFalse)
  | .forLoop _ init cond step body =>
      referencesOfOption bindings init ++
        (Expr.references (bindings.header init) cond.toList ++
          (Expr.references (bindings.header init) step.toList ++
            body.references (bindings.header init)))
  | .whileLoop _ cond body => Expr.references bindings [cond] ++ body.references bindings
  | .switch _ selector cases =>
      Expr.references bindings [selector] ++ referencesOfCases bindings cases
  | .ret _ value => Expr.references bindings value.toList
  | .breakOut _ | .continueLoop _ | .discard _ | .empty _ => []

def referencesOfList (bindings : Bindings) : List Stmt → List Reference
  | [] => []
  | s :: rest => s.references bindings ++ referencesOfList (bindings.behind s) rest

def referencesOfOption (bindings : Bindings) : Option Stmt → List Reference
  | none => []
  | some s => s.references bindings

def referencesOfCases (bindings : Bindings) : List Case → List Reference
  | [] => []
  | .mk _ _ body :: rest =>
      referencesOfList bindings body ++ referencesOfCases (bindings.behindList body) rest

end

end Stmt

def Decl.references (bindings : Bindings) : Decl → List Reference
  | .precision _ | .struct _ => []
  | .global var => Expr.references bindings var.init.toList
  | .function f => Stmt.referencesOfList (bindings.behindParams f.params) f.body.stmts

def Decl.referencesOfList (bindings : Bindings) : List Decl → List Reference
  | [] => []
  | decl :: rest =>
      decl.references bindings ++ Decl.referencesOfList (bindings.behindDecl decl) rest

/-- The references in a shader, each with the declaration that it resolves to. -/
def Shader.references (shader : Shader) : List Reference :=
  Decl.referencesOfList .empty shader.decls

/-! ## References look at the names they mention -/

variable {bindings bindings' : Bindings}

/-- The names stand for the same in both bindings. -/
def Bindings.SameOn (names : List String) (bindings bindings' : Bindings) : Prop :=
  ∀ name ∈ names, bindings' name = bindings name

namespace Bindings

variable {names : List String}

theorem SameOn.mono {fewer : List String} (same : SameOn names bindings bindings')
    (listed : fewer ⊆ names) : SameOn fewer bindings bindings' :=
  fun name isListed => same name (listed isListed)

theorem SameOn.bind (same : SameOn names bindings bindings') (name : String) (id : NodeId) :
    SameOn names (bindings.bind name id) (bindings'.bind name id) := by
  intro other listed
  rw [Bindings.bind, Bindings.bind, same other listed]

theorem SameOn.behind (same : SameOn names bindings bindings') (s : Stmt) :
    SameOn names (bindings.behind s) (bindings'.behind s) := by
  cases s with
  | decl id var => exact same.bind _ _
  | _ => exact same

theorem SameOn.behindList (same : SameOn names bindings bindings') (stmts : List Stmt) :
    SameOn names (bindings.behindList stmts) (bindings'.behindList stmts) := by
  induction stmts generalizing bindings bindings' with
  | nil => exact same
  | cons s rest inductionHypothesis => exact inductionHypothesis (same.behind s)

/-- A list of statements changes the bindings of what it declares. -/
theorem behindList_eq_of_notMem (bindings : Bindings) {stmts : List Stmt} {name : String}
    (notDeclared : name ∉ Stmt.declaredBy stmts) : bindings.behindList stmts name = bindings name := by
  induction stmts generalizing bindings with
  | nil => rfl
  | cons s rest inductionHypothesis =>
      rw [← List.singleton_append, Stmt.declaredBy_append, List.mem_append, not_or] at notDeclared
      rw [behindList, inductionHypothesis _ notDeclared.2]
      cases s with
      | decl id var =>
          have differ : name ≠ var.name := by
            simpa [Stmt.declaredBy, Stmt.declared?] using notDeclared.1
          rw [Bindings.behind, Bindings.bind, if_neg differ]
      | _ => rfl

theorem behindList_append (bindings : Bindings) (first second : List Stmt) :
    bindings.behindList (first ++ second) = (bindings.behindList first).behindList second := by
  induction first generalizing bindings with
  | nil => rfl
  | cons s rest inductionHypothesis => exact inductionHypothesis (bindings.behind s)

end Bindings

open Bindings (SameOn)

theorem Expr.references_congr {roots : List Expr}
    (same : SameOn (Names.ofExprs roots).referenced bindings bindings') :
    Expr.references bindings' roots = Expr.references bindings roots := by
  unfold Expr.references
  refine List.filterMap_congr fun e isPart => ?_
  cases e with
  | var id name =>
      have listed : name ∈ (Names.ofExprs roots).referenced :=
        List.mem_filterMap.mpr ⟨.var id name, isPart, rfl⟩
      rw [Expr.reference?, Expr.reference?, same name listed]
  | _ => rfl

namespace Stmt

mutual

/-- References resolve alike where the names that are referred to stand for the
same. -/
theorem references_congr {bindings bindings' : Bindings} {s : Stmt}
    (same : SameOn (Names.ofStmts [s]).referenced bindings bindings') :
    s.references bindings' = s.references bindings := by
  cases s with
  | decl id var | ret id value =>
      refine Expr.references_congr (same.mono ?_)
      simp [Names.ofStmts, Stmt.roots]
  | expr id e =>
      refine Expr.references_congr (same.mono ?_)
      simp [Names.ofStmts, Stmt.roots]
  | block id scope stmts =>
      rw [Names.ofStmts_block] at same
      exact referencesOfList_congr same
  | branch id cond whenTrue whenFalse =>
      rw [Names.ofStmts_branch] at same
      rw [references, references,
        Expr.references_congr (same.mono (List.subset_append_left _ _)),
        references_congr (same.mono fun name listed =>
          List.mem_append_right _ (List.mem_append_left _ listed))]
      cases whenFalse with
      | none => rfl
      | some s =>
          rw [referencesOfOption, referencesOfOption, references_congr (s := s)
            (same.mono fun name listed => List.mem_append_right _ (List.mem_append_right _ listed))]
  | forLoop id init cond step body =>
      rw [Names.ofStmts_forLoop] at same
      have header : SameOn _ (bindings.header init) (bindings'.header init) := same.behindList _
      rw [references, references,
        Expr.references_congr (header.mono fun name listed =>
          List.mem_append_right _ (List.mem_append_left _ listed)),
        Expr.references_congr (header.mono fun name listed =>
          List.mem_append_right _ (List.mem_append_right _ (List.mem_append_left _ listed))),
        references_congr (header.mono fun name listed =>
          List.mem_append_right _ (List.mem_append_right _ (List.mem_append_right _ listed)))]
      cases init with
      | none => rfl
      | some s =>
          rw [referencesOfOption, referencesOfOption, references_congr (s := s)
            (same.mono (List.subset_append_left _ _))]
  | whileLoop id cond body =>
      rw [Names.ofStmts_whileLoop] at same
      rw [references, references,
        Expr.references_congr (same.mono (List.subset_append_left _ _)),
        references_congr (same.mono (List.subset_append_right _ _))]
  | switch id selector cases =>
      rw [Names.ofStmts_switch] at same
      rw [references, references,
        Expr.references_congr (same.mono (List.subset_append_left _ _)),
        referencesOfCases_congr (same.mono (List.subset_append_right _ _))]
  | breakOut | continueLoop | discard | empty => rfl

theorem referencesOfList_congr {bindings bindings' : Bindings} {stmts : List Stmt}
    (same : SameOn (Names.ofStmts stmts).referenced bindings bindings') :
    referencesOfList bindings' stmts = referencesOfList bindings stmts := by
  match stmts with
  | [] => rfl
  | s :: rest =>
      rw [Names.ofStmts_cons] at same
      rw [referencesOfList, referencesOfList,
        references_congr (same.mono (List.subset_append_left _ _)),
        referencesOfList_congr ((same.mono (List.subset_append_right _ _)).behind s)]

theorem referencesOfCases_congr {bindings bindings' : Bindings} {cases : List Case}
    (same : SameOn (Names.ofStmts (cases.flatMap Case.body)).referenced bindings bindings') :
    referencesOfCases bindings' cases = referencesOfCases bindings cases := by
  match cases with
  | [] => rfl
  | .mk id label body :: rest =>
      rw [List.flatMap_cons, Names.ofStmts_append] at same
      have inBody : referencesOfList bindings' body = referencesOfList bindings body :=
        referencesOfList_congr (same.mono (List.subset_append_left _ _))
      rw [referencesOfCases, referencesOfCases, inBody,
        referencesOfCases_congr ((same.mono (List.subset_append_right _ _)).behindList body)]

end

theorem referencesOfList_append (bindings : Bindings) (first second : List Stmt) :
    referencesOfList bindings (first ++ second) =
      referencesOfList bindings first ++ referencesOfList (bindings.behindList first) second := by
  induction first generalizing bindings with
  | nil => rfl
  | cons s rest inductionHypothesis =>
      rw [List.cons_append, referencesOfList, referencesOfList, inductionHypothesis,
        List.append_assoc]
      rfl

theorem referencesOfCases_append (bindings : Bindings) (first second : List Case) :
    referencesOfCases bindings (first ++ second) =
      referencesOfCases bindings first ++ referencesOfCases (bindings.behindCases first) second := by
  induction first generalizing bindings with
  | nil => rfl
  | cons one rest inductionHypothesis =>
      cases one with
      | mk id label body =>
          rw [List.cons_append, referencesOfCases, referencesOfCases, inductionHypothesis,
            List.append_assoc]
          rfl

end Stmt

namespace Bindings

mutual

def atSlot (bindings : Bindings) : Slot → Bindings
  | .here before _ => bindings.behindList before
  | .within before inner _ => (bindings.behindList before).atStmtSlot inner

/-- The bindings at a place in a list within a statement. -/
def atStmtSlot (bindings : Bindings) : StmtSlot → Bindings
  | .block _ _ inner => bindings.atSlot inner
  | .branchTrue _ _ inner _ => bindings.atStmtSlot inner
  | .branchFalse _ _ _ inner => bindings.atStmtSlot inner
  | .forBody _ init _ _ inner => (bindings.header init).atStmtSlot inner
  | .whileBody _ _ inner => bindings.atStmtSlot inner
  | .case _ _ before _ _ inner _ => (bindings.behindCases before).atSlot inner

end

theorem behind_fill (bindings : Bindings) (run : List Stmt) (slot : StmtSlot) :
    bindings.behind (slot.fill run) = bindings := by
  cases slot <;> rfl

/-- Bindings behind a list differ with a run in it in what the run declares. -/
theorem behindList_fill_of_notMem (bindings : Bindings) {run : List Stmt} {name : String}
    (notDeclared : name ∉ Stmt.declaredBy run) (slot : Slot) :
    bindings.behindList (slot.fill run) name = bindings.behindList (slot.fill []) name := by
  cases slot with
  | here before behind =>
      simp only [Slot.fill, behindList_append, List.nil_append]
      have same : SameOn [name] (bindings.behindList before)
          ((bindings.behindList before).behindList run) := fun other isName => by
        rw [List.mem_singleton.mp isName, behindList_eq_of_notMem _ notDeclared]
      exact same.behindList behind name (List.mem_singleton_self name)
  | within before inner behind => simp only [Slot.fill, behindList_append, behindList, behind_fill]

end Bindings

namespace Stmt

variable {r : Reference}

mutual

/-- The references in a list with a run at a place are those around the place and
those in the run, provided that nothing around it mentions what the run declares. -/
theorem mem_referencesOfList_fill_iff {bindings : Bindings} {run : List Stmt} (slot : Slot)
    (quiet : Reduction.Unmentioned (declaredBy run) (slot.fill [])) :
    r ∈ referencesOfList bindings (slot.fill run) ↔
      r ∈ referencesOfList bindings (slot.fill []) ∨
        r ∈ referencesOfList (bindings.atSlot slot) run := by
  cases slot with
  | here before behind =>
      simp only [Slot.fill, List.nil_append, Reduction.Unmentioned.append_iff] at quiet
      have same : SameOn (Names.ofStmts behind).referenced (bindings.behindList before)
          ((bindings.behindList before).behindList run) := fun name listed =>
        Bindings.behindList_eq_of_notMem _ fun isDeclared => (quiet.2 name isDeclared).1 listed
      simp only [Slot.fill, List.nil_append, referencesOfList_append, List.mem_append,
        Bindings.atSlot, referencesOfList_congr same]
      tauto
  | within before inner behind =>
      simp only [Slot.fill, Reduction.Unmentioned.append_iff] at quiet
      rw [Reduction.Unmentioned.cons_iff] at quiet
      simp only [Slot.fill, referencesOfList_append, referencesOfList, List.mem_append,
        Bindings.behind_fill, Bindings.atSlot, mem_references_fill_iff inner quiet.2.1]
      tauto

theorem mem_references_fill_iff {bindings : Bindings} {run : List Stmt} (slot : StmtSlot)
    (quiet : Reduction.Unmentioned (declaredBy run) [slot.fill []]) :
    r ∈ (slot.fill run).references bindings ↔
      r ∈ (slot.fill []).references bindings ∨
        r ∈ referencesOfList (bindings.atStmtSlot slot) run := by
  cases slot with
  | block id scope inner =>
      rw [StmtSlot.fill, Reduction.Unmentioned, Names.ofStmts_block] at quiet
      exact mem_referencesOfList_fill_iff inner quiet
  | branchTrue id cond inner whenFalse =>
      simp only [StmtSlot.fill, Reduction.Unmentioned, Names.ofStmts_branch, Names.join,
        List.mem_append, not_or] at quiet
      simp only [StmtSlot.fill, references, List.mem_append, Bindings.atStmtSlot,
        mem_references_fill_iff inner
          fun name listed => ⟨(quiet name listed).1.2.1, (quiet name listed).2.2.1⟩]
      tauto
  | branchFalse id cond whenTrue inner =>
      simp only [StmtSlot.fill, Reduction.Unmentioned, Names.ofStmts_branch, Names.join,
        List.mem_append, not_or, Option.toList_some] at quiet
      simp only [StmtSlot.fill, references, referencesOfOption, List.mem_append, Bindings.atStmtSlot,
        mem_references_fill_iff inner
          fun name listed => ⟨(quiet name listed).1.2.2, (quiet name listed).2.2.2⟩]
      tauto
  | forBody id init cond step inner =>
      simp only [StmtSlot.fill, Reduction.Unmentioned, Names.ofStmts_forLoop, Names.join,
        List.mem_append, not_or] at quiet
      simp only [StmtSlot.fill, references, List.mem_append, Bindings.atStmtSlot,
        mem_references_fill_iff inner
          fun name listed => ⟨(quiet name listed).1.2.2.2, (quiet name listed).2.2.2.2⟩]
      tauto
  | whileBody id cond inner =>
      simp only [StmtSlot.fill, Reduction.Unmentioned, Names.ofStmts_whileLoop, Names.join,
        List.mem_append, not_or] at quiet
      simp only [StmtSlot.fill, references, List.mem_append, Bindings.atStmtSlot,
        mem_references_fill_iff inner
          fun name listed => ⟨(quiet name listed).1.2, (quiet name listed).2.2⟩]
      tauto
  | case id selector before caseId label inner behind =>
      have ofCases : Reduction.Unmentioned (declaredBy run)
          ((before ++ .mk caseId label (inner.fill []) :: behind).flatMap Case.body) := by
        intro name listed
        have := quiet name listed
        simp only [StmtSlot.fill, Names.ofStmts_switch, Names.join, List.mem_append, not_or] at this
        exact ⟨this.1.2, this.2.2⟩
      rw [List.flatMap_append, List.flatMap_cons, Reduction.Unmentioned.append_iff,
        Reduction.Unmentioned.append_iff] at ofCases
      have same : SameOn (Names.ofStmts (behind.flatMap Case.body)).referenced
          ((bindings.behindCases before).behindList (inner.fill []))
          ((bindings.behindCases before).behindList (inner.fill run)) := fun name listed =>
        Bindings.behindList_fill_of_notMem _
          (fun isDeclared => (ofCases.2.2 name isDeclared).1 listed) inner
      simp only [StmtSlot.fill, references, referencesOfCases_append, referencesOfCases,
        List.mem_append, Bindings.atStmtSlot, mem_referencesOfList_fill_iff inner ofCases.2.1,
        referencesOfCases_congr same]
      tauto

end

end Stmt
end Whittle
