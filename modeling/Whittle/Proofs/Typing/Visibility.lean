import Whittle.Proofs.Reduction.ShaderNames

namespace Whittle
namespace Check
namespace Context

open Reduction (Names Declares)

/-!
# What names stand for around a place

A run of statements at a place is seen from behind it, and from nowhere else.  So
what names stand for in a shader is a matter of three parts: the declarations around
the place, the run, and the context behind the run.
-/

variable {ctx : Context} {fits : String → Prop} {P : Context → Prop} {run : List Stmt}

namespace Inherited

mutual

theorem atSlot (inherited : Inherited fits P) {ctx : Context} (holds : P ctx) (slot : Slot)
    (declares : Declares fits (slot.fill [])) : P (ctx.atSlot slot) := by
  cases slot with
  | here before behind => exact inherited.behindList holds (Declares.append_iff.mp declares).1
  | within before inner behind =>
      rw [Slot.fill, Declares.append_iff, Declares.cons_iff] at declares
      exact inherited.atStmtSlot (inherited.behindList holds declares.1) inner declares.2.1

theorem atStmtSlot (inherited : Inherited fits P) {ctx : Context} (holds : P ctx)
    (slot : StmtSlot) (declares : Declares fits [slot.fill []]) : P (ctx.atStmtSlot slot) := by
  cases slot with
  | block id scope inner =>
      exact inherited.atSlot (inherited.opened holds) inner (Declares.block_iff.mp declares)
  | branchTrue id cond inner whenFalse =>
      rw [StmtSlot.fill, Declares.branch_iff] at declares
      exact inherited.atStmtSlot (inherited.opened holds) inner declares.1
  | branchFalse id cond whenTrue inner =>
      rw [StmtSlot.fill, Declares.branch_iff] at declares
      exact inherited.atStmtSlot (inherited.opened holds) inner declares.2
  | forBody id init cond step inner =>
      rw [StmtSlot.fill, Declares.forLoop_iff] at declares
      have header := inherited.inLoop (inherited.header holds declares.1)
      cases inner with
      | block bodyId scope inner =>
          exact inherited.atSlot header inner (Declares.block_iff.mp declares.2)
      | _ => exact inherited.atStmtSlot (inherited.opened header) _ declares.2
  | whileBody id cond inner =>
      exact inherited.atStmtSlot (inherited.opened (inherited.inLoop holds)) inner
        (Declares.whileLoop_iff.mp declares)
  | case id selector before caseId label inner behind =>
      rw [StmtSlot.fill, Declares.switch_iff, List.flatMap_append, List.flatMap_cons,
        Declares.append_iff, Declares.append_iff] at declares
      exact inherited.atSlot (inherited.behindCases (inherited.opened (inherited.inSwitch holds))
        declares.1) inner declares.2.1

end

/-- The run declares what it does in the scope of its list, and what is behind it there
comes on top. -/
theorem behindList_fill (inherited : Inherited fits P) (holds : P ctx) (slot : Slot)
    (declares : Declares fits (slot.fill [])) (behindRun : P ((ctx.atSlot slot).behindList run)) :
    P (ctx.behindList (slot.fill run)) := by
  cases slot with
  | here before behind =>
      rw [Slot.fill, behindList_append, behindList_append]
      exact inherited.behindList behindRun (Declares.append_iff.mp declares).2
  | within before inner behind =>
      rw [Slot.fill, Declares.append_iff, Declares.cons_iff] at declares
      rw [Slot.fill, behindList_append, Context.behindList, behind_fill]
      exact inherited.behindList (inherited.behindList holds declares.1) declares.2.2

mutual

/-- A property that is inherited around a place holds everywhere if it does in the run
there and behind it. -/
theorem placedList_fill (inherited : Inherited fits P) {ctx : Context} (holds : P ctx)
    (slot : Slot) (declares : Declares fits (slot.fill []))
    (inRun : AllAt P ((ctx.atSlot slot).placedList run))
    (behindRun : P ((ctx.atSlot slot).behindList run)) : AllAt P (ctx.placedList (slot.fill run)) := by
  cases slot with
  | here before behind =>
      rw [Slot.fill, List.nil_append, Declares.append_iff] at declares
      rw [Slot.fill, placedList_append, placedList_append, allAt_append, allAt_append]
      exact ⟨inherited.placedList holds declares.1, inRun,
        inherited.placedList behindRun declares.2⟩
  | within before inner behind =>
      rw [Slot.fill, Declares.append_iff, Declares.cons_iff] at declares
      have front := inherited.behindList holds declares.1
      rw [Slot.fill, placedList_append, Context.placedList, behind_fill, allAt_append, allAt_append]
      exact ⟨inherited.placedList holds declares.1,
        inherited.placed_fill front inner declares.2.1 inRun behindRun,
        inherited.placedList front declares.2.2⟩

theorem placed_fill (inherited : Inherited fits P) {ctx : Context} (holds : P ctx)
    (slot : StmtSlot) (declares : Declares fits [slot.fill []])
    (inRun : AllAt P ((ctx.atStmtSlot slot).placedList run))
    (behindRun : P ((ctx.atStmtSlot slot).behindList run)) : AllAt P (ctx.placed (slot.fill run)) := by
  cases slot with
  | block id scope inner =>
      exact inherited.placedList_fill (inherited.opened holds) inner (Declares.block_iff.mp declares)
        inRun behindRun
  | branchTrue id cond inner whenFalse =>
      rw [StmtSlot.fill, Declares.branch_iff] at declares
      exact allAt_cons holds (allAt_append.mpr
        ⟨inherited.placed_fill (inherited.opened holds) inner declares.1 inRun behindRun,
          inherited.placedOfOption (inherited.opened holds) declares.2⟩)
  | branchFalse id cond whenTrue inner =>
      rw [StmtSlot.fill, Declares.branch_iff] at declares
      exact allAt_cons holds (allAt_append.mpr
        ⟨inherited.placed (inherited.opened holds) declares.1,
          inherited.placed_fill (inherited.opened holds) inner declares.2 inRun behindRun⟩)
  | forBody id init cond step inner =>
      rw [StmtSlot.fill, Declares.forLoop_iff] at declares
      have header := inherited.header holds declares.1
      have inLoop := inherited.inLoop header
      rw [StmtSlot.fill, placed_forLoop, allAt_append, allAt_append, allAt_append]
      refine ⟨inherited.placedOfOption (inherited.opened holds) declares.1,
        allAt_placedOption header cond, allAt_placedOption header step, ?_⟩
      cases inner with
      | block bodyId scope inner =>
          exact inherited.placedList_fill inLoop inner (Declares.block_iff.mp declares.2) inRun
            behindRun
      | _ => exact inherited.placed_fill (inherited.opened inLoop) _ declares.2 inRun behindRun
  | whileBody id cond inner =>
      exact allAt_cons holds (inherited.placed_fill (inherited.opened (inherited.inLoop holds)) inner
        (Declares.whileLoop_iff.mp declares) inRun behindRun)
  | case id selector before caseId label inner behind =>
      rw [StmtSlot.fill, Declares.switch_iff, List.flatMap_append, List.flatMap_cons,
        Declares.append_iff, Declares.append_iff] at declares
      have scope := inherited.opened (inherited.inSwitch holds)
      have front := inherited.behindCases scope declares.1
      rw [StmtSlot.fill]
      refine allAt_cons holds ?_
      rw [placedCases_append, Context.placedCases, allAt_append, allAt_append]
      exact ⟨inherited.placedCases scope declares.1,
        inherited.placedList_fill front inner declares.2.1 inRun behindRun,
        inherited.placedCases (inherited.behindList_fill front inner declares.2.1 behindRun)
          declares.2.2⟩

end

end Inherited

/-- A property of what names stand for that declarations of names of a kind leave as it
is. -/
def Stable (fits : String → Prop) (Q : (String → Option Binding) → Prop) : Prop :=
  ∀ (see : String → Option Binding) (name : String) (binding : Binding), fits name → Q see →
    Q fun other => if other = name then some binding else see other

namespace Stable

variable {Q : (String → Option Binding) → Prop}

theorem declared (stable : Stable fits Q) {name : String} (binding : Binding) (isFit : fits name)
    (holds : Q ctx.lookup?) : Q (ctx.declared name binding).lookup? := by
  unfold Context.declared
  split
  · exact holds
  · rw [funext fun other => lookup?_bound ctx name other binding]
    exact stable _ name binding isFit holds

theorem inherited (stable : Stable fits Q) : Inherited fits fun ctx => Q ctx.lookup? where
  opened holds := holds
  inLoop holds := holds
  inSwitch holds := holds
  declared := stable.declared

variable {decl : Decl} {decls : List Decl}

theorem behindDecl (stable : Stable fits Q) (holds : Q ctx.lookup?)
    (declares : ∀ name ∈ (Names.ofDecl decl).declared, fits name) :
    Q (ctx.behindDecl decl).lookup? := by
  cases decl with
  | precision => exact holds
  | struct | function =>
      unfold Context.behindDecl
      dsimp only
      split <;> exact holds
  | global var =>
      unfold Context.behindDecl
      dsimp only
      split
      · exact holds
      · exact @declared (ctx.taking var.name) _ _ stable _ _
          (declares var.name List.mem_cons_self) holds

theorem behindDecls (stable : Stable fits Q) (holds : Q ctx.lookup?)
    (declares : ∀ name ∈ Decl.declaredNames decls, fits name) :
    Q (ctx.behindDecls decls).lookup? := by
  induction decls generalizing ctx with
  | nil => exact holds
  | cons decl rest inductionHypothesis =>
      rw [Decl.declaredNames, List.flatMap_cons, List.forall_mem_append] at declares
      exact inductionHypothesis (stable.behindDecl holds declares.1) declares.2

theorem inFunction (stable : Stable fits Q) (holds : Q ctx.lookup?) {f : Function}
    (declares : ∀ param ∈ f.params, fits param.name) : Q (ctx.inFunction f).lookup? :=
  stable.inherited.behindParams (stable.inherited.opened holds) declares

theorem placedDecl (stable : Stable fits Q) (holds : Q ctx.lookup?)
    (declares : ∀ name ∈ (Names.ofDecl decl).declared, fits name) :
    AllAt (fun ctx => Q ctx.lookup?) (ctx.placedDecl decl) := by
  cases decl with
  | precision | struct => exact List.forall_mem_nil _
  | global var => exact @allAt_placedOption (ctx.taking var.name) _ holds var.init
  | function f =>
      rw [Names.ofDecl, Names.ofFunction, List.cons_append, List.forall_mem_cons,
        List.forall_mem_append, List.forall_mem_map] at declares
      exact stable.inherited.placedList (stable.inFunction holds declares.2.1) declares.2.2

theorem placedDecls (stable : Stable fits Q) (holds : Q ctx.lookup?)
    (declares : ∀ name ∈ Decl.declaredNames decls, fits name) :
    AllAt (fun ctx => Q ctx.lookup?) (ctx.placedDecls decls) := by
  induction decls generalizing ctx with
  | nil => exact List.forall_mem_nil _
  | cons decl rest inductionHypothesis =>
      rw [Decl.declaredNames, List.flatMap_cons, List.forall_mem_append] at declares
      exact allAt_append.mpr ⟨stable.placedDecl holds declares.1,
        inductionHypothesis (stable.behindDecl holds declares.1) declares.2⟩

end Stable

/-- What one name stands for is left as it is by declarations of all others. -/
theorem stable_at (name : String) (p : Option Binding → Prop) :
    Stable (fun other => other ≠ name) fun see => p (see name) := by
  intro see other binding differ holds
  change p (if name = other then some binding else see name)
  rwa [if_neg differ.symm]

/-- In front of a shader only reserved names stand for something. -/
theorem lookup?_initial {name : String} (notReserved : isReservedName name = false)
    (version : Version) : (Context.initial version).lookup? name = none := by
  have fragCoord : name ≠ "gl_FragCoord" := by
    rintro rfl
    revert notReserved
    decide
  have fragColor : name ≠ "gl_FragColor" := by
    rintro rfl
    revert notReserved
    decide
  unfold Context.initial Context.lookup? predefined
  split <;> simp [List.lookup_cons, beq_eq_false_iff_ne.mpr fragCoord, beq_eq_false_iff_ne.mpr fragColor]

end Context
end Check

namespace Spot

open Check (Context Binding)
open Reduction (Names Declares)

variable {spot : Spot} {version : Version} {run : List Stmt} {fits : String → Prop}
  {Q : (String → Option Binding) → Prop}

/-- All names that are declared around the place are of a kind. -/
structure DeclaresAround (spot : Spot) (fits : String → Prop) : Prop where
  before : ∀ name ∈ Decl.declaredNames spot.before, fits name
  params : ∀ param ∈ spot.function.params, fits param.name
  slot : Declares fits (spot.slot.fill [])
  behind : ∀ name ∈ Decl.declaredNames spot.behind, fits name

/-- The names around the place are those of the shader without what stands there. -/
theorem declaresAround_of_fill (declares : ∀ name ∈ Decl.declaredNames (spot.fill []), fits name) :
    spot.DeclaresAround fits := by
  rw [Spot.fill, Decl.declaredNames, List.flatMap_append, List.flatMap_cons, List.forall_mem_append,
    List.forall_mem_append, Names.ofDecl, Names.ofFunction, List.cons_append, List.forall_mem_cons,
    List.forall_mem_append, List.forall_mem_map] at declares
  exact ⟨declares.1, declares.2.1.2.1, declares.2.1.2.2, declares.2.2⟩

/-- A property of names that holds in front of the shader also holds at the place, if
nothing around it declares one of the other names. -/
theorem stable_ctx (stable : Context.Stable fits Q) (holds : Q (Context.initial version).lookup?)
    (around : spot.DeclaresAround fits) : Q (spot.ctx version).lookup? :=
  stable.inherited.atSlot (stable.inFunction (stable.behindDecls holds around.before) around.params)
    spot.slot around.slot

/-- A property of contexts that is inherited, and that the names alone ensure in front of
the place and behind its function, holds everywhere if it does in the run at the place and
behind it. -/
theorem allAt_fill (stable : Context.Stable fits Q) {P : Context → Prop}
    (inherited : Context.Inherited fits P) (weaker : ∀ ctx : Context, Q ctx.lookup? → P ctx)
    (holds : Q (Context.initial version).lookup?) (around : spot.DeclaresAround fits)
    (inRun : Context.AllAt P ((spot.ctx version).placedList run))
    (behindRun : P ((spot.ctx version).behindList run)) :
    Context.AllAt P ((Context.initial version).placedDecls (spot.fill run)) := by
  have front := stable.behindDecls holds around.before
  have function : Q ((((Context.initial version).behindDecls spot.before).behindDecl
      (.function (spot.function.withStmts (spot.slot.fill run)))).lookup?) := by
    unfold Context.behindDecl
    dsimp only
    split <;> exact front
  have inFront := stable.placedDecls holds around.before
  have behind := stable.placedDecls function around.behind
  rw [Spot.fill, Context.placedDecls_append, Context.placedDecls, Context.allAt_append,
    Context.allAt_append]
  exact ⟨fun one listed => weaker _ (inFront one listed),
    inherited.placedList_fill (weaker _ (stable.inFunction front around.params)) spot.slot around.slot
      inRun behindRun,
    fun one listed => weaker _ (behind one listed)⟩

/-- A property of names holds everywhere if it does in the run at the place and behind
it. -/
theorem allAt_placedDecls_fill (stable : Context.Stable fits Q)
    (holds : Q (Context.initial version).lookup?) (around : spot.DeclaresAround fits)
    (inRun : Context.AllAt (fun ctx => Q ctx.lookup?) ((spot.ctx version).placedList run))
    (behindRun : Q ((spot.ctx version).behindList run).lookup?) :
    Context.AllAt (fun ctx => Q ctx.lookup?)
      ((Context.initial version).placedDecls (spot.fill run)) :=
  spot.allAt_fill stable stable.inherited (fun _ => id) holds around inRun behindRun

end Spot
end Whittle
