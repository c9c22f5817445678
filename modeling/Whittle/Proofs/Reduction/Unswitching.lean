import Whittle.Proofs.Identifiers.Edits
import Whittle.Proofs.Reduction.SwitchRuns
import Whittle.Proofs.Reduction.ValueEdits
import Whittle.Proofs.Scoping.Copies

namespace Whittle

/-!
# Replacing switches keeps shaders valid

The arms of a switch share a scope and become blocks of their own.  An arm does not
mention what the others declare, so it means the same without them, and no `break`
of it needs the switch.  The selector is copied into the conditions, where the same
variables are in scope.
-/

open Reduction (Names Jumps Unmentioned)

namespace Reduction

open Check (Context)
open Check.Context (Encloses acceptsList_of_hosts)

theorem typeOf_bare (ctx : Context) (e : Expr) : ctx.typeOf e.bare = ctx.typeOf e := by
  induction e using Expr.children_induction with
  | step e inductionHypothesis =>
      cases e with
      | paren id inner => exact inductionHypothesis inner List.mem_cons_self
      | _ => rfl

/-- What is compared has the type of the selector.  A struct may have the name of the
marker, but the call of its constructor is not a number. -/
theorem typeOf_comparedSelector {ctx : Context} {selector : Expr}
    (typed : ctx.typeOf selector = some .int) :
    ctx.typeOf (comparedSelector selector) = some .int := by
  unfold comparedSelector
  split
  · rename_i id callee inner isCall
    split
    · rename_i isMarker
      rw [← typeOf_bare, isCall, Context.typeOf_call_eq_some_iff] at typed
      rcases typed with ⟨tys, areTypes, isTy⟩
      rcases Context.typesOf_cons_eq_some_iff.mp areTypes with ⟨ty, others, isInner, areOthers, rfl⟩
      cases areOthers
      rw [Context.call, ofKeyword?_of_marker (beq_iff_eq.mp isMarker)] at isTy
      cases isStruct : ctx.struct? callee with
      | some decl =>
          simp only [isStruct, Context.constructStruct] at isTy
          split at isTy <;> cases isTy
      | none =>
          simp only [isStruct, beq_iff_eq.mp isMarker, Check.callMarker] at isTy
          split at isTy
          · rename_i isInt
            rw [isInner, beq_iff_eq.mp isInt]
          · cases isTy
    · exact typed
  · exact typed

theorem references_comparedSelector (bindings : Bindings) (selector : Expr) :
    Expr.references bindings [comparedSelector selector] ⊆ Expr.references bindings [selector] := by
  have isPart : comparedSelector selector ∈ selector.subexprs := by
    unfold comparedSelector
    split
    · rename_i id callee inner isCall
      split
      · have isBare := bare_mem_subexprs selector
        rw [isCall] at isBare
        exact Expr.mem_subexprs_of_child List.mem_cons_self isBare
      · exact selector.self_mem_subexprs
    · exact selector.self_mem_subexprs
  intro r listed
  rcases List.mem_filterMap.mp listed with ⟨part, isInner, isReference⟩
  rw [List.flatMap_singleton] at isInner
  refine List.mem_filterMap.mpr ⟨part, ?_, isReference⟩
  rw [List.flatMap_singleton]
  exact Expr.mem_subexprs_trans isInner isPart

namespace HasArms

variable {pending : List Label} {cases : List Case} {arms : List Arm}

/-- An arm moves out of the switch if it does not mention what is declared in front
of it there. -/
theorem acceptsList_of_encloses {outer ctx : Context} {between : List String}
    {stmts : List Stmt} (encloses : Encloses between outer ctx) (isNew : outer.inner = [])
    (sameLoops : ctx.loops = outer.loops) (stays : (Jumps.ofStmts stmts).breaks = 0)
    (unmentioned : Unmentioned between stmts) (accepted : ctx.AcceptsList stmts) :
    outer.AcceptsList stmts :=
  acceptsList_of_hosts (encloses.hosts (fun name listed => (unmentioned name listed).1)
    (fun _ _ => by rw [isNew]; rfl) (fun leaves => absurd stays leaves) fun _ => sameLoops) accepted

/-- The arms of an accepted switch are accepted without the others around them. -/
theorem acceptsList {outer ctx : Context} {between : List String} {before : List Label}
    (has : HasArms pending cases arms) (accepted : ctx.AcceptsCases before cases)
    (encloses : Encloses between outer ctx) (isNew : outer.inner = [])
    (sameLoops : ctx.loops = outer.loops)
    (apart : ∀ arm ∈ arms, Unmentioned between arm.body)
    (independent : arms.Pairwise fun arm other =>
      Unmentioned (Stmt.declaredBy arm.body) other.body) :
    ∀ arm ∈ arms, outer.AcceptsList arm.body := by
  induction has generalizing ctx between before with
  | nil => exact List.forall_mem_nil _
  | shared behind inductionHypothesis =>
      exact inductionHypothesis accepted.2.2 encloses sameLoops apart independent
  | @ended pending id last label stmts rest arms stays behind inductionHypothesis =>
      rw [List.forall_mem_cons] at apart ⊢
      rw [List.pairwise_cons] at independent
      rcases Check.Context.acceptsList_append_iff.mp accepted.2.1 with ⟨inBody, -⟩
      refine ⟨acceptsList_of_encloses encloses isNew sameLoops stays apart.1 inBody, ?_⟩
      have declares : Stmt.declaredBy (stmts ++ [.breakOut last]) = Stmt.declaredBy stmts := by
        rw [Stmt.declaredBy_append]
        exact List.append_nil _
      have beside := Check.Context.beside_behindList ctx (stmts ++ [.breakOut last])
      rw [declares] at beside
      have loops : (ctx.behindList (stmts ++ [.breakOut last])).loops = ctx.loops := by
        rw [beside.around]
      have later : ∀ arm ∈ arms, Unmentioned (between ++ Stmt.declaredBy stmts) arm.body :=
        fun arm listed name isApart => (List.mem_append.mp isApart).elim
          (apart.2 arm listed name) (independent.1 arm listed name)
      exact inductionHypothesis accepted.2.2
        ((encloses.mono (List.subset_append_left _ _)).trans
          (.of_beside (List.subset_append_right _ _) beside))
        (loops.trans sameLoops) later independent.2
  | last stays =>
      exact List.forall_mem_singleton.mpr (acceptsList_of_encloses encloses isNew sameLoops stays
        (apart _ List.mem_cons_self) accepted.2.1)

/-- References in an arm resolve without the others around it as they do in the
switch. -/
theorem references_subset {bindings bindings' : Bindings} (has : HasArms pending cases arms)
    (same : ∀ arm ∈ arms,
      Bindings.SameOn (Names.ofStmts arm.body).referenced bindings bindings')
    (independent : arms.Pairwise fun arm other =>
      Unmentioned (Stmt.declaredBy arm.body) other.body) :
    ∀ arm ∈ arms, Stmt.referencesOfList bindings arm.body ⊆
      Stmt.referencesOfCases bindings' cases := by
  induction has generalizing bindings' with
  | nil => exact List.forall_mem_nil _
  | shared behind inductionHypothesis => exact inductionHypothesis same independent
  | @ended pending id last label stmts rest arms stays behind inductionHypothesis =>
      rw [List.forall_mem_cons] at same ⊢
      rw [List.pairwise_cons] at independent
      rw [Stmt.referencesOfCases, Stmt.referencesOfList_append]
      constructor
      · rw [← Stmt.referencesOfList_congr same.1]
        exact List.Subset.trans (List.subset_append_left _ _) (List.subset_append_left _ _)
      · have declares : Stmt.declaredBy (stmts ++ [.breakOut last]) = Stmt.declaredBy stmts := by
          rw [Stmt.declaredBy_append]
          exact List.append_nil _
        have later : ∀ arm ∈ arms, Bindings.SameOn (Names.ofStmts arm.body).referenced bindings
            (bindings'.behindList (stmts ++ [.breakOut last])) := fun arm listed name isReferenced => by
          rw [Bindings.behindList_eq_of_notMem, same.2 arm listed name isReferenced]
          rw [declares]
          exact fun isDeclared => (independent.1 arm listed name isDeclared).1 isReferenced
        exact fun arm listed => List.Subset.trans
          (inductionHypothesis later independent.2 arm listed) (List.subset_append_right _ _)
  | @last pending id label stmts stays =>
      refine List.forall_mem_singleton.mpr ?_
      rw [Stmt.referencesOfCases, ← Stmt.referencesOfList_congr (same _ List.mem_cons_self)]
      exact List.subset_append_left _ _

end HasArms

/-! ## The chain -/

namespace SwitchChain

variable {selector : Expr} {low : NodeId}

theorem IsTest.typeOf_eq {ctx : Context} {numbers : List Int} {cond : Expr}
    (tested : IsTest selector low numbers cond) (typed : ctx.typeOf selector = some .int) :
    ctx.typeOf cond = some .bool := by
  have compared : ∀ id start rhs number, ctx.typeOf
      (.binary id .eq (selector.numbered start) (.int rhs number)) = some .bool := by
    intro id start rhs number
    rw [Context.typeOf_binary_eq_some_iff]
    exact ⟨.int, .int, (ctx.typeOf_numbered start selector).trans typed, rfl, rfl⟩
  induction tested with
  | one isNew => exact compared _ _ _ _
  | more before isNew inductionHypothesis =>
      rw [Context.typeOf_binary_eq_some_iff]
      exact ⟨.bool, .bool, inductionHypothesis, compared _ _ _ _, rfl⟩

/-- A chain is accepted where its selector is a number, its arms are accepted in a
scope of their own, and its end is accepted. -/
theorem IsChain.acceptsOption {last chain : Option Stmt} {arms : List Arm}
    (isChain : IsChain selector low last arms chain) {ctx : Context}
    (typed : ctx.typeOf selector = some .int)
    (bodies : ∀ arm ∈ arms, ctx.opened.AcceptsList arm.body) (ends : ctx.AcceptsOption last) :
    ctx.AcceptsOption chain := by
  induction isChain generalizing ctx with
  | last => exact ends
  | skip noNumber behind inductionHypothesis =>
      exact inductionHypothesis typed (List.forall_mem_cons.mp bodies).2 ends
  | branch tested behind inductionHypothesis =>
      rw [List.forall_mem_cons] at bodies
      have inward : ∀ {inner : Context} {stmts : List Stmt}, inner.AcceptsList stmts →
          inner.opened.AcceptsList stmts :=
        fun accepted => acceptsList_of_hosts (Check.Context.hosts_opened _ _) accepted
      have endsInward : ctx.opened.AcceptsOption last := by
        cases last with
        | none => trivial
        | some s =>
            exact Check.Context.accepts_of_hosts (s := s) (Check.Context.hosts_opened ctx [s]) ends
      exact ⟨tested.typeOf_eq typed, inward bodies.1,
        inductionHypothesis (Check.Context.typeOf_opened typed)
          (fun arm listed => inward (bodies.2 arm listed)) endsInward⟩

theorem references_binary (bindings : Bindings) (id : NodeId) (op : BinaryOp) (lhs rhs : Expr) :
    Expr.references bindings [.binary id op lhs rhs] =
      Expr.references bindings [lhs] ++ Expr.references bindings [rhs] := by
  simp [Expr.references, Expr.subexprs, Expr.reference?, List.filterMap_cons]

theorem references_int (bindings : Bindings) (id : NodeId) (number : Int) :
    Expr.references bindings [.int id number] = [] :=
  rfl

/-- References in the conditions of a chain are copies of those in the selector. -/
theorem IsTest.exists_of_mem_references {bindings : Bindings} {numbers : List Int} {cond : Expr}
    (tested : IsTest selector low numbers cond) {r : Reference}
    (listed : r ∈ Expr.references bindings [cond]) :
    low ≤ r.id ∧ ∃ original ∈ Expr.references bindings [selector],
      original.name = r.name ∧ original.decl = r.decl := by
  induction tested with
  | @one id start rhs number isNew =>
      rw [references_binary, references_int, List.append_nil] at listed
      have copied := Expr.exists_of_mem_references_numbered listed
      exact ⟨Nat.le_trans isNew copied.1, copied.2⟩
  | @more id other start rhs numbers number before tested isNew inductionHypothesis =>
      rw [references_binary, references_binary, references_int, List.append_nil,
        List.mem_append] at listed
      rcases listed with inBefore | inCopy
      · exact inductionHypothesis inBefore
      · have copied := Expr.exists_of_mem_references_numbered inCopy
        exact ⟨Nat.le_trans isNew copied.1, copied.2⟩

/-- References in a chain are copies of those in the selector, or stand in an arm or
in its end. -/
theorem IsChain.mem_references {bindings : Bindings} {last chain : Option Stmt} {arms : List Arm}
    (isChain : IsChain selector low last arms chain) {r : Reference}
    (listed : r ∈ Stmt.referencesOfOption bindings chain) :
    (low ≤ r.id ∧ ∃ original ∈ Expr.references bindings [selector],
      original.name = r.name ∧ original.decl = r.decl) ∨
      (∃ arm ∈ arms, r ∈ Stmt.referencesOfList bindings arm.body) ∨
        r ∈ Stmt.referencesOfOption bindings last := by
  induction isChain with
  | last => exact Or.inr (Or.inr listed)
  | skip noNumber behind inductionHypothesis =>
      rcases inductionHypothesis listed with copied | ⟨arm, isArm, inArm⟩ | inLast
      · exact Or.inl copied
      · exact Or.inr (Or.inl ⟨arm, List.mem_cons_of_mem _ isArm, inArm⟩)
      · exact Or.inr (Or.inr inLast)
  | branch tested behind inductionHypothesis =>
      simp only [Stmt.referencesOfOption, Stmt.references, List.mem_append] at listed
      rcases listed with inCond | inArm | inRest
      · exact Or.inl (tested.exists_of_mem_references inCond)
      · exact Or.inr (Or.inl ⟨_, List.mem_cons_self, inArm⟩)
      · rcases inductionHypothesis inRest with copied | ⟨arm, isArm, inArm⟩ | inLast
        · exact Or.inl copied
        · exact Or.inr (Or.inl ⟨arm, List.mem_cons_of_mem _ isArm, inArm⟩)
        · exact Or.inr (Or.inr inLast)

/-- A `return` in an arm that is tested for is in the chain. -/
theorem IsChain.holdsReturn {last chain : Option Stmt} {arms : List Arm}
    (isChain : IsChain selector low last arms chain) (hasNumber : ∀ arm ∈ arms, arm.numbers ≠ [])
    (holds : (arms.any fun arm => arm.body.any Stmt.holdsReturn) = true ∨
      last.any Stmt.holdsReturn = true) :
    chain.any Stmt.holdsReturn = true := by
  induction isChain with
  | last => exact holds.resolve_left Bool.false_ne_true
  | skip noNumber => exact absurd noNumber (hasNumber _ List.mem_cons_self)
  | branch tested behind inductionHypothesis =>
      have others := inductionHypothesis (List.forall_mem_cons.mp hasNumber).2
      rw [List.any_cons, Bool.or_eq_true, or_assoc] at holds
      rw [Option.any_some, Stmt.holdsReturn_branch, Stmt.holdsReturn_block, Bool.or_eq_true]
      exact holds.imp id others


theorem IsChain.declared?_eq_none {last chain : Option Stmt} {arms : List Arm}
    (isChain : IsChain selector low last arms chain) (ofLast : ∀ s ∈ last, s.declared? = none) :
    ∀ s ∈ chain, s.declared? = none := by
  induction isChain with
  | last => exact ofLast
  | skip noNumber behind inductionHypothesis => exact inductionHypothesis
  | branch =>
      intro s isChain
      rw [← Option.some.inj isChain]
      rfl

end SwitchChain

/-- Every arm that is no default arm has a number among its labels. -/
theorem numbers_ne_nil {arm : Arm} (labelled : arm.labels ≠ []) (notDefault : arm.isDefault = false) :
    arm.numbers ≠ [] := by
  rcases List.exists_mem_of_ne_nil _ labelled with ⟨label, listed⟩
  cases label with
  | otherwise =>
      rw [Arm.isDefault, List.contains_eq_mem, decide_eq_false_iff_not] at notDefault
      exact absurd listed notDefault
  | value number => exact List.ne_nil_of_mem (mem_numbers_iff.mpr listed)

namespace SwitchChain

/-- The statement that takes the place of a switch. -/
def replacement (id : NodeId) (chain : Option Stmt) : Stmt :=
  (chain.getD (.empty id)).withId id

theorem accepts_replacement {ctx : Context} {id : NodeId} {chain : Option Stmt}
    (accepted : ctx.AcceptsOption chain) : ctx.Accepts (replacement id chain) := by
  cases chain with
  | none => trivial
  | some s =>
      change ctx.Accepts s at accepted
      cases s with
      | forLoop =>
          exact Context.accepts_forLoop_iff.mpr (Context.accepts_forLoop_iff.mp accepted)
      | _ => exact accepted

theorem references_replacement (bindings : Bindings) (id : NodeId) (chain : Option Stmt) :
    (replacement id chain).references bindings = Stmt.referencesOfOption bindings chain := by
  cases chain with
  | none => rfl
  | some s => cases s <;> rfl

theorem holdsReturn_replacement (id : NodeId) (chain : Option Stmt) :
    (replacement id chain).holdsReturn = chain.any Stmt.holdsReturn := by
  cases chain with
  | none => rfl
  | some s => cases s <;> rfl

theorem declared?_replacement {id : NodeId} {chain : Option Stmt}
    (nothing : ∀ s ∈ chain, s.declared? = none) : (replacement id chain).declared? = none := by
  cases chain with
  | none => rfl
  | some s =>
      have none := nothing s rfl
      cases s with
      | decl => cases none
      | _ => rfl

end SwitchChain

namespace SwitchChain.Unswitches

variable {edit : SwitchChain} {shader : Shader} {spot : Spot} {selector : Expr} {cases : List Case}
  {arms : List Arm} {last chain : Option Stmt} {ctx : Context}

theorem acceptsOption (unswitches : Unswitches edit shader spot selector cases arms last chain)
    (accepted : ctx.Accepts (.switch edit.stmt selector cases)) : ctx.AcceptsOption chain := by
  have encloses : Encloses [] ctx.opened ctx.inSwitch.opened := .inSwitch [] ctx.opened
  have bodies := unswitches.hasArms.acceptsList accepted.2.2.2 encloses rfl rfl
    (fun _ _ _ listed => absurd listed List.not_mem_nil)
    (pairwise_of_areIndependent unswitches.independent)
  refine unswitches.isChain.acceptsOption (typeOf_comparedSelector accepted.2.1)
    (fun arm listed => bodies arm (List.mem_filter.mp listed).1) ?_
  cases unswitches.isLast with
  | none => trivial
  | block isDefault => exact bodies _ (List.mem_of_find?_eq_some isDefault)

theorem declared?_eq_none (unswitches : Unswitches edit shader spot selector cases arms last chain) :
    ∀ s ∈ chain, s.declared? = none := by
  refine unswitches.isChain.declared?_eq_none fun s isLast => ?_
  cases unswitches.isLast with
  | none => cases isLast
  | block =>
      rw [← Option.some.inj isLast]
      rfl

/-- A `return` in the switch is in the chain.  There is one default arm at most. -/
theorem holdsReturn (unswitches : Unswitches edit shader spot selector cases arms last chain)
    (accepted : ctx.Accepts (.switch edit.stmt selector cases))
    (holds : (Stmt.switch edit.stmt selector cases).holdsReturn = true) :
    chain.any Stmt.holdsReturn = true := by
  have labels := unswitches.hasArms.flatMap_labels
  rw [List.nil_append] at labels
  have noneTwice : (arms.flatMap Arm.labels).Nodup := by
    rw [labels]
    exact (nodup_labels_of_acceptsCases accepted.2.2.2).1
  rw [Stmt.holdsReturn_switch, unswitches.hasArms.any_holdsReturn, List.any_eq_true] at holds
  rcases holds with ⟨arm, isArm, holds⟩
  have hasNumber : ∀ arm ∈ arms.filter fun arm => !arm.isDefault, arm.numbers ≠ [] :=
    fun arm listed => numbers_ne_nil (unswitches.hasArms.labels_ne_nil (List.mem_filter.mp listed).1)
      (by simpa using (List.mem_filter.mp listed).2)
  refine unswitches.isChain.holdsReturn hasNumber ?_
  by_cases isDefault : arm.isDefault = true
  · refine Or.inr ?_
    have ofArm : Label.otherwise ∈ arm.labels := by
      rwa [Arm.isDefault, List.contains_eq_mem, decide_eq_true_eq] at isDefault
    cases unswitches.isLast with
    | none noDefault => exact absurd isDefault (List.find?_eq_none.mp noDefault arm isArm)
    | @block _ _ other found =>
        have ofOther : Label.otherwise ∈ other.labels := by
          have isDefault := List.find?_some found
          rwa [Arm.isDefault, List.contains_eq_mem, decide_eq_true_eq] at isDefault
        have same := (armAt?_eq_some noneTwice isArm ofArm).symm.trans
          (armAt?_eq_some noneTwice (List.mem_of_find?_eq_some found) ofOther)
        rw [Option.any_some, Stmt.holdsReturn_block, ← Option.some.inj same]
        exact holds
  · refine Or.inl (List.any_eq_true.mpr ⟨arm, List.mem_filter.mpr ⟨isArm, ?_⟩, holds⟩)
    rw [Bool.not_eq_true] at isDefault
    rw [isDefault]
    rfl

theorem mem_references (unswitches : Unswitches edit shader spot selector cases arms last chain)
    {bindings : Bindings} {r : Reference} (listed : r ∈ Stmt.referencesOfOption bindings chain) :
    r ∈ (Stmt.switch edit.stmt selector cases).references bindings ∨
      shader.nextId ≤ r.id ∧
        ∃ original ∈ (Stmt.switch edit.stmt selector cases).references bindings,
          original.name = r.name ∧ original.decl = r.decl := by
  have inArms : ∀ arm ∈ arms, Stmt.referencesOfList bindings arm.body ⊆
      (Stmt.switch edit.stmt selector cases).references bindings := fun arm isArm =>
    List.Subset.trans (unswitches.hasArms.references_subset (fun _ _ _ _ => rfl)
      (pairwise_of_areIndependent unswitches.independent) arm isArm)
      (List.subset_append_right _ _)
  rcases unswitches.isChain.mem_references listed with ⟨isNew, original, isOriginal, same⟩ |
    ⟨arm, isArm, inArm⟩ | inLast
  · exact Or.inr ⟨isNew, original, List.mem_append_left _
      (references_comparedSelector bindings selector isOriginal), same⟩
  · exact Or.inl (inArms arm (List.mem_filter.mp isArm).1 inArm)
  · cases unswitches.isLast with
    | none => cases inLast
    | block isDefault =>
        exact Or.inl (inArms _ (List.mem_of_find?_eq_some isDefault) inLast)

end SwitchChain.Unswitches

variable {shader : Shader} {version : Version}

/-- A chain that is found leaves a valid shader valid.  Every reference that remains
means the variable that it meant before; the others are copies, under new
identifiers, of references in the selector and mean the same as these. -/
theorem isValid_apply_of_unswitchify (valid : shader.IsValid version)
    (below : ∀ id ∈ shader.ids, id < shader.nextId) {everywhere : Bool} {edits : List Edit}
    (found : Kind.find .unswitchify ⟨version, everywhere⟩ shader = .ok edits) {edit : Edit}
    (listed : edit ∈ edits) :
    (edit.apply shader).IsValid version ∧ ∀ r ∈ (edit.apply shader).references,
      r ∈ shader.references ∨ shader.nextId ≤ r.id ∧ ∃ original ∈ shader.references,
        original.name = r.name ∧ original.decl = r.decl := by
  rcases Shader.isValid_iff.mp valid with ⟨distinct, follows⟩
  cases found
  rcases List.mem_map.mp listed with ⟨edit, isFound, rfl⟩
  rcases SwitchChain.exists_unswitches distinct follows isFound with
    ⟨spot, selector, cases, arms, last, chain, unswitches⟩
  have numbered := (Edit.unswitchify edit).isNumbered_apply ⟨distinct, below⟩
  have accepted := (Shader.accepts_at follows unswitches.isAt rfl).2
  have quiet := Shader.unmentioned_of_declared?
    (@SwitchChain.declared?_replacement edit.stmt chain unswitches.declared?_eq_none)
    (spot.slot.fill [])
  have applied : ((Edit.unswitchify edit).apply shader).decls =
      spot.fill [SwitchChain.replacement edit.stmt chain] := unswitches.decls
  constructor
  · refine Shader.isValid_iff.mpr ⟨numbered.1, Shader.followsRules_fill follows unswitches.isAt
      applied rfl ⟨SwitchChain.accepts_replacement (unswitches.acceptsOption accepted), trivial⟩
      quiet (Slot.fill_ne_nil (Or.inl (List.cons_ne_nil _ _))) fun _ holds => ?_⟩
    rw [List.any_cons, List.any_nil, Bool.or_false, SwitchChain.holdsReturn_replacement]
    exact unswitches.holdsReturn accepted holds
  · intro r isReference
    have inOld : ∀ r : Reference, r ∈ shader.references ↔
        r ∈ Decl.referencesOfList .empty (spot.fill []) ∨
          r ∈ Stmt.referencesOfList spot.bindings [.switch edit.stmt selector cases] := fun _ =>
      Shader.mem_references_iff unswitches.isAt (Shader.unmentioned_of_declared? rfl _)
    simp only [Stmt.referencesOfList, List.append_nil] at inOld
    rw [Shader.mem_references_iff applied quiet, Stmt.referencesOfList, Stmt.referencesOfList,
      List.append_nil, SwitchChain.references_replacement] at isReference
    rcases isReference with around | inChain
    · exact Or.inl ((inOld r).mpr (Or.inl around))
    · rcases unswitches.mem_references inChain with remains | ⟨isNew, original, isOriginal, same⟩
      · exact Or.inl ((inOld r).mpr (Or.inr remains))
      · exact Or.inr ⟨isNew, original, (inOld original).mpr (Or.inr isOriginal), same⟩

/-- The selector is compared with five alone, and its copy means the variable that it
meant. -/
theorem isValid_apply_switching :
    switching.IsValid .essl300 ∧
      Kind.find .unswitchify ⟨.essl300, true⟩ switching = .ok [.unswitchify ⟨5⟩] ∧
      ((Edit.unswitchify ⟨5⟩).apply switching).IsValid .essl300 ∧
      ∀ r ∈ ((Edit.unswitchify ⟨5⟩).apply switching).references,
        r ∈ switching.references ∨ switching.nextId ≤ r.id ∧
          ∃ original ∈ switching.references, original.name = r.name ∧ original.decl = r.decl := by
  have valid : switching.IsValid .essl300 := by decide
  have below : ∀ id ∈ switching.ids, id < switching.nextId := by decide
  have found : Kind.find .unswitchify ⟨.essl300, true⟩ switching = .ok [.unswitchify ⟨5⟩] := by rfl
  exact ⟨valid, found, isValid_apply_of_unswitchify valid below found List.mem_cons_self⟩

end Reduction
end Whittle
