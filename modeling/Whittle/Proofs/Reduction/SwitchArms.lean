import Whittle.Proofs.Identifiers.SwitchChain
import Whittle.Proofs.Reduction.Places

namespace Whittle
namespace Reduction

/-!
# The arms of a switch and the chain made of them

What the search for arms says of the cases of a switch, and what the steps that
build a chain make of the arms, is stated here once as a matter of shape.  What a
chain does, and whether it is well formed, are questions about the shape alone.
-/

/-- The cases form these arms, the first of which has the labels `pending` in
front of those of its own.  An arm ends in a `break`, or with the switch. -/
inductive HasArms : List Label → List Case → List Arm → Prop where
  | nil : HasArms [] [] []
  | shared {pending : List Label} {id : NodeId} {label : Label} {rest : List Case} {arms : List Arm}
      (behind : HasArms (pending ++ [label]) rest arms) :
      HasArms pending (.mk id label [] :: rest) arms
  | ended {pending : List Label} {id last : NodeId} {label : Label} {stmts : List Stmt}
      {rest : List Case} {arms : List Arm} (stays : (Jumps.ofStmts stmts).breaks = 0)
      (behind : HasArms [] rest arms) :
      HasArms pending (.mk id label (stmts ++ [.breakOut last]) :: rest)
        (⟨pending ++ [label], stmts⟩ :: arms)
  | last {pending : List Label} {id : NodeId} {label : Label} {stmts : List Stmt}
      (stays : (Jumps.ofStmts stmts).breaks = 0) :
      HasArms pending [.mk id label stmts] [⟨pending ++ [label], stmts⟩]

/-- The body of an arm is that of its case without the `break` at its end. -/
theorem eq_append_of_armBody? {isLast : Bool} {body stmts : List Stmt}
    (found : armBody? isLast body = some stmts) :
    (Jumps.ofStmts stmts).breaks = 0 ∧
      ((∃ id, body = stmts ++ [.breakOut id]) ∨ isLast = true ∧ body = stmts) := by
  simp only [armBody?, Option.ite_none_right_eq_some, Option.some.injEq, Bool.and_eq_true,
    Bool.or_eq_true, beq_iff_eq] at found
  rcases found with ⟨⟨ends, stays⟩, isBody⟩
  rw [isBody] at stays
  refine ⟨stays, ?_⟩
  cases isLastStmt : body.getLast? with
  | none =>
      simp only [isLastStmt, Option.any_none, Bool.false_eq_true, if_false, false_or] at ends isBody
      exact Or.inr ⟨ends, isBody⟩
  | some s =>
      simp only [isLastStmt, Option.any_some] at ends isBody
      cases s with
      | breakOut id =>
          refine Or.inl ⟨id, ?_⟩
          rw [← isBody]
          exact (List.dropLast_append_getLast? _ isLastStmt).symm
      | _ => exact Or.inr ⟨ends.resolve_left Bool.false_ne_true, isBody⟩

theorem hasArms_of_armsFrom? {pending : List Label} {cases : List Case} {arms : List Arm}
    (found : armsFrom? pending cases = some arms) (isPending : cases = [] → pending = []) :
    HasArms pending cases arms := by
  induction cases generalizing pending arms with
  | nil =>
      cases found
      rw [isPending rfl]
      exact .nil
  | cons one rest inductionHypothesis =>
      cases one with
      | mk id label body =>
          rw [armsFrom?] at found
          split at found
          · rename_i isShared
            rw [Bool.and_eq_true, List.isEmpty_iff, Bool.not_eq_true', ← Bool.not_eq_true,
              List.isEmpty_iff] at isShared
            rw [isShared.1]
            exact .shared (inductionHypothesis found fun isEmpty => absurd isEmpty isShared.2)
          · simp only [Option.bind_eq_bind, Option.bind_eq_some_iff, Option.some.injEq] at found
            rcases found with ⟨stmts, isBody, others, isOthers, rfl⟩
            rcases eq_append_of_armBody? isBody with ⟨stays, ⟨last, rfl⟩ | ⟨isLast, rfl⟩⟩
            · exact .ended stays (inductionHypothesis isOthers fun _ => rfl)
            · rw [List.isEmpty_iff] at isLast
              subst isLast
              cases isOthers
              exact .last stays

theorem hasArms_of_arms? {cases : List Case} {arms : List Arm} (found : arms? cases = some arms) :
    HasArms [] cases arms :=
  hasArms_of_armsFrom? found fun _ => rfl

namespace HasArms

variable {pending : List Label} {cases : List Case} {arms : List Arm}

/-- The labels of the arms are those of the cases, in order. -/
theorem flatMap_labels (has : HasArms pending cases arms) :
    arms.flatMap Arm.labels = pending ++ cases.map Case.label := by
  induction has with
  | nil => rfl
  | shared behind inductionHypothesis =>
      rw [inductionHypothesis, List.append_assoc]
      rfl
  | ended stays behind inductionHypothesis =>
      rw [List.flatMap_cons, inductionHypothesis, List.append_assoc]
      rfl
  | last => exact List.append_nil _

theorem breaks_eq_zero (has : HasArms pending cases arms) {arm : Arm} (listed : arm ∈ arms) :
    (Jumps.ofStmts arm.body).breaks = 0 := by
  induction has with
  | nil => cases listed
  | shared behind inductionHypothesis => exact inductionHypothesis listed
  | ended stays behind inductionHypothesis =>
      rcases List.mem_cons.mp listed with rfl | inRest
      · exact stays
      · exact inductionHypothesis inRest
  | last stays => rwa [List.mem_singleton.mp listed]

theorem labels_ne_nil (has : HasArms pending cases arms) {arm : Arm} (listed : arm ∈ arms) :
    arm.labels ≠ [] := by
  induction has with
  | nil => cases listed
  | shared behind inductionHypothesis => exact inductionHypothesis listed
  | ended stays behind inductionHypothesis =>
      rcases List.mem_cons.mp listed with rfl | inRest
      · simp
      · exact inductionHypothesis inRest
  | last stays =>
      rw [List.mem_singleton.mp listed]
      simp

/-- A `return` behind a label is in an arm. -/
theorem any_holdsReturn (has : HasArms pending cases arms) :
    (cases.flatMap Case.body).any Stmt.holdsReturn =
      arms.any fun arm => arm.body.any Stmt.holdsReturn := by
  induction has with
  | nil => rfl
  | shared behind inductionHypothesis => exact inductionHypothesis
  | ended stays behind inductionHypothesis =>
      have noReturn : ∀ id, (Stmt.breakOut id).holdsReturn = false := fun _ => rfl
      simp only [List.flatMap_cons, List.any_append, inductionHypothesis, List.any_cons, Case.body,
        noReturn, List.any_nil, Bool.or_false]
  | last => simp [Case.body]

end HasArms

/-- No arm mentions what another one declares. -/
theorem pairwise_of_areIndependent {arms : List Arm} (independent : areIndependent arms = true) :
    arms.Pairwise fun arm other => Unmentioned (Stmt.declaredBy arm.body) other.body := by
  rw [List.pairwise_iff_getElem]
  intro first second isFirst isSecond before name listed
  rcases List.mem_map.mp listed with ⟨var, isDeclared, rfl⟩
  have isPosition : (arms[first], first) ∈ arms.zipIdx :=
    List.mem_zipIdx_iff_getElem?.mpr (List.getElem?_eq_getElem isFirst)
  have ofArm := List.all_eq_true.mp independent _ isPosition
  have ofVar := List.all_eq_true.mp ofArm var isDeclared
  have isOther : arms[second] ∈ arms.eraseIdx first :=
    List.mem_eraseIdx_iff_getElem.mpr ⟨second, isSecond, by omega, rfl⟩
  have notMentioned := List.all_eq_true.mp ofVar _ isOther
  simp only [Names.mentions, Bool.not_eq_true', Bool.or_eq_false_iff, List.contains_eq_mem,
    decide_eq_false_iff_not] at notMentioned
  exact ⟨notMentioned.1.2, notMentioned.1.1⟩

def Label.number? : Label → Option Int
  | .value number => some number
  | .otherwise => none

def Arm.numbers (arm : Arm) : List Int :=
  arm.labels.filterMap Label.number?

namespace SwitchChain

/-- The condition compares copies of a selector with these numbers.  The copies
have identifiers from `low` on. -/
inductive IsTest (selector : Expr) (low : NodeId) : List Int → Expr → Prop where
  | one {id start rhs : NodeId} {number : Int} (isNew : low ≤ start) :
      IsTest selector low [number] (.binary id .eq (selector.numbered start) (.int rhs number))
  | more {id other start rhs : NodeId} {numbers : List Int} {number : Int} {before : Expr}
      (tested : IsTest selector low numbers before) (isNew : low ≤ start) :
      IsTest selector low (numbers ++ [number])
        (.binary id .or before (.binary other .eq (selector.numbered start) (.int rhs number)))

/-- There is a condition for these numbers, unless there is no number. -/
inductive IsTests (selector : Expr) (low : NodeId) : List Int → Option Expr → Prop where
  | none : IsTests selector low [] .none
  | some {numbers : List Int} {cond : Expr} (isTest : IsTest selector low numbers cond) :
      IsTests selector low numbers (.some cond)

theorem isTests_alternatives {selector : Expr} {low : NodeId} {numbers : List Int}
    {cond : Option Expr} (labels : List Label) (shader : Shader) (isNew : low ≤ shader.nextId)
    (tests : IsTests selector low numbers cond) :
    IsTests selector low (numbers ++ labels.filterMap Label.number?)
      ((alternatives selector cond labels).run shader).1 := by
  induction labels generalizing numbers cond shader with
  | nil =>
      rw [List.filterMap_nil, List.append_nil]
      exact tests
  | cons label rest inductionHypothesis =>
      cases label with
      | otherwise => exact inductionHypothesis shader isNew tests
      | value number =>
          have split : numbers ++ (Label.value number :: rest).filterMap Label.number? =
              (numbers ++ [number]) ++ rest.filterMap Label.number? := by
            rw [List.append_assoc]
            rfl
          rw [split]
          have later : low ≤ shader.nextId + selector.size + 1 + 1 :=
            Nat.le_trans isNew (by rw [Nat.add_assoc, Nat.add_assoc]; exact Nat.le_add_right _ _)
          cases tests with
          | none =>
              exact inductionHypothesis
                { shader with nextId := shader.nextId + selector.size + 1 + 1 } later
                (.some (.one isNew))
          | some isTest =>
              exact inductionHypothesis
                { shader with nextId := shader.nextId + selector.size + 1 + 1 + 1 }
                (Nat.le_succ_of_le later) (.some (.more isTest isNew))

/-- The statement tests for the arms one after the other and ends in `last`.  An
arm without numbers cannot be tested for. -/
inductive IsChain (selector : Expr) (low : NodeId) (last : Option Stmt) :
    List Arm → Option Stmt → Prop where
  | last : IsChain selector low last [] last
  | skip {arm : Arm} {rest : List Arm} {chain : Option Stmt} (noNumber : arm.numbers = [])
      (behind : IsChain selector low last rest chain) : IsChain selector low last (arm :: rest) chain
  | branch {id inner scope : NodeId} {arm : Arm} {rest : List Arm} {cond : Expr}
      {chain : Option Stmt} (tested : IsTest selector low arm.numbers cond)
      (behind : IsChain selector low last rest chain) :
      IsChain selector low last (arm :: rest)
        (some (.branch id cond (.block inner scope arm.body) chain))

theorem isChain_prepend {selector : Expr} {low : NodeId} {last chain : Option Stmt}
    {done : List Arm} (arms : List Arm) (shader : Shader) (isNew : low ≤ shader.nextId)
    (isChain : IsChain selector low last done chain) :
    IsChain selector low last (arms.reverse ++ done)
      ((prepend selector chain arms).run shader).1 := by
  induction arms generalizing chain done shader with
  | nil => exact isChain
  | cons arm rest inductionHypothesis =>
      have tests : IsTests selector low arm.numbers _ :=
        isTests_alternatives arm.labels shader isNew .none
      have forward := ((builds_alternatives selector none arm.labels).draws shader).forward
      rw [List.reverse_cons, List.append_assoc, List.singleton_append, prepend]
      simp only [StateT.run_bind]
      generalize (alternatives selector none arm.labels).run shader = built at tests forward
      rcases built with ⟨cond, drawn⟩
      have later : low ≤ drawn.nextId := Nat.le_trans isNew forward
      generalize areNumbers : arm.numbers = numbers at tests
      cases tests with
      | none => exact inductionHypothesis drawn later (.skip areNumbers isChain)
      | some isTest =>
          rw [← areNumbers] at isTest
          exact inductionHypothesis { drawn with nextId := drawn.nextId + 1 + 1 + 1 }
            (Nat.le_trans later (Nat.le_add_right _ 3)) (.branch isTest isChain)

/-- The end of a chain is a block for the default arm, if there is one. -/
inductive IsLast (arms : List Arm) : Option Stmt → Prop where
  | none (noDefault : arms.find? Arm.isDefault = .none) : IsLast arms .none
  | block {id scope : NodeId} {arm : Arm} (isDefault : arms.find? Arm.isDefault = .some arm) :
      IsLast arms (.some (.block id scope arm.body))

theorem isChain_chain (selector : Expr) (arms : List Arm) (shader : Shader) :
    ∃ last, IsLast arms last ∧ IsChain selector shader.nextId last
      (arms.filter fun arm => !arm.isDefault) ((chain selector arms).run shader).1 := by
  unfold chain
  cases found : arms.find? Arm.isDefault with
  | none =>
      have built := isChain_prepend (arms.filter fun arm => !arm.isDefault).reverse shader
        (Nat.le_refl _) (.last : IsChain selector shader.nextId none [] none)
      rw [List.reverse_reverse, List.append_nil] at built
      exact ⟨none, .none found, built⟩
  | some arm =>
      have built := isChain_prepend (arms.filter fun arm => !arm.isDefault).reverse
        { shader with nextId := shader.nextId + 1 + 1 } (Nat.le_add_right _ 2)
        (.last : IsChain selector shader.nextId
          (some (.block (shader.nextId + 1) shader.nextId arm.body)) [] _)
      rw [List.reverse_reverse, List.append_nil] at built
      exact ⟨_, .block found, built⟩

/-- The edit puts this chain in the place of the switch with this selector and
these cases. -/
structure Unswitches (edit : SwitchChain) (shader : Shader) (spot : Spot) (selector : Expr)
    (cases : List Case) (arms : List Arm) (last chain : Option Stmt) : Prop where
  isAt : shader.decls = spot.fill [.switch edit.stmt selector cases]
  hasArms : HasArms [] cases arms
  independent : areIndependent arms = true
  isLast : IsLast arms last
  isChain : IsChain (comparedSelector selector) shader.nextId last
    (arms.filter fun arm => !arm.isDefault) chain
  decls : (edit.apply shader).decls = spot.fill [(chain.getD (.empty edit.stmt)).withId edit.stmt]

theorem exists_unswitches {shader : Shader} {version : Version} (distinct : shader.ids.Nodup)
    (follows : shader.FollowsRules version) {everywhere : Bool} {edit : SwitchChain}
    (listed : edit ∈ find everywhere shader) :
    ∃ spot selector cases arms last chain,
      Unswitches edit shader spot selector cases arms last chain := by
  rcases List.mem_filterMap.mp listed with ⟨site, isSite, isEdit⟩
  rcases exists_spot_of_mem_sites follows isSite with ⟨spot, -, isAt, -, -⟩
  rcases site with ⟨f, list, s⟩
  unfold ofStmt? at isEdit
  cases s with
  | switch id selector cases =>
      simp only [Option.ite_none_right_eq_some, Option.some.injEq, Bool.and_eq_true] at isEdit
      rcases isEdit with ⟨⟨-, allowed⟩, rfl⟩
      rcases (Option.any_eq_true _ _).mp allowed with ⟨arms, areArms, independent⟩
      rcases isChain_chain (comparedSelector selector) arms shader with ⟨last, isLast, isChain⟩
      have draws := (builds_chain (comparedSelector selector) arms).draws shader
      refine ⟨spot, selector, cases, arms, last, _, isAt, hasArms_of_arms? areArms, independent,
        isLast, isChain, ?_⟩
      have found : shader.findStmt? id = some (.switch id selector cases) :=
        Shader.findStmt?_fill isAt distinct
      have replaced := Shader.replaceStmt_fill (draws.decls.trans isAt)
        (draws.ids_eq.symm ▸ distinct)
      simp only [apply, found, areArms]
      exact congrArg Shader.decls (replaced _)
  | _ => cases isEdit

end SwitchChain
end Reduction
end Whittle
