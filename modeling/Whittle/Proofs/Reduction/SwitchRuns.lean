import Whittle.Proofs.Reduction.Places
import Whittle.Proofs.Reduction.SwitchArms
import Whittle.Reduction.Edit

namespace Whittle

open Reduction (Jumps)

/-!
# A chain runs what the switch ran

A switch enters its cases at a label and runs on until a `break` ends it.  The
chain that replaces it selects one branch.  For every value of the selector the
two run the same statements, apart from the `break`.
-/

namespace Stmt

/-- A `break` in the statement ends the switch or the loop around it. -/
inductive Breaks : Stmt → Prop where
  | breakOut {id : NodeId} : Breaks (.breakOut id)
  | block {id scope : NodeId} {stmts : List Stmt} {s : Stmt} (listed : s ∈ stmts)
      (within : Breaks s) : Breaks (.block id scope stmts)
  | whenTrue {id : NodeId} {cond : Expr} {s : Stmt} {whenFalse : Option Stmt} (within : Breaks s) :
      Breaks (.branch id cond s whenFalse)
  | whenFalse {id : NodeId} {cond : Expr} {whenTrue s : Stmt} (within : Breaks s) :
      Breaks (.branch id cond whenTrue (some s))

mutual

/-- The count of jumps tells whether there is such a `break`. -/
theorem breaks_iff (s : Stmt) : (Jumps.ofStmt s).breaks ≠ 0 ↔ s.Breaks := by
  cases s with
  | breakOut id => exact ⟨fun _ => .breakOut, fun _ => Nat.one_ne_zero⟩
  | block id scope stmts =>
      rw [Jumps.ofStmt, breaks_list_iff]
      constructor
      · rintro ⟨s, listed, within⟩
        exact .block listed within
      · rintro ⟨⟩
        rename_i s within listed
        exact ⟨s, listed, within⟩
  | branch id cond whenTrue whenFalse =>
      have first := breaks_iff whenTrue
      rw [Jumps.ofStmt, Jumps.add]
      cases whenFalse with
      | none =>
          constructor
          · exact fun leaves => .whenTrue (first.mp leaves)
          · rintro ⟨⟩
            rename_i within
            exact first.mpr within
      | some s =>
          have second := breaks_iff s
          rw [Jumps.ofOption]
          constructor
          · intro leaves
            by_cases inTrue : (Jumps.ofStmt whenTrue).breaks = 0
            · refine .whenFalse (second.mp fun none => leaves ?_)
              simp only [inTrue, none]
            · exact .whenTrue (first.mp inTrue)
          · intro within none
            have both := Nat.add_eq_zero_iff.mp none
            cases within with
            | whenTrue within => exact first.mpr within both.1
            | whenFalse within => exact second.mpr within both.2
  | decl | expr | forLoop | whileLoop | switch | ret | continueLoop | discard | empty =>
      exact iff_of_false (fun leaves => leaves rfl) nofun

theorem breaks_list_iff (stmts : List Stmt) :
    (Jumps.ofStmts stmts).breaks ≠ 0 ↔ ∃ s ∈ stmts, s.Breaks := by
  match stmts with
  | [] => exact iff_of_false (fun leaves => leaves rfl) (by simp)
  | s :: rest =>
      have first := breaks_iff s
      have others := breaks_list_iff rest
      rw [Jumps.ofStmts, Jumps.add, List.exists_mem_cons_iff, ← first, ← others]
      simp only [ne_eq, Nat.add_eq_zero_iff, not_and_or]

end

instance decidableBreaks : DecidablePred Breaks :=
  fun s => decidable_of_iff _ (breaks_iff s)

/-- The statements that run until the first `break`, the one with it included. -/
def runOn : List Stmt → List Stmt
  | [] => []
  | s :: rest => if s.Breaks then [s] else s :: runOn rest

/-- The statements without the `break` at their end. -/
def withoutBreak (stmts : List Stmt) : List Stmt :=
  if stmts.getLast?.any isBreak then stmts.dropLast else stmts

end Stmt

namespace Case

def startingAt (label : Label) (cases : List Case) : List Case :=
  cases.dropWhile fun one => one.label != label

/-- The cases that a switch enters for a value: those from the label with this
number on, and if there is none, those from the default on. -/
def entered (number : Int) (cases : List Case) : List Case :=
  if startingAt (.value number) cases = [] then startingAt .otherwise cases
  else startingAt (.value number) cases

/-- The statements that a switch runs for a value: from the label on, through all
cases that follow, until a `break` ends it. -/
def executed (number : Int) (cases : List Case) : List Stmt :=
  Stmt.runOn ((entered number cases).flatMap body)

end Case

/-- Whether a condition made of comparisons holds when `value` says what the
compared expressions evaluate to. -/
def Expr.holds (value : Expr → Int) : Expr → Bool
  | .binary _ .eq read (.int _ number) => value read == number
  | .binary _ .or first second => first.holds value || second.holds value
  | _ => false

namespace Stmt

mutual

/-- The statements of the branch that a chain of conditions selects. -/
def chosen (value : Expr → Int) : Stmt → List Stmt
  | .branch _ cond whenTrue whenFalse =>
      if cond.holds value then whenTrue.chosen value else chosenOfOption value whenFalse
  | .block _ _ stmts => stmts
  | _ => []

/-- The statements that the rest of a chain selects, if there is one. -/
def chosenOfOption (value : Expr → Int) : Option Stmt → List Stmt
  | none => []
  | some s => s.chosen value

end

end Stmt

namespace Reduction

theorem runOn_eq_self {stmts : List Stmt} (stays : (Jumps.ofStmts stmts).breaks = 0) :
    Stmt.runOn stmts = stmts := by
  induction stmts with
  | nil => rfl
  | cons s rest inductionHypothesis =>
      rw [Jumps.ofStmts, Jumps.add, Nat.add_eq_zero_iff] at stays
      have notHere : ¬ s.Breaks := fun breaks => (Stmt.breaks_iff s).mpr breaks stays.1
      rw [Stmt.runOn, if_neg notHere, inductionHypothesis stays.2]

theorem runOn_ended {stmts : List Stmt} (stays : (Jumps.ofStmts stmts).breaks = 0) (id : NodeId)
    (rest : List Stmt) :
    Stmt.runOn (stmts ++ .breakOut id :: rest) = stmts ++ [.breakOut id] := by
  induction stmts with
  | nil => exact if_pos .breakOut
  | cons s others inductionHypothesis =>
      rw [Jumps.ofStmts, Jumps.add, Nat.add_eq_zero_iff] at stays
      have notHere : ¬ s.Breaks := fun breaks => (Stmt.breaks_iff s).mpr breaks stays.1
      rw [List.cons_append, Stmt.runOn, if_neg notHere, inductionHypothesis stays.2]
      rfl

theorem withoutBreak_ended (stmts : List Stmt) (id : NodeId) :
    Stmt.withoutBreak (stmts ++ [.breakOut id]) = stmts := by
  simp [Stmt.withoutBreak, Stmt.isBreak]

theorem withoutBreak_eq_self {stmts : List Stmt} (stays : (Jumps.ofStmts stmts).breaks = 0) :
    Stmt.withoutBreak stmts = stmts := by
  unfold Stmt.withoutBreak
  rw [if_neg]
  intro ends
  cases isLast : stmts.getLast? with
  | none =>
      rw [isLast] at ends
      cases ends
  | some s =>
      rw [isLast] at ends
      cases s with
      | breakOut id =>
          exact (Stmt.breaks_list_iff stmts).mpr
            ⟨_, List.mem_of_getLast? isLast, .breakOut⟩ stays
      | _ => cases ends

/-- What a switch runs that enters these cases, without the `break` at the end.  It
may enter none. -/
def runs (cases : List Case) : Option (List Stmt) :=
  if cases = [] then none else some (Stmt.withoutBreak (Stmt.runOn (cases.flatMap Case.body)))

theorem startingAt_cons (label : Label) (one : Case) (rest : List Case) :
    Case.startingAt label (one :: rest) =
      if one.label = label then one :: rest else Case.startingAt label rest := by
  unfold Case.startingAt
  rw [List.dropWhile_cons]
  by_cases same : one.label = label <;> simp [same]

namespace HasArms

variable {pending : List Label} {cases : List Case} {arms : List Arm}

theorem cases_ne_nil (has : HasArms pending cases arms) (isPending : pending ≠ []) :
    cases ≠ [] := by
  cases has with
  | nil => exact absurd rfl isPending
  | _ => exact List.cons_ne_nil _ _

/-- From a label on, a switch runs the body of the first arm with this label. -/
theorem runs_eq (has : HasArms pending cases arms) (label : Label) :
    runs (if label ∈ pending then cases else Case.startingAt label cases) =
      (arms.find? fun arm => decide (label ∈ arm.labels)).map Arm.body := by
  induction has with
  | nil => simp [runs, Case.startingAt]
  | @shared pending id own rest arms behind inductionHypothesis =>
      have more : rest ≠ [] := behind.cases_ne_nil (by simp)
      have passes : runs (.mk id own [] :: rest) = runs rest := by simp [runs, more, Case.body]
      rw [← inductionHypothesis]
      by_cases isPending : label ∈ pending
      · simp [isPending, passes]
      · by_cases isOwn : label = own
        · simp [isOwn, startingAt_cons, Case.label, passes]
        · simp [isPending, isOwn, startingAt_cons, Case.label, Ne.symm isOwn]
  | @ended pending id last own stmts rest arms stays behind inductionHypothesis =>
      have here : runs (.mk id own (stmts ++ [.breakOut last]) :: rest) = some stmts := by
        simp [runs, Case.body, runOn_ended stays, withoutBreak_ended]
      rw [if_neg List.not_mem_nil] at inductionHypothesis
      by_cases isPending : label ∈ pending
      · simp [isPending, here]
      · by_cases isOwn : label = own
        · simp [isOwn, startingAt_cons, Case.label, here]
        · simp [isPending, isOwn, startingAt_cons, Case.label, Ne.symm isOwn, inductionHypothesis]
  | @last pending id own stmts stays =>
      have here : runs [.mk id own stmts] = some stmts := by
        simp [runs, Case.body, runOn_eq_self stays, withoutBreak_eq_self stays]
      by_cases isPending : label ∈ pending
      · simp [isPending, here]
      · by_cases isOwn : label = own
        · simp [isOwn, startingAt_cons, Case.label, here]
        · simp [isPending, isOwn, Case.label, Ne.symm isOwn, Case.startingAt, runs]

end HasArms

/-! ## The branch that is selected -/

namespace SwitchChain

variable {selector : Expr} {low : NodeId} {value : Expr → Int} {number : Int}

theorem IsTest.holds_eq {numbers : List Int} {cond : Expr} (tested : IsTest selector low numbers cond)
    (reads : ∀ start, value (selector.numbered start) = number) :
    cond.holds value = decide (number ∈ numbers) := by
  induction tested with
  | one => simp [Expr.holds, reads, beq_eq_decide]
  | more before isNew inductionHypothesis =>
      simp [Expr.holds, reads, inductionHypothesis, beq_eq_decide]

/-- A chain selects the first arm that is tested for the number, or else its end. -/
theorem IsChain.chosen_eq {last chain : Option Stmt} {arms : List Arm}
    (isChain : IsChain selector low last arms chain)
    (reads : ∀ start, value (selector.numbered start) = number) :
    Stmt.chosenOfOption value chain =
      ((arms.find? fun arm => decide (number ∈ arm.numbers)).map Arm.body).getD
        (Stmt.chosenOfOption value last) := by
  induction isChain with
  | last => rfl
  | skip noNumber behind inductionHypothesis =>
      rw [inductionHypothesis, List.find?_cons_of_neg (by simp [noNumber])]
  | branch tested behind inductionHypothesis =>
      rw [Stmt.chosenOfOption, Stmt.chosen, tested.holds_eq reads, inductionHypothesis]
      rw [List.find?_cons]
      split
      · rename_i isNumber
        rw [isNumber]
        rfl
      · rename_i notNumber
        rw [Bool.eq_false_iff.mpr notNumber]

end SwitchChain

theorem mem_numbers_iff {arm : Arm} {number : Int} :
    number ∈ arm.numbers ↔ .value number ∈ arm.labels := by
  unfold Arm.numbers
  rw [List.mem_filterMap]
  constructor
  · rintro ⟨label, listed, isNumber⟩
    cases label with
    | value other =>
        rw [← Option.some.inj isNumber]
        exact listed
    | otherwise => cases isNumber
  · exact fun listed => ⟨_, listed, rfl⟩

def armAt? (label : Label) (arms : List Arm) : Option Arm :=
  arms.find? fun arm => decide (label ∈ arm.labels)

theorem mem_of_armAt? {label : Label} {arms : List Arm} {arm : Arm}
    (found : armAt? label arms = some arm) : arm ∈ arms ∧ label ∈ arm.labels :=
  have fits := List.find?_some found
  ⟨List.mem_of_find?_eq_some found, of_decide_eq_true fits⟩

theorem armAt?_eq_none_iff {label : Label} {arms : List Arm} :
    armAt? label arms = none ↔ ∀ arm ∈ arms, label ∉ arm.labels := by
  unfold armAt?
  rw [List.find?_eq_none]
  simp only [decide_eq_true_eq]

/-- Where no label stands twice, an arm is known by any of its labels. -/
theorem armAt?_eq_some {label : Label} {arms : List Arm} {arm : Arm}
    (distinct : (arms.flatMap Arm.labels).Nodup) (listed : arm ∈ arms) (ofArm : label ∈ arm.labels) :
    armAt? label arms = some arm := by
  induction arms with
  | nil => cases listed
  | cons first rest inductionHypothesis =>
      rw [List.flatMap_cons, List.nodup_append] at distinct
      unfold armAt?
      rw [List.find?_cons]
      rcases List.mem_cons.mp listed with rfl | inRest
      · rw [decide_eq_true ofArm]
      · have notFirst : label ∉ first.labels := fun ofFirst =>
          distinct.2.2 _ ofFirst _ (List.mem_flatMap.mpr ⟨arm, inRest, ofArm⟩) rfl
        rw [decide_eq_false notFirst]
        exact inductionHypothesis distinct.2.1 inRest

namespace SwitchChain

/-- The branch that is selected holds the body of the arm with the number among its
labels, or else that of the default arm. -/
theorem chosen_eq_of_isChain {selector : Expr} {low : NodeId} {value : Expr → Int} {number : Int}
    {arms : List Arm} {last chain : Option Stmt} (distinct : (arms.flatMap Arm.labels).Nodup)
    (isLast : IsLast arms last)
    (isChain : IsChain selector low last (arms.filter fun arm => !arm.isDefault) chain)
    (reads : ∀ start, value (selector.numbered start) = number) :
    Stmt.chosenOfOption value chain =
      (((armAt? (.value number) arms).or (armAt? .otherwise arms)).map Arm.body).getD [] := by
  have defaultArm : arms.find? Arm.isDefault = armAt? .otherwise arms := by
    refine congrArg (arms.find? ·) (funext fun arm => ?_)
    rw [Arm.isDefault, List.contains_eq_mem]
  have ofLast : Stmt.chosenOfOption value last =
      ((armAt? .otherwise arms).map Arm.body).getD [] := by
    rw [← defaultArm]
    cases isLast with
    | none noDefault =>
        rw [noDefault]
        rfl
    | block found =>
        rw [found]
        rfl
  have tested : ∀ others : List Arm, (others.find? fun arm => decide (number ∈ arm.numbers)) =
      armAt? (.value number) others := fun others => by simp only [armAt?, mem_numbers_iff]
  rw [isChain.chosen_eq reads, ofLast, tested]
  cases found : armAt? (.value number) arms with
  | none =>
      have noTest : armAt? (.value number) (arms.filter fun arm => !arm.isDefault) = none :=
        armAt?_eq_none_iff.mpr fun arm listed =>
          armAt?_eq_none_iff.mp found arm (List.mem_filter.mp listed).1
      rw [noTest]
      rfl
  | some arm =>
      rcases mem_of_armAt? found with ⟨listed, hasNumber⟩
      -- the arm with the number is among those that are tested for, unless it is the default arm
      by_cases ofDefault : Label.otherwise ∈ arm.labels
      · have noTest : armAt? (.value number) (arms.filter fun arm => !arm.isDefault) = none := by
          refine armAt?_eq_none_iff.mpr fun other isOther hasNumber' => ?_
          rcases List.mem_filter.mp isOther with ⟨isOther, notDefault⟩
          have same := (armAt?_eq_some distinct isOther hasNumber').symm.trans found
          rw [Option.some.inj same, Arm.isDefault, List.contains_eq_mem,
            decide_eq_true ofDefault] at notDefault
          cases notDefault
        rw [noTest, armAt?_eq_some distinct listed ofDefault]
        rfl
      · have isTested : arm ∈ arms.filter fun arm => !arm.isDefault := by
          refine List.mem_filter.mpr ⟨listed, ?_⟩
          rw [Arm.isDefault, List.contains_eq_mem, decide_eq_false ofDefault]
          rfl
        have fewer : ((arms.filter fun arm => !arm.isDefault).flatMap Arm.labels).Nodup :=
          distinct.sublist (List.filter_sublist.flatMap Arm.labels)
        rw [armAt?_eq_some fewer isTested hasNumber]
        rfl

end SwitchChain

/-- The labels of an accepted switch are all different. -/
theorem nodup_labels_of_acceptsCases {ctx : Check.Context} {before : List Label}
    {cases : List Case} (accepted : ctx.AcceptsCases before cases) :
    (cases.map Case.label).Nodup ∧ ∀ label ∈ before, label ∉ cases.map Case.label := by
  induction cases generalizing ctx before with
  | nil => exact ⟨List.nodup_nil, fun _ _ => List.not_mem_nil⟩
  | cons one rest inductionHypothesis =>
      cases one with
      | mk id label body =>
          have others := inductionHypothesis accepted.2.2
          rw [List.map_cons, List.nodup_cons]
          refine ⟨⟨others.2 label List.mem_cons_self, others.1⟩, fun earlier listed isHere => ?_⟩
          rcases List.mem_cons.mp isHere with rfl | isLater
          · exact accepted.1 listed
          · exact others.2 earlier (List.mem_cons_of_mem _ listed) isLater

theorem HasArms.withoutBreak_executed {cases : List Case} {arms : List Arm}
    (has : HasArms [] cases arms) (number : Int) :
    Stmt.withoutBreak (Case.executed number cases) =
      (((armAt? (.value number) arms).or (armAt? .otherwise arms)).map Arm.body).getD [] := by
  have entering : ∀ label, runs (Case.startingAt label cases) = (armAt? label arms).map Arm.body :=
    fun label => by simpa [armAt?] using has.runs_eq label
  have found : ∀ start : List Case,
      Stmt.withoutBreak (Stmt.runOn (start.flatMap Case.body)) = (runs start).getD [] := fun start => by
    unfold runs
    split
    · rename_i isEmpty
      rw [isEmpty]
      rfl
    · rfl
  unfold Case.executed Case.entered
  split
  · rename_i notLabelled
    have none := entering (.value number)
    rw [notLabelled] at none
    rw [found, entering, Option.map_eq_none_iff.mp none.symm, Option.none_or]
  · rename_i labelled
    have some := entering (.value number)
    rw [runs, if_neg labelled] at some
    rcases Option.map_eq_some_iff.mp some.symm with ⟨arm, isArm, isBody⟩
    rw [isArm, Option.some_or, Option.map_some, isBody]
    rfl

variable {shader : Shader} {version : Version}

/-- For every value of the selector, the chain that replaces a switch runs what the
switch ran up to its `break`, and no `break` of the switch is left in it.  Each
comparison of the chain reads a copy of the selector; the copies have one value,
since evaluating the selector has no effect. -/
theorem chosen_eq_executed_of_unswitchify (valid : shader.IsValid version) {everywhere : Bool}
    {edits : List Edit}
    (found : Kind.find .unswitchify ⟨version, everywhere⟩ shader = .ok edits) {edit : SwitchChain}
    (listed : .unswitchify edit ∈ edits) :
    ∃ selector cases chain, shader.findStmt? edit.stmt = some (.switch edit.stmt selector cases) ∧
      ((Edit.unswitchify edit).apply shader).findStmt? edit.stmt = some chain ∧
      ∀ (number : Int) (value : Expr → Int),
        (∀ start, value ((comparedSelector selector).numbered start) = number) →
        chain.chosen value = Stmt.withoutBreak (Case.executed number cases) ∧
          ∀ s ∈ chain.chosen value, ¬ s.Breaks := by
  rcases Shader.isValid_iff.mp valid with ⟨distinct, follows⟩
  have isFound : edit ∈ SwitchChain.find everywhere shader := by
    cases found
    rcases List.mem_map.mp listed with ⟨other, isFound, same⟩
    cases same
    exact isFound
  rcases SwitchChain.exists_unswitches distinct follows isFound with
    ⟨spot, selector, cases, arms, last, chain, unswitches⟩
  have accepted := (Shader.accepts_at follows unswitches.isAt rfl).2
  have labels := unswitches.hasArms.flatMap_labels
  rw [List.nil_append] at labels
  have noneTwice : (arms.flatMap Arm.labels).Nodup := by
    rw [labels]
    exact (nodup_labels_of_acceptsCases accepted.2.2.2).1
  -- The parts of the chain come behind it, so nothing has to be known of their identifiers.
  have absent : edit.stmt ∉ (spot.fill []).flatMap Decl.ids := by
    rw [Shader.ids, unswitches.isAt] at distinct
    exact (Spot.nodup_ids_run distinct).2 edit.stmt (List.mem_append_left _ (Stmt.id_mem_ids _))
  refine ⟨selector, cases, (chain.getD (.empty edit.stmt)).withId edit.stmt,
    Shader.findStmt?_fill unswitches.isAt distinct, ?_, fun number value reads => ?_⟩
  · have isThere := Shader.findStmt?_fill_of_notMem unswitches.decls (by rwa [Stmt.id_withId])
    rwa [Stmt.id_withId] at isThere
  · have same : ((chain.getD (.empty edit.stmt)).withId edit.stmt).chosen value =
        Stmt.chosenOfOption value chain := by
      cases chain with
      | none => rfl
      | some s => cases s <;> rfl
    have chosen := SwitchChain.chosen_eq_of_isChain noneTwice unswitches.isLast unswitches.isChain
      reads
    rw [same, unswitches.hasArms.withoutBreak_executed, chosen]
    refine ⟨rfl, fun s isChosen breaks => ?_⟩
    cases isArm : (armAt? (.value number) arms).or (armAt? .otherwise arms) with
    | none =>
        rw [isArm] at isChosen
        cases isChosen
    | some arm =>
        rw [isArm] at isChosen
        have isMember : arm ∈ arms := by
          rcases Option.or_eq_some_iff.mp isArm with isFirst | ⟨-, isSecond⟩
          · exact (mem_of_armAt? isFirst).1
          · exact (mem_of_armAt? isSecond).1
        exact (Stmt.breaks_list_iff arm.body).mpr ⟨s, isChosen, breaks⟩
          (unswitches.hasArms.breaks_eq_zero isMember)

/-- The shader `void main() { int t = 1; switch (t) { case 0: default: t = 2; break;
case 5: discard; } }`. -/
def switching : Shader :=
  .ofDecls .essl300 [.function ⟨.unnumbered, .void, "main", [], ⟨.unnumbered,
    [.decl .unnumbered ⟨.unnumbered, none, .int, "t", some (.int .unnumbered 1)⟩,
     .switch .unnumbered (.var .unnumbered "t")
      [.mk .unnumbered (.value 0) [],
       .mk .unnumbered .otherwise
        [.expr .unnumbered (.assign .unnumbered .set (.var .unnumbered "t") (.int .unnumbered 2)),
         .breakOut .unnumbered],
       .mk .unnumbered (.value 5) [.discard .unnumbered]]]⟩⟩]

/-- A default in the middle and a case that ends with the switch. -/
theorem chosen_eq_executed_switching :
    switching.IsValid .essl300 ∧
      Kind.find .unswitchify ⟨.essl300, true⟩ switching = .ok [.unswitchify ⟨5⟩] ∧
      ∃ selector cases chain, switching.findStmt? 5 = some (.switch 5 selector cases) ∧
        ((Edit.unswitchify ⟨5⟩).apply switching).findStmt? 5 = some chain ∧
        ∀ (number : Int) (value : Expr → Int),
          (∀ start, value ((comparedSelector selector).numbered start) = number) →
          chain.chosen value = Stmt.withoutBreak (Case.executed number cases) ∧
            ∀ s ∈ chain.chosen value, ¬ s.Breaks := by
  have valid : switching.IsValid .essl300 := by decide
  have found : Kind.find .unswitchify ⟨.essl300, true⟩ switching = .ok [.unswitchify ⟨5⟩] := by rfl
  exact ⟨valid, found, chosen_eq_executed_of_unswitchify valid found List.mem_cons_self⟩

end Reduction
end Whittle
