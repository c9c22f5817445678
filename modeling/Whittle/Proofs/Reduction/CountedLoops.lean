import Whittle.Proofs.RoundTrip.Stripped
import Whittle.Reduction.Stmt.LoopMerge

namespace Whittle

/-!
# What counted loops run

A loop that counts runs its body for one value of the counter after the other.  The body may
end the loop, by a `return` or a `discard`, and it may end its own run by a `continue`.
Nothing else is assumed of what bodies mean, except that it is not a matter of identifiers
and parentheses.
-/

/-- How a statement ends. -/
inductive Ending where
  | normal
  | continued
  | returned
  | discarded
deriving DecidableEq

/-- Whether a loop goes on when its body has ended so. -/
def Ending.goesOn : Ending → Bool
  | .normal | .continued => true
  | .returned | .discarded => false

/-- What the body of a loop does: the state that it leaves and how it ends, from a value of
the counter and a state. -/
abbrev BodyMeaning (σ : Type) := Stmt → Int → σ → σ × Ending

/-- Bodies that differ in identifiers and parentheses mean the same. -/
def BodyMeaning.IgnoresParens {σ : Type} (meaning : BodyMeaning σ) : Prop :=
  ∀ ⦃body body' : Stmt⦄, body.stripped = body'.stripped → meaning body = meaning body'

namespace Expr

def counted? (counter : String) (value : Int) : Expr → Option Int
  | .int _ number => some number
  | .var _ name => if name == counter then some value else none
  | _ => none

/-- Whether a comparison in the header of a loop holds for a value of its counter. -/
def allows? (counter : String) (value : Int) : Expr → Option Bool
  | .binary _ .lt lhs rhs =>
      (lhs.counted? counter value).bind fun left =>
        (rhs.counted? counter value).map fun right => decide (left < right)
  | _ => none

/-- The value of the counter behind the step of a loop. -/
def stepped? (counter : String) (value : Int) : Expr → Option Int
  | .unary _ .postIncrement operand | .unary _ .preIncrement operand =>
      if operand.varName? == some counter then some (value + 1) else none
  | _ => none

end Expr

namespace Stmt

variable {σ : Type}

section

variable (body : Int → σ → σ × Ending) (counter : String) (cond step : Expr)

/-- What a loop does from a value of its counter and a state on. -/
inductive RunsFrom : Int → σ → σ × Ending → Prop where
  | finished {value : Int} {state : σ} (ends : cond.allows? counter value = some false) :
      RunsFrom value state (state, .normal)
  | next {value value' : Int} {state : σ} {result : σ × Ending}
      (holds : cond.allows? counter value = some true)
      (goesOn : (body value state).2.goesOn = true)
      (stepped : step.stepped? counter value = some value')
      (behind : RunsFrom value' (body value state).1 result) : RunsFrom value state result
  | left {value : Int} {state : σ} (holds : cond.allows? counter value = some true)
      (leaves : (body value state).2.goesOn = false) : RunsFrom value state (body value state)

end

variable (meaning : BodyMeaning σ)

/-- What a loop that declares its counter does from a state on. -/
inductive Runs : Stmt → σ → σ × Ending → Prop where
  | forLoop {id declId initId : NodeId} {var : VarDecl} {start : Int} {cond step : Expr}
      {body : Stmt} {state : σ} {result : σ × Ending} (starts : var.init = some (.int initId start))
      (runs : RunsFrom (meaning body) var.name cond step start state result) :
      Runs (.forLoop id (some (.decl declId var)) (some cond) (some step) body) state result

/-- What two loops in a row do from a state on. -/
inductive RunInTurn (first second : Stmt) : σ → σ × Ending → Prop where
  | both {state between : σ} {result : σ × Ending}
      (runs : first.Runs meaning state (between, .normal))
      (behind : second.Runs meaning between result) : RunInTurn first second state result
  | firstOnly {state : σ} {result : σ × Ending} (runs : first.Runs meaning state result)
      (leaves : result.2 ≠ .normal) : RunInTurn first second state result

end Stmt

namespace Reduction

section

variable {σ : Type} (body : Int → σ → σ × Ending)

/-- Run a body for a number of values, one after the other, unless it ends the loop. -/
def iterate : Nat → Int → σ → σ × Ending
  | 0, _, state => (state, .normal)
  | count + 1, value, state =>
      if (body value state).2.goesOn then iterate count (value + 1) (body value state).1
      else body value state

/-- A number of runs behind another are so many runs. -/
theorem iterate_add (count count' : Nat) (value : Int) (state : σ) :
    iterate body (count + count') value state =
      if (iterate body count value state).2 = .normal then
        iterate body count' (value + count) (iterate body count value state).1
      else iterate body count value state := by
  induction count generalizing value state with
  | zero => rw [iterate, if_pos rfl, Nat.zero_add, Int.natCast_zero, Int.add_zero]
  | succ count inductionHypothesis =>
      rw [Nat.succ_add, iterate, iterate]
      split
      · rw [inductionHypothesis, Int.natCast_succ, Int.add_assoc, Int.add_comm 1]
      · rename_i leaves
        have notNormal : (body value state).2 ≠ .normal := fun isNormal =>
          leaves (by rw [isNormal]; rfl)
        rw [if_neg notNormal]

end

/-- Run a counted loop. -/
def CountedLoop.run {σ : Type} (meaning : BodyMeaning σ) (loop : CountedLoop) (state : σ) :
    σ × Ending :=
  iterate (meaning loop.body) (loop.stop - loop.start).toNat loop.start state

/-- What the recognised loop looks like.  Its body leaves the counter alone and does not end the
loop by a `break`. -/
structure CountedLoop.Describes (loop : CountedLoop) (s : Stmt) : Prop where
  shape : ∃ declId varId initId condId lhsId stepId operandId op,
    (op = .postIncrement ∨ op = .preIncrement) ∧
      s = .forLoop loop.id
        (some (.decl declId ⟨varId, none, .int, loop.counter, some (.int initId loop.start)⟩))
        (some (.binary condId .lt (.var lhsId loop.counter) (.int loop.stopId loop.stop)))
        (some (.unary stepId op (.var operandId loop.counter))) loop.body
  unassigned : (Names.ofStmts [loop.body]).assigns loop.counter = false
  stays : (Jumps.ofStmt loop.body).breaks = 0

theorem exists_of_varName? {e : Expr} {name : String} (named : e.varName? = some name) :
    ∃ id, e = .var id name := by
  cases e with
  | var id =>
      cases named
      exact ⟨id, rfl⟩
  | _ => cases named

theorem countedLoop?_eq_some_iff {s : Stmt} {loop : CountedLoop} :
    countedLoop? s = some loop ↔ loop.Describes s := by
  constructor
  · intro counts
    unfold countedLoop? at counts
    split at counts
    · extract_lets header undisturbed at counts
      rcases Option.ite_none_right_eq_some.mp counts with ⟨holds, same⟩
      cases same
      simp only [header, undisturbed, Bool.and_eq_true, Bool.or_eq_true, beq_iff_eq,
        Bool.not_eq_true'] at holds
      rcases holds with ⟨⟨⟨⟨rfl, isStep⟩, isLeft⟩, isOperand⟩, unassigned, stays⟩
      rcases exists_of_varName? isLeft with ⟨lhsId, rfl⟩
      rcases exists_of_varName? isOperand with ⟨operandId, rfl⟩
      exact ⟨⟨_, _, _, _, _, _, _, _, isStep, rfl⟩, unassigned, stays⟩
    · cases counts
  · rintro ⟨⟨declId, varId, initId, condId, lhsId, stepId, operandId, op, isStep, rfl⟩,
      unassigned, stays⟩
    rcases isStep with rfl | rfl <;>
      simp [countedLoop?, Expr.varName?, unassigned, stays]

namespace CountedLoop

variable {σ : Type} {meaning : BodyMeaning σ} {loop : CountedLoop} {s : Stmt}

section

variable {body : Int → σ → σ × Ending} {counter : String} {cond step : Expr} {stop : Int}
  (allows : ∀ value, cond.allows? counter value = some (decide (value < stop)))
  (steps : ∀ value, step.stepped? counter value = some (value + 1))
include allows steps

/-- A loop that counts up to a bound runs its body for all values below it. -/
theorem runsFrom_iterate (value : Int) (state : σ) :
    Stmt.RunsFrom body counter cond step value state
      (iterate body (stop - value).toNat value state) := by
  induction count : (stop - value).toNat generalizing value state with
  | zero => exact .finished (by rw [allows, decide_eq_false (by omega)])
  | succ count inductionHypothesis =>
      have holds : cond.allows? counter value = some true := by
        rw [allows, decide_eq_true (by omega)]
      rw [iterate]
      split
      · rename_i goesOn
        exact .next holds goesOn (steps value) (inductionHypothesis _ _ (by omega))
      · rename_i leaves
        exact .left holds (eq_false_of_ne_true leaves)

/-- Nothing else is a run of it. -/
theorem eq_iterate_of_runsFrom {value : Int} {state : σ} {result : σ × Ending}
    (runs : Stmt.RunsFrom body counter cond step value state result) :
    result = iterate body (stop - value).toNat value state := by
  have below : ∀ {value}, cond.allows? counter value = some true → value < stop := fun holds =>
    of_decide_eq_true (Option.some.inj ((allows _).symm.trans holds))
  induction runs with
  | @finished value state ends =>
      have notBelow : ¬ value < stop :=
        of_decide_eq_false (Option.some.inj ((allows _).symm.trans ends))
      rw [show (stop - value).toNat = 0 by omega]
      rfl
  | @next value value' state result holds goesOn stepped _ inductionHypothesis =>
      have isBelow := below holds
      have isNext : value' = value + 1 := Option.some.inj (stepped.symm.trans (steps value))
      rw [show (stop - value).toNat = (stop - value').toNat + 1 by omega, iterate, if_pos goesOn,
        inductionHypothesis, isNext]
  | @left value state holds leaves =>
      have isBelow := below holds
      rw [show (stop - value).toNat = (stop - (value + 1)).toNat + 1 by omega, iterate,
        if_neg (ne_true_of_eq_false leaves)]

end

/-- A recognised loop has exactly one run from each state: its body runs for the values from
the start to the bound. -/
theorem Describes.runs_iff (describes : loop.Describes s) {state : σ} {result : σ × Ending} :
    s.Runs meaning state result ↔ result = loop.run meaning state := by
  rcases describes.shape with
    ⟨declId, varId, initId, condId, lhsId, stepId, operandId, op, isStep, rfl⟩
  have allows : ∀ value, (Expr.binary condId .lt (.var lhsId loop.counter)
      (.int loop.stopId loop.stop)).allows? loop.counter value =
        some (decide (value < loop.stop)) := by
    intro value
    simp [Expr.allows?, Expr.counted?]
  have steps : ∀ value, (Expr.unary stepId op (.var operandId loop.counter)).stepped?
      loop.counter value = some (value + 1) := by
    intro value
    rcases isStep with rfl | rfl <;> simp [Expr.stepped?, Expr.varName?]
  constructor
  · intro runs
    cases runs with
    | forLoop starts runs =>
        cases starts
        exact eq_iterate_of_runsFrom allows steps runs
  · rintro rfl
    exact .forLoop rfl (runsFrom_iterate allows steps loop.start state)

/-- The loops in a row have exactly one run from each state. -/
theorem Describes.runInTurn_iff {second : CountedLoop} {t : Stmt} (describes : loop.Describes s)
    (describes' : second.Describes t) {state : σ} {result : σ × Ending} :
    s.RunInTurn meaning t state result ↔
      result = if (loop.run meaning state).2 = .normal then
          second.run meaning (loop.run meaning state).1
        else loop.run meaning state := by
  constructor
  · intro runs
    cases runs with
    | both first behind =>
        have isFirst := describes.runs_iff.mp first
        rw [← isFirst, if_pos rfl]
        exact describes'.runs_iff.mp behind
    | firstOnly first leaves =>
        rw [← describes.runs_iff.mp first, if_neg leaves]
  · rintro rfl
    split
    · rename_i isNormal
      exact .both (describes.runs_iff.mpr (by rw [← isNormal])) (describes'.runs_iff.mpr rfl)
    · rename_i leaves
      exact .firstOnly (describes.runs_iff.mpr rfl) leaves

/-- A loop over the ranges of two that follow each other runs what they run in turn. -/
theorem run_joined {second : CountedLoop} (rising : loop.start ≤ loop.stop)
    (meets : loop.stop = second.start) (rising' : second.start ≤ second.stop)
    (sameBody : meaning loop.body = meaning second.body) (stopId : NodeId) (state : σ) :
    run meaning { loop with stop := second.stop, stopId } state =
      if (loop.run meaning state).2 = .normal then second.run meaning (loop.run meaning state).1
      else loop.run meaning state := by
  have total : (second.stop - loop.start).toNat =
      (loop.stop - loop.start).toNat + (second.stop - second.start).toNat := by omega
  have reached : loop.start + ((loop.stop - loop.start).toNat : Int) = second.start := by omega
  rw [run, run, run]
  dsimp only
  rw [total, iterate_add, reached, sameBody]

end CountedLoop

end Reduction
end Whittle
