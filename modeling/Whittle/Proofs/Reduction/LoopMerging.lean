import Whittle.Proofs.Identifiers.Edits
import Whittle.Proofs.Reduction.CountedLoops
import Whittle.Proofs.Reduction.Deletions
import Whittle.Proofs.Reduction.SwitchRuns
import Whittle.Proofs.RoundTrip.Checked
import Whittle.Proofs.Scoping.Writes

namespace Whittle

/-!
# Merging loops keeps the meaning

Two counted loops in a row are found by the text of their bodies.  In a shader that was read
and is valid the text says all that matters, so the bodies differ in identifiers and
parentheses only.  The edit raises the bound of the first loop and takes the second one out;
the loop that is left has both ranges, and it runs what the two ran in turn.
-/

def Stmt.boundedBy (bound : Expr) : Stmt → Stmt
  | .forLoop id init (some (.binary condId op lhs _)) step body =>
      .forLoop id init (some (.binary condId op lhs bound)) step body
  | s => s

namespace Reduction

open Whittle.Expr (rewrite changeAt)

namespace CountedLoop
namespace Describes

variable {loop : CountedLoop} {s : Stmt} (describes : loop.Describes s)
include describes

/-- A loop with another number for its bound counts up to that number. -/
theorem boundedBy (stopId : NodeId) (stop : Int) :
    { loop with stop, stopId }.Describes (s.boundedBy (.int stopId stop)) := by
  rcases describes with ⟨⟨declId, varId, initId, condId, lhsId, stepId, operandId, op, isStep, rfl⟩,
    unassigned, stays⟩
  exact ⟨⟨declId, varId, initId, condId, lhsId, stepId, operandId, op, isStep, rfl⟩,
    unassigned, stays⟩

theorem id_eq : s.id = loop.id := by
  rcases describes.shape with ⟨_, _, _, _, _, _, _, _, _, rfl⟩
  rfl

theorem declared?_eq_none : s.declared? = none := by
  rcases describes.shape with ⟨_, _, _, _, _, _, _, _, _, rfl⟩
  rfl

theorem holdsReturn_eq : s.holdsReturn = loop.body.holdsReturn := by
  rcases describes.shape with ⟨_, _, _, _, _, _, _, _, _, rfl⟩
  rw [Stmt.holdsReturn_forLoop]
  rfl

theorem isPrintable_body {fits : Expr → Bool} (printable : s.isPrintable fits = true) :
    loop.body.isPrintable fits = true := by
  rcases describes.shape with ⟨_, _, _, _, _, _, _, _, _, rfl⟩
  rw [Stmt.isPrintable, Bool.and_eq_true] at printable
  exact printable.2

/-- A number is as good a bound as any other one. -/
theorem accepts_boundedBy {ctx : Check.Context} (accepted : ctx.Accepts s) (stopId : NodeId)
    (stop : Int) : ctx.Accepts (s.boundedBy (.int stopId stop)) := by
  rcases describes.shape with ⟨_, _, _, _, _, _, _, _, _, rfl⟩
  rw [Check.Context.accepts_forLoop_iff] at accepted
  rw [Stmt.boundedBy, Check.Context.accepts_forLoop_iff]
  simp only [Option.mem_some_iff, forall_eq', Check.Context.typeOf] at accepted ⊢
  exact accepted

theorem stop_mem : .int loop.stopId loop.stop ∈ s.roots.flatMap Expr.subexprs := by
  rcases describes.shape with ⟨_, _, _, _, _, _, _, _, _, rfl⟩
  simp [Stmt.roots, Stmt.rootsOfOption, Expr.subexprs]

theorem stopId_mem : loop.stopId ∈ s.roots.flatMap Expr.ids := by
  rw [← Expr.flatMap_map_id_subexprs]
  exact List.mem_map_of_mem describes.stop_mem

/-- Where no identifier is repeated, a change of the bound is a change of nothing else. -/
theorem mapExprs_eq (distinct : (s.roots.flatMap Expr.ids).Nodup) (bound : Expr) :
    s.mapExprs (rewrite (changeAt loop.stopId fun _ => bound)) = s.boundedBy bound := by
  rcases describes.shape with ⟨_, _, initId, condId, lhsId, stepId, operandId, _, _, rfl⟩
  simp only [Stmt.roots, Stmt.rootsOfOption, Expr.ids, List.nodup_cons, List.flatMap_cons,
    Option.toList_some, List.cons_append, List.nil_append, List.mem_cons, not_or] at distinct
  rcases distinct with ⟨⟨_, _, notInit, _⟩, ⟨_, notCond, _⟩, ⟨notLhs, _⟩,
    ⟨notStep, notOperand, notBody⟩, _⟩
  have body : loop.body.mapExprs (rewrite (changeAt loop.stopId fun _ => bound)) = loop.body :=
    Stmt.mapExprs_eq_self fun e isRoot => Expr.rewrite_changeAt_of_notMem fun inside =>
      notBody (List.mem_flatMap.mpr ⟨e, isRoot, inside⟩)
  simp [Stmt.mapExprs, Stmt.mapExprsOption, VarDecl.mapExprs, Stmt.boundedBy, rewrite, changeAt,
    Expr.id, body, notInit, notCond, notLhs, Ne.symm notStep, Ne.symm notOperand]

end Describes

/-- The second loop goes on where the first one ends, and the texts of the bodies are one. -/
structure ContinuedBy (first second : CountedLoop) : Prop where
  counter : first.counter = second.counter
  rising : first.start ≤ first.stop
  meets : first.stop = second.start
  rising' : second.start ≤ second.stop
  sameText : first.body.text = second.body.text

theorem continues_iff {first second : CountedLoop} :
    first.continues second = true ↔ first.ContinuedBy second := by
  simp only [continues, Bool.and_eq_true, beq_iff_eq, decide_eq_true_eq]
  constructor
  · rintro ⟨⟨⟨⟨counter, rising⟩, meets⟩, rising'⟩, sameText⟩
    exact ⟨counter, rising, meets, rising', sameText⟩
  · rintro ⟨counter, rising, meets, rising', sameText⟩
    exact ⟨⟨⟨⟨counter, rising⟩, meets⟩, rising'⟩, sameText⟩

end CountedLoop

namespace LoopMerge

/-- The two loops in a row, at a place of a shader, that the edit is about. -/
structure Pairs (edit : LoopMerge) (shader : Shader) (spot : Spot) (s t : Stmt)
    (first second : CountedLoop) : Prop where
  isAt : shader.decls = spot.fill [s, t]
  isFirst : first.Describes s
  isSecond : second.Describes t
  continued : first.ContinuedBy second
  isEdit : edit = ⟨first.id, first.stopId, second.id, first.counter, second.stop⟩

theorem exists_loops_of_ofPair? {edit : LoopMerge} {s t : Stmt} (found : ofPair? s t = some edit) :
    ∃ first second : CountedLoop, first.Describes s ∧ second.Describes t ∧
      first.ContinuedBy second ∧
      edit = ⟨first.id, first.stopId, second.id, first.counter, second.stop⟩ := by
  unfold ofPair? at found
  split at found
  · rename_i first second isFirst isSecond
    rcases Option.ite_none_right_eq_some.mp found with ⟨continued, isEdit⟩
    exact ⟨first, second, countedLoop?_eq_some_iff.mp isFirst, countedLoop?_eq_some_iff.mp isSecond,
      CountedLoop.continues_iff.mp continued, (Option.some.inj isEdit).symm⟩
  · cases found

theorem exists_neighbours_of_mem {edit : LoopMerge} {stmts : List Stmt}
    (found : edit ∈ ofNeighbours stmts) :
    ∃ front s t back, stmts = front ++ ([s, t] ++ back) ∧ ofPair? s t = some edit := by
  fun_induction ofNeighbours stmts with
  | case1 s t rest inductionHypothesis =>
      rcases List.mem_append.mp found with isHere | isBehind
      · exact ⟨[], s, t, rest, rfl, Option.mem_toList.mp isHere⟩
      · rcases inductionHypothesis isBehind with ⟨front, s', t', back, split, isPair⟩
        exact ⟨s :: front, s', t', back, congrArg (s :: ·) split, isPair⟩
  | case2 => cases found

variable {shader : Shader} {version : Version} {edit : LoopMerge}

/-- Whatever the search finds in a shader that follows the rules are two loops at a place. -/
theorem exists_pairs (follows : shader.FollowsRules version) (found : edit ∈ find shader) :
    ∃ spot s t first second, edit.Pairs shader spot s t first second := by
  rcases List.mem_flatMap.mp found with ⟨f, isFunction, found⟩
  rcases List.mem_flatMap.mp found with ⟨list, isList, found⟩
  rcases exists_neighbours_of_mem found with ⟨front, s, t, back, split, isPair⟩
  rcases exists_loops_of_ofPair? isPair with ⟨first, second, isFirst, isSecond, continued, isEdit⟩
  rcases exists_spot_of_mem_stmtLists follows isFunction isList with ⟨spot, _, isAt⟩
  refine ⟨spot.between front back, s, t, first, second, ?_, isFirst, isSecond, continued, isEdit⟩
  rw [Spot.fill_between, ← split]
  exact isAt

namespace Pairs

variable {spot : Spot} {s t : Stmt} {first second : CountedLoop}
  (pairs : edit.Pairs shader spot s t first second)
include pairs

theorem stop_mem_exprs : .int first.stopId first.stop ∈ shader.exprs := by
  rcases List.mem_flatMap.mp pairs.isFirst.stop_mem with ⟨root, isRoot, isPart⟩
  have inRun : root ∈ Stmt.rootsOfList [s, t] := List.mem_append_left _ isRoot
  have listed := (Shader.mem_roots_fill_iff pairs.isAt).mpr (Or.inr inRun)
  exact List.mem_flatMap.mpr ⟨root, listed, isPart⟩

/-- Raising the bound changes the first loop alone. -/
theorem raised_eq (distinct : shader.ids.Nodup) :
    (shader.freshId.2.replaceExpr edit.bound (.int shader.nextId edit.newBound)).1 =
      { shader with
        nextId := shader.nextId + 1
        decls := spot.fill [s.boundedBy (.int shader.nextId second.stop), t] } := by
  have inRun : ((Stmt.rootsOfList [s, t]).flatMap Expr.ids).Nodup := by
    rw [Shader.ids, pairs.isAt] at distinct
    exact (Spot.nodup_ids_run distinct).1.sublist (Stmt.ids_rootsOfList_sublist _)
  simp only [Stmt.rootsOfList, List.append_nil, List.flatMap_append] at inRun
  rcases List.nodup_append'.mp inRun with ⟨inFirst, _, apart⟩
  -- Only the bound of the first loop has its identifier, so the second loop stays as it is.
  have isStop := pairs.isFirst.stopId_mem
  have inSecond :
      t.mapExprs (rewrite (changeAt first.stopId fun _ => .int shader.nextId second.stop)) = t :=
    Stmt.mapExprs_eq_self fun e isRoot => Expr.rewrite_changeAt_of_notMem fun inside =>
      apart isStop (List.mem_flatMap.mpr ⟨e, isRoot, inside⟩)
  have within : first.stopId ∈ (Stmt.rootsOfList [s, t]).flatMap Expr.ids := by
    rw [Stmt.rootsOfList, List.flatMap_append]
    exact List.mem_append_left _ isStop
  have isDrawn : shader.freshId.2.decls = spot.fill [s, t] := pairs.isAt
  rw [pairs.isEdit, Shader.replaceExpr_fill isDrawn distinct within, Stmt.mapExprsList,
    Stmt.mapExprsList, Stmt.mapExprsList, pairs.isFirst.mapExprs_eq inFirst, inSecond]
  rfl

/-- The first loop with the bound of the second one takes the place of both. -/
theorem apply_eq (numbered : shader.IsNumbered) :
    edit.apply shader = { shader with
      nextId := shader.nextId + 1
      decls := spot.fill [s.boundedBy (.int shader.nextId second.stop)] } := by
  let merged := s.boundedBy (.int shader.nextId second.stop)
  have isSecond : edit.second = t.id := by rw [pairs.isEdit, pairs.isSecond.id_eq]
  have secondAt : shader.decls = (spot.between [s] []).fill [t] := by
    rw [Spot.fill_between]
    exact pairs.isAt
  have foundSecond : shader.findStmt? edit.second = some t :=
    isSecond ▸ Shader.findStmt?_fill secondAt numbered.1
  have foundBound : shader.findExpr? edit.bound = some (.int first.stopId first.stop) := by
    rw [pairs.isEdit]
    exact Shader.findExpr?_id numbered.1 pairs.stop_mem_exprs
  -- What is left of the place is filled with the raised loop and the second one, which still
  -- has its identifier for itself.
  have raised := pairs.raised_eq numbered.1
  have stillNumbered := edit.isNumbered_raised numbered
  rw [raised] at stillNumbered
  have stillAt : spot.fill [merged, t] = (spot.between [merged] []).fill [t] :=
    (Spot.fill_between [merged] [t] [] spot).symm
  have removed := Shader.removeStmt_fill stillAt stillNumbered.1
  rw [Spot.fill_between] at removed
  rw [apply, foundSecond, foundBound]
  show ((shader.freshId.2.replaceExpr edit.bound (.int shader.nextId edit.newBound)).1.removeStmt
    edit.second).1 = _
  rw [raised, isSecond]
  exact removed

theorem declaredBy_eq_nil : Stmt.declaredBy [s, t] = [] := by
  simp [Stmt.declaredBy, pairs.isFirst.declared?_eq_none, pairs.isSecond.declared?_eq_none]

section

variable (printable : Stmt.isPrintableList Expr.isPrintable [s, t] = true)
include printable

theorem isPrintable_bodies : first.body.isPrintable Expr.isPrintable = true ∧
    second.body.isPrintable Expr.isPrintable = true := by
  simp only [Stmt.isPrintableList, Bool.and_eq_true] at printable
  exact ⟨pairs.isFirst.isPrintable_body printable.1, pairs.isSecond.isPrintable_body printable.2.1⟩

/-- Bodies that can be written and have one text are the same. -/
theorem stripped_eq : first.body.stripped = second.body.stripped :=
  Stmt.stripped_eq_of_text_eq (pairs.isPrintable_bodies printable).1
    (pairs.isPrintable_bodies printable).2 pairs.continued.sameText

/-- The second loop has no `return` that the first one has not. -/
theorem holdsReturn_eq : t.holdsReturn = s.holdsReturn := by
  rcases Stmt.exists_alike_of_text_eq (pairs.isPrintable_bodies printable).1
    (pairs.isPrintable_bodies printable).2 pairs.continued.sameText with ⟨read, alike, alike'⟩
  rw [pairs.isFirst.holdsReturn_eq, pairs.isSecond.holdsReturn_eq]
  exact (Check.Context.any_isReturn_eq alike').symm.trans (Check.Context.any_isReturn_eq alike)

/-- With the loops merged, the shader still follows the rules. -/
theorem followsRules_apply (follows : shader.FollowsRules version) (numbered : shader.IsNumbered) :
    (edit.apply shader).FollowsRules version := by
  have isMerged := pairs.isFirst.boundedBy shader.nextId second.stop
  have isEdited : (edit.apply shader).decls =
      spot.fill [s.boundedBy (.int shader.nextId second.stop)] := by rw [pairs.apply_eq numbered]
  have accepted := (Shader.acceptsList_at follows pairs.isAt).1
  refine Shader.followsRules_fill_of_run follows pairs.isAt isEdited pairs.declaredBy_eq_nil
    ⟨pairs.isFirst.accepts_boundedBy accepted _ _, trivial⟩
    (Shader.unmentioned_of_declared? isMerged.declared?_eq_none _)
    (Slot.fill_ne_nil (.inl (List.cons_ne_nil _ _))) fun _ holds => ?_
  -- A `return` that the function needs may stand in the second loop, but then one stands in the
  -- first loop as well.
  simp only [List.any_cons, List.any_nil, Bool.or_false, pairs.holdsReturn_eq printable,
    Bool.or_self] at holds ⊢
  rw [isMerged.holdsReturn_eq]
  rwa [pairs.isFirst.holdsReturn_eq] at holds

end

/-- The merged loop has one run from each state, and so have the two loops in turn: the same. -/
theorem exists_runs {σ : Type} {meaning : BodyMeaning σ}
    (sameBody : meaning first.body = meaning second.body) (stopId : NodeId) (state : σ) :
    ∃ result, ∀ other,
      ((s.boundedBy (.int stopId second.stop)).Runs meaning state other ↔ other = result) ∧
        (s.RunInTurn meaning t state other ↔ other = result) := by
  refine ⟨_, fun other => ⟨(pairs.isFirst.boundedBy stopId second.stop).runs_iff, ?_⟩⟩
  rw [pairs.isFirst.runInTurn_iff pairs.isSecond, CountedLoop.run_joined pairs.continued.rising
    pairs.continued.meets pairs.continued.rising' sameBody]

end Pairs

/-- What a shader is when the two loops in a row were merged that an edit is about. -/
structure Merged (edit : LoopMerge) (shader edited : Shader) (spot : Spot) (s t : Stmt)
    (first second : CountedLoop) : Prop extends edit.Pairs shader spot s t first second where
  sameBody : first.body.stripped = second.body.stripped
  /-- The body cannot write the counter. -/
  unwritten : ∀ e ∈ first.body.roots.flatMap Expr.subexprs, ∀ operand,
    e.written? = some operand → operand.writtenVar? ≠ some first.counter
  /-- No `break` of the body ends the loop. -/
  stays : ¬ first.body.Breaks
  /-- The first loop has another bound, the second one is gone, and nothing else changes. -/
  edited_eq : edited = { shader with
    nextId := shader.nextId + 1
    decls := spot.fill [s.boundedBy (.int shader.nextId second.stop)] }
  /-- The loop that is left counts from the start of the first one to the end of the second. -/
  isMerged : { first with stop := second.stop, stopId := shader.nextId }.Describes
    (s.boundedBy (.int shader.nextId second.stop))
  /-- Whatever the body means, the loop does what the two did in turn. -/
  runs : ∀ {σ : Type} (meaning : BodyMeaning σ), meaning.IgnoresParens → ∀ state,
    ∃ result, ∀ other,
      ((s.boundedBy (.int shader.nextId second.stop)).Runs meaning state other ↔ other = result) ∧
        (s.RunInTurn meaning t state other ↔ other = result)

/-- In a valid shader that was read, without infinite numbers, merging two loops leaves a valid
shader in which one loop does what the two did. -/
theorem exists_merged {source : String} (isRead : Shader.parse source = .ok shader)
    {types : TypeTable} (checked : shader.check version = .ok types)
    (finite : shader.HasFiniteFloats) {everywhere : Bool} {edits : List Edit}
    (found : Kind.find .loopMerge ⟨version, everywhere⟩ shader = .ok edits)
    (listed : .loopMerge edit ∈ edits) :
    ∃ types' spot s t first second, (edit.apply shader).check version = .ok types' ∧
      edit.Merged shader (edit.apply shader) spot s t first second := by
  cases found
  rcases List.mem_map.mp listed with ⟨_, isFound, isEdit⟩
  cases isEdit
  rcases Shader.isValid_iff.mp ⟨types, checked⟩ with ⟨_, follows⟩
  have numbered : shader.IsNumbered := by
    rcases Shader.eq_ofDecls_of_parse isRead with ⟨version, decls, rfl⟩
    exact Shader.isNumbered_ofDecls version decls
  rcases exists_pairs follows isFound with ⟨spot, s, t, first, second, pairs⟩
  have printable := Shader.isPrintableList_of_parse checked finite isRead pairs.isAt
  have sameBody := pairs.stripped_eq printable
  rcases Shader.isValid_iff.mpr ⟨(edit.isNumbered_apply numbered).1,
    pairs.followsRules_apply printable follows numbered⟩ with ⟨types', checked'⟩
  refine ⟨types', spot, s, t, first, second, checked', { pairs with
    sameBody
    unwritten := ?unwritten
    stays := ?stays
    edited_eq := pairs.apply_eq numbered
    isMerged := pairs.isFirst.boundedBy shader.nextId second.stop
    runs := fun meaning ignores => pairs.exists_runs (ignores sameBody) shader.nextId }⟩
  case unwritten =>
    intro e listed operand isWritten
    refine Names.writtenVar?_ne_of_assigns_ofStmts pairs.isFirst.unassigned ?_ isWritten
    rwa [List.flatMap_singleton]
  case stays =>
    rw [← Stmt.breaks_iff, not_not]
    exact pairs.isFirst.stays

/-- A loop in two parts. -/
def splitLoop : String :=
  "void main() \x7b
  float x = 0.5;
  for (int i = 0; i < 2; i++) if (i > 0) x++;
  for (int i = 2; i < 5; ++i) if (i > 0) x++;
\x7d"

/-- The second part goes, and the first one goes on to its end. -/
theorem exists_merged_splitLoop :
    ∃ shader types types' spot s t first second, Shader.parse splitLoop = .ok shader ∧
      shader.check .essl100 = .ok types ∧ shader.HasFiniteFloats ∧
      Kind.find .loopMerge ⟨.essl100, true⟩ shader = .ok [.loopMerge ⟨5, 11, 21, "i", 5⟩] ∧
      (apply ⟨5, 11, 21, "i", 5⟩ shader).check .essl100 = .ok types' ∧
      Merged ⟨5, 11, 21, "i", 5⟩ shader (apply ⟨5, 11, 21, "i", 5⟩ shader) spot s t first second := by
  have facts : (Shader.parse splitLoop).toOption.any (fun shader =>
      (shader.check .essl100).toOption.isSome && decide shader.HasFiniteFloats &&
        decide (LoopMerge.find shader = [⟨5, 11, 21, "i", 5⟩])) = true := by decide +kernel
  cases isRead : Shader.parse splitLoop with
  | error failure =>
      rw [isRead] at facts
      cases facts
  | ok shader =>
      rw [isRead] at facts
      simp only [Except.toOption, Option.any_some, Bool.and_eq_true, decide_eq_true_eq] at facts
      rcases facts with ⟨⟨valid, finite⟩, isFound⟩
      have found : Kind.find .loopMerge ⟨.essl100, true⟩ shader =
          .ok [.loopMerge ⟨5, 11, 21, "i", 5⟩] := by
        show Except.ok ((LoopMerge.find shader).map Edit.loopMerge) = _
        rw [isFound]
        rfl
      cases checked : shader.check .essl100 with
      | error problems =>
          rw [checked] at valid
          cases valid
      | ok types =>
          rcases exists_merged isRead checked finite found List.mem_cons_self with
            ⟨types', spot, s, t, first, second, checked', merged⟩
          exact ⟨shader, types, types', spot, s, t, first, second, rfl, checked, finite, found,
            checked', merged⟩

end LoopMerge
end Reduction
end Whittle
