import Whittle.Proofs.Reduction.Bodies
import Whittle.Proofs.Scoping.Lexical
import Whittle.Proofs.Scoping.Writes
import Whittle.Reduction.Edit

namespace Whittle

/-!
# What the removal of a colour write loses

A block that saves an output first and restores it last can go without a trace if nothing else
in it has an effect outside.  The search looks at the first and the last statement alone.  Those
two have no effect but on the output, so what is lost with the block is what the statements
between them do: the variables from outside that they write, and the jumps by which they leave.
-/

open Reduction (Jumps)
open Scoping (StandsIn select?)

namespace Stmt

/-- Somewhere in the statement a variable of this name or a part of it is written, and nothing
in scope within the statement bears the name there.  So the variable is declared outside. -/
def WritesOutside (s : Stmt) (name : String) : Prop :=
  ∃ root scopes e location, StandsIn s root scopes ∧ e ∈ root.subexprs ∧ e.Writes location ∧
    location.IsPartOf name ∧ select? scopes name = none

/-- Whether the statement is a `discard`. -/
def isDiscard : Stmt → Bool
  | .discard _ => true
  | _ => false

/-- Whether a `discard` stands anywhere in the statement. -/
def holdsDiscard (s : Stmt) : Bool :=
  s.substmts.any isDiscard

/-- The statement has no effect of its own but on variables of these names: it writes no other
variable that is declared outside, and control leaves it at its end only.  What a function does
that it calls is not looked at. -/
structure Confined (s : Stmt) (names : List String) : Prop where
  writes : ∀ name, s.WritesOutside name → name ∈ names
  noReturn : s.holdsReturn = false
  noDiscard : s.holdsDiscard = false
  noJump : Jumps.ofStmt s = .none

theorem holdsDiscard_block (id scope : NodeId) (stmts : List Stmt) :
    (Stmt.block id scope stmts).holdsDiscard = stmts.any holdsDiscard := by
  simp only [holdsDiscard, substmts, isDiscard, substmtsOfList_eq_flatMap, List.any_flatMap,
    List.any_cons, Bool.false_or]
  rfl

end Stmt

namespace Scoping

theorem select?_eq_none_iff {scopes : List Scope} {name : String} :
    select? scopes name = none ↔ ∀ scope ∈ scopes, ∀ declared ∈ scope, declared.name ≠ name := by
  simp [select?]

/-- A name selects nothing in the scope of a list behind some statements if they do not declare
it. -/
theorem select?_behind_eq_none_iff {scopes : List Scope} {before : List Stmt} {name : String} :
    select? (scopes ++ [declaredIn before]) name = none ↔
      name ∉ Stmt.declaredBy before ∧ select? scopes name = none := by
  have inList : (∀ declared ∈ declaredIn before, declared.name ≠ name) ↔
      name ∉ Stmt.declaredBy before := by
    rw [declaredIn, Stmt.declaredBy, List.forall_mem_map, List.mem_map, not_exists]
    exact forall_congr' fun var => not_and.symm
  simp only [select?_eq_none_iff, List.forall_mem_append, List.forall_mem_singleton, inList]
  exact And.comm

end Scoping

namespace Stmt

variable {id scope : NodeId} {name : String}

theorem declaredBy_cons (s : Stmt) (rest : List Stmt) :
    declaredBy (s :: rest) = declaredBy [s] ++ declaredBy rest :=
  declaredBy_append [s] rest

/-- A member of a block writes a variable from outside if no member in front declares it. -/
theorem writesOutside_block_iff {stmts : List Stmt} :
    (Stmt.block id scope stmts).WritesOutside name ↔
      ∃ before inner behind, stmts = before ++ inner :: behind ∧ name ∉ declaredBy before ∧
        inner.WritesOutside name := by
  constructor
  · rintro ⟨root, scopes, e, location, stands, isPart, writes, ofName, outside⟩
    cases stands with
    | here holds => cases holds
    | @within _ inner _ before behind _ _ scopes opens stands =>
        generalize split : before ++ inner :: behind = members at opens
        cases opens
        rcases Scoping.select?_behind_eq_none_iff.mp outside with ⟨undeclared, outside⟩
        exact ⟨before, inner, behind, split.symm, undeclared, root, scopes, e, location, stands,
          isPart, writes, ofName, outside⟩
  · rintro ⟨before, inner, behind, rfl, undeclared, root, scopes, e, location, stands, isPart,
      writes, ofName, outside⟩
    exact ⟨root, _, e, location, .within .block stands, isPart, writes, ofName,
      Scoping.select?_behind_eq_none_iff.mpr ⟨undeclared, outside⟩⟩

theorem writesOutside_block_cons {s : Stmt} {rest : List Stmt} :
    (Stmt.block id scope (s :: rest)).WritesOutside name ↔ s.WritesOutside name ∨
      name ∉ declaredBy [s] ∧ (Stmt.block id scope rest).WritesOutside name := by
  simp only [writesOutside_block_iff]
  constructor
  · rintro ⟨before, inner, behind, split, undeclared, writes⟩
    cases before with
    | nil =>
        cases split
        exact Or.inl writes
    | cons first before =>
        cases split
        rw [declaredBy_cons s before, List.mem_append, not_or] at undeclared
        exact Or.inr ⟨undeclared.1, before, inner, behind, rfl, undeclared.2, writes⟩
  · rintro (writes | ⟨undeclared, before, inner, behind, rfl, undeclared', writes⟩)
    · exact ⟨[], s, rest, rfl, List.not_mem_nil, writes⟩
    · refine ⟨s :: before, inner, behind, rfl, ?_, writes⟩
      rw [declaredBy_cons s before, List.mem_append, not_or]
      exact ⟨undeclared, undeclared'⟩

theorem not_writesOutside_block_nil : ¬ (Stmt.block id scope []).WritesOutside name := by
  rw [writesOutside_block_iff]
  rintro ⟨before, _, _, split, _⟩
  cases before <;> cases split

theorem writesOutside_block_append {first second : List Stmt} :
    (Stmt.block id scope (first ++ second)).WritesOutside name ↔
      (Stmt.block id scope first).WritesOutside name ∨
        name ∉ declaredBy first ∧ (Stmt.block id scope second).WritesOutside name := by
  induction first with
  | nil => simp [not_writesOutside_block_nil, declaredBy]
  | cons s rest inductionHypothesis =>
      rw [List.cons_append, writesOutside_block_cons, writesOutside_block_cons,
        inductionHypothesis, declaredBy_cons s rest, List.mem_append, not_or, and_or_left,
        or_assoc, and_assoc]

/-- What an expression statement writes is listed by the search for written names. -/
theorem mem_written_of_writesOutside {e : Expr} (outside : (Stmt.expr id e).WritesOutside name) :
    name ∈ e.subexprs.filterMap fun part => part.written?.bind Expr.writtenVar? := by
  rcases outside with ⟨root, scopes, part, location, stands, isPart, writes, ofName, _⟩
  cases stands with
  | within opens => cases opens
  | here holds =>
      cases holds
      refine List.mem_filterMap.mpr ⟨part, isPart, ?_⟩
      rw [writes.written?, Option.bind_some, ofName.writtenVar?]

theorem writesOutside_assign {assignId : NodeId} {op : AssignOp} {target value : Expr}
    (ofName : target.IsPartOf name) :
    (Stmt.expr id (.assign assignId op target value)).WritesOutside name :=
  ⟨_, [], _, target, .here .expr, Expr.self_mem_subexprs _, .assign, ofName, rfl⟩

end Stmt

namespace Reduction

variable {backup output name : String} {id scope : NodeId} {inner stmts : List Stmt}

/-- Saving an output writes nothing, and declares the variable that it is saved in. -/
theorem savedOutput?_eq_some {s : Stmt} (saves : savedOutput? s = some (backup, output)) :
    ∃ declId var initId, s = .decl declId var ∧ var.name = backup ∧
      var.init = some (.var initId output) := by
  unfold savedOutput? at saves
  split at saves
  · rename_i declId var
    split at saves
    · rcases Option.map_eq_some_iff.mp saves with ⟨saved, isSaved, ⟨⟩⟩
      rcases Option.bind_eq_some_iff.mp isSaved with ⟨init, isInit, isVar⟩
      cases init with
      | var initId name =>
          cases isVar
          exact ⟨declId, var, initId, rfl, rfl, isInit⟩
      | _ => cases isVar
    · cases saves
  · cases saves

theorem not_writesOutside_of_savedOutput? {s : Stmt}
    (saves : savedOutput? s = some (backup, output)) : ¬ s.WritesOutside name := by
  rcases savedOutput?_eq_some saves with ⟨declId, var, initId, rfl, _, isInit⟩
  rintro ⟨root, scopes, e, location, stands, isPart, writes, _⟩
  cases stands with
  | within opens => cases opens
  | here holds =>
      cases holds with
      | declInit isRoot =>
          cases isInit.symm.trans isRoot
          cases List.mem_singleton.mp isPart
          cases writes

/-- Restoring an output assigns the variable that it is saved in. -/
theorem restores_eq_true {s : Stmt} (isRestored : restores backup output s = true) :
    ∃ stmtId assignId targetId valueId,
      s = .expr stmtId (.assign assignId .set (.var targetId output) (.var valueId backup)) := by
  unfold restores at isRestored
  split at isRestored
  · rename_i stmtId assignId target value
    rw [Bool.and_eq_true, beq_iff_eq, beq_iff_eq] at isRestored
    rcases isRestored with ⟨isTarget, isValue⟩
    cases target with
    | var targetId _ =>
        cases value with
        | var valueId _ =>
            cases isTarget
            cases isValue
            exact ⟨stmtId, assignId, targetId, valueId, rfl⟩
        | _ => cases isValue
    | _ => cases isTarget
  · cases isRestored

theorem writesOutside_iff_of_restores {s : Stmt} (isRestored : restores backup output s = true) :
    s.WritesOutside name ↔ name = output := by
  rcases restores_eq_true isRestored with ⟨stmtId, assignId, targetId, valueId, rfl⟩
  constructor
  · intro writes
    exact List.mem_singleton.mp (Stmt.mem_written_of_writesOutside writes)
  · rintro rfl
    exact Stmt.writesOutside_assign .var

/-! ## Guarded lists -/

/-- The list saves the output in this variable first and restores it last, and these are the
statements between. -/
inductive Guards (backup output : String) (inner : List Stmt) : List Stmt → Prop where
  | mk {saving restoring : Stmt} (saves : savedOutput? saving = some (backup, output))
      (isRestored : restores backup output restoring = true) :
      Guards backup output inner (saving :: (inner ++ [restoring]))

/-- The search looks at the first and the last statement, and at nothing else. -/
theorem exists_guards {outputs : List String} (guarded : guardedOutput? outputs stmts = some output) :
    ∃ backup inner, Guards backup output inner stmts := by
  unfold guardedOutput? at guarded
  split at guarded
  · rename_i first second rest
    rcases Option.bind_eq_some_iff.mp guarded with ⟨⟨backup, saved⟩, saves, isLast⟩
    dsimp only at isLast
    split at isLast
    · rename_i fits
      cases isLast
      rw [Bool.and_eq_true] at fits
      refine ⟨backup, (second :: rest).dropLast, ?_⟩
      have isGuarded : Guards backup output (second :: rest).dropLast _ := .mk saves fits.2
      rwa [List.dropLast_append_getLast] at isGuarded
    · cases isLast
  · cases guarded

namespace Guards

/-- Which statements stand between is settled by the list. -/
theorem inner_eq (guards : Guards backup output inner stmts) : inner = stmts.tail.dropLast := by
  cases guards
  rw [List.tail_cons, List.dropLast_concat]

theorem writesOutside_iff (guards : Guards backup output inner stmts) :
    (Stmt.block id scope stmts).WritesOutside name ↔
      name ≠ backup ∧ ((Stmt.block id scope inner).WritesOutside name ∨
        name ∉ Stmt.declaredBy inner ∧ name = output) := by
  cases guards with
  | @mk saving restoring saves isRestored =>
      have declares : Stmt.declaredBy [saving] = [backup] := by
        rcases savedOutput?_eq_some saves with ⟨declId, var, initId, rfl, rfl, _⟩
        rfl
      rw [Stmt.writesOutside_block_cons, Stmt.writesOutside_block_append,
        Stmt.writesOutside_block_cons (s := restoring), writesOutside_iff_of_restores isRestored,
        declares, List.mem_singleton]
      simp only [not_writesOutside_of_savedOutput? saves, Stmt.not_writesOutside_block_nil,
        and_false, or_false, false_or]

/-- What holds of no declaration and of no expression holds of a member between, if of any. -/
theorem any_eq (guards : Guards backup output inner stmts) {test : Stmt → Bool}
    (ofDecl : ∀ id var, test (.decl id var) = false) (ofExpr : ∀ id e, test (.expr id e) = false) :
    stmts.any test = inner.any test := by
  cases guards with
  | mk saves isRestored =>
      rcases savedOutput?_eq_some saves with ⟨declId, var, _, rfl, _⟩
      rcases restores_eq_true isRestored with ⟨stmtId, _, _, _, rfl⟩
      rw [List.any_cons, List.any_append, List.any_cons, List.any_nil, ofDecl, ofExpr]
      simp only [Bool.false_or, Bool.or_false]

theorem holdsReturn_eq (guards : Guards backup output inner stmts) :
    (Stmt.block id scope stmts).holdsReturn = (Stmt.block id scope inner).holdsReturn := by
  rw [Stmt.holdsReturn_block, Stmt.holdsReturn_block, guards.any_eq (fun _ _ => rfl) fun _ _ => rfl]

theorem holdsDiscard_eq (guards : Guards backup output inner stmts) :
    (Stmt.block id scope stmts).holdsDiscard = (Stmt.block id scope inner).holdsDiscard := by
  rw [Stmt.holdsDiscard_block, Stmt.holdsDiscard_block,
    guards.any_eq (fun _ _ => rfl) fun _ _ => rfl]

theorem jumps_eq (guards : Guards backup output inner stmts) :
    Jumps.ofStmt (.block id scope stmts) = Jumps.ofStmt (.block id scope inner) := by
  cases guards with
  | mk saves isRestored =>
      rcases savedOutput?_eq_some saves with ⟨declId, var, _, rfl, _⟩
      rcases restores_eq_true isRestored with ⟨stmtId, _, _, _, rfl⟩
      rw [Jumps.ofStmt, Jumps.ofStmts, Jumps.ofStmts_append]
      simp [Jumps.ofStmt, Jumps.ofStmts, Jumps.add, Jumps.none]

/-- The block has no effect but on the output just if the statements between have none but on
the output and the variable that it is saved in. -/
theorem confined_iff (guards : Guards backup output inner stmts) :
    (Stmt.block id scope stmts).Confined [output] ↔
      (Stmt.block id scope inner).Confined [output, backup] := by
  constructor
  · intro confined
    refine ⟨fun name writes => ?_, guards.holdsReturn_eq ▸ confined.noReturn,
      guards.holdsDiscard_eq ▸ confined.noDiscard, guards.jumps_eq ▸ confined.noJump⟩
    by_cases isBackup : name = backup
    · exact isBackup ▸ List.mem_cons_of_mem _ (List.mem_singleton_self _)
    · have outside := guards.writesOutside_iff.mpr ⟨isBackup, .inl writes⟩
      exact List.mem_singleton.mp (confined.writes name outside) ▸ List.mem_cons_self
  · intro confined
    refine ⟨fun name writes => ?_, guards.holdsReturn_eq.trans confined.noReturn,
      guards.holdsDiscard_eq.trans confined.noDiscard, guards.jumps_eq.trans confined.noJump⟩
    rcases guards.writesOutside_iff.mp writes with ⟨notBackup, writesInner | ⟨_, rfl⟩⟩
    · rcases List.mem_cons.mp (confined.writes name writesInner) with rfl | isBackup
      · exact List.mem_singleton_self _
      · exact absurd (List.mem_singleton.mp isBackup) notBackup
    · exact List.mem_singleton_self _

end Guards

variable {shader : Shader} {edit : ColourWrite}

/-- What is found is a guarded block of a function, which holds no return that the function
needs. -/
theorem ColourWrite.exists_of_mem_find (found : edit ∈ find shader) :
    ∃ f ∈ shader.functions, ∃ scope backup inner stmts, Guards backup edit.output inner stmts ∧
      Stmt.block edit.block scope stmts ∈ f.stmts ∧
      holdsRequiredReturn f (.block edit.block scope stmts) = false := by
  rcases List.mem_flatMap.mp found with ⟨f, isFunction, found⟩
  rcases List.mem_filterMap.mp found with ⟨s, isStmt, isFound⟩
  unfold ofStmt? at isFound
  split at isFound
  · rename_i id scope stmts
    split at isFound
    · cases isFound
    · rename_i notRequired
      rcases Option.map_eq_some_iff.mp isFound with ⟨output, guarded, rfl⟩
      rcases exists_guards guarded with ⟨backup, inner, guards⟩
      exact ⟨f, isFunction, scope, backup, inner, stmts, guards, isStmt,
        Bool.eq_false_iff.mpr notRequired⟩
  · cases isFound

/-- In a valid shader every block that is found saves an output first and restores it last.  It
has no effect but on the output just if the statements between have none but on the output and
the variable that it is saved in.  If the function returns a value, the block holds no return. -/
theorem ColourWrite.exists_block_confined_iff {version : Version} (valid : shader.IsValid version)
    {everywhere : Bool} {edits : List Edit}
    (found : Kind.find .liveFragColorWrite ⟨version, everywhere⟩ shader = .ok edits)
    (listed : .liveFragColorWrite edit ∈ edits) :
    ∃ f ∈ shader.functions, ∃ scope backup inner stmts,
      shader.findStmt? edit.block = some (.block edit.block scope stmts) ∧
      Stmt.block edit.block scope stmts ∈ f.stmts ∧ Guards backup edit.output inner stmts ∧
      (f.returnTy ≠ .void → (Stmt.block edit.block scope stmts).holdsReturn = false) ∧
      ((Stmt.block edit.block scope stmts).Confined [edit.output] ↔
        (Stmt.block edit.block scope inner).Confined [edit.output, backup]) := by
  cases found
  rcases List.mem_map.mp listed with ⟨_, isFound, isEdit⟩
  cases isEdit
  have distinct := (Shader.isValid_iff.mp valid).1
  rcases exists_of_mem_find isFound with
    ⟨f, isFunction, scope, backup, inner, stmts, guards, isStmt, notRequired⟩
  refine ⟨f, isFunction, scope, backup, inner, stmts,
    Shader.findStmt?_id distinct (Shader.mem_stmts_of_mem_functions isFunction isStmt), isStmt, guards,
    fun notVoid => ?_, guards.confined_iff⟩
  rwa [holdsRequiredReturn, bne_iff_ne.mpr notVoid, Bool.true_and] at notRequired

/-- The shader
`void main() { float x = 1.0; { vec4 _GLF_old = gl_FragColor; … gl_FragColor = _GLF_old; } gl_FragColor = vec4(x); }`
with these statements between. -/
def guarding (inner : List Stmt) : Shader :=
  .ofDecls .essl100 [.function ⟨.unnumbered, .void, "main", [], ⟨.unnumbered,
    [.decl .unnumbered ⟨.unnumbered, none, .float, "x", some (.float .unnumbered .one)⟩,
     .block .unnumbered .unnumbered
      (.decl .unnumbered ⟨.unnumbered, none, .vector .float .four, "_GLF_old",
        some (.var .unnumbered "gl_FragColor")⟩ ::
       (inner ++ [.expr .unnumbered (.assign .unnumbered .set (.var .unnumbered "gl_FragColor")
        (.var .unnumbered "_GLF_old"))])),
     .expr .unnumbered (.assign .unnumbered .set (.var .unnumbered "gl_FragColor")
      (.call .unnumbered "vec4" [.var .unnumbered "x"]))]⟩⟩]

/-- `gl_FragColor = vec4(1.0);` -/
def colouring : Stmt :=
  .expr .unnumbered (.assign .unnumbered .set (.var .unnumbered "gl_FragColor")
    (.call .unnumbered "vec4" [.float .unnumbered .one]))

/-- `x += 1.0;` -/
def leaking : Stmt :=
  .expr .unnumbered (.assign .unnumbered .add (.var .unnumbered "x") (.float .unnumbered .one))

/-- Between there is only a write of the output, so nothing else is lost. -/
theorem exists_confined_guarding :
    (guarding [colouring]).IsValid .essl100 ∧
      Kind.find .liveFragColorWrite ⟨.essl100, false⟩ (guarding [colouring]) =
        .ok [.liveFragColorWrite ⟨5, "gl_FragColor"⟩] ∧
      ∃ s, (guarding [colouring]).findStmt? 5 = some s ∧ s.Confined ["gl_FragColor"] := by
  have valid : (guarding [colouring]).IsValid .essl100 := by decide
  have found : Kind.find .liveFragColorWrite ⟨.essl100, false⟩ (guarding [colouring]) =
      .ok [.liveFragColorWrite ⟨5, "gl_FragColor"⟩] := by rfl
  rcases ColourWrite.exists_block_confined_iff valid found List.mem_cons_self with
    ⟨_, _, scope, backup, inner, stmts, isFound, _, guards, _, confined⟩
  refine ⟨valid, found, _, isFound, confined.mpr ?_⟩
  cases Option.some.inj isFound
  rw [guards.inner_eq]
  refine ⟨fun name writes => ?_, rfl, rfl, rfl⟩
  rcases Stmt.writesOutside_block_cons.mp writes with writes | ⟨_, writes⟩
  · exact List.mem_singleton.mp (Stmt.mem_written_of_writesOutside writes) ▸ List.mem_cons_self
  · exact absurd writes Stmt.not_writesOutside_block_nil

/-- The block is found as well if it also writes a variable from outside and discards the
fragment. -/
theorem not_confined_guarding :
    (guarding [leaking, .discard .unnumbered]).IsValid .essl100 ∧
      Kind.find .liveFragColorWrite ⟨.essl100, false⟩ (guarding [leaking, .discard .unnumbered]) =
        .ok [.liveFragColorWrite ⟨5, "gl_FragColor"⟩] ∧
      ∃ s, (guarding [leaking, .discard .unnumbered]).findStmt? 5 = some s ∧
        s.WritesOutside "x" ∧ s.holdsDiscard = true ∧ ¬ s.Confined ["gl_FragColor"] := by
  have isFound : (guarding [leaking, .discard .unnumbered]).findStmt? 5 = some (.block 5 6
      [.decl 7 ⟨8, none, .vector .float .four, "_GLF_old", some (.var 9 "gl_FragColor")⟩,
       .expr 10 (.assign 11 .add (.var 12 "x") (.float 13 .one)),
       .discard 14,
       .expr 15 (.assign 16 .set (.var 17 "gl_FragColor") (.var 18 "_GLF_old"))]) := rfl
  refine ⟨by decide, rfl, _, isFound, ?_⟩
  suffices writes : Stmt.WritesOutside _ "x" from
    ⟨writes, rfl, fun confined => absurd (confined.writes "x" writes) (by decide)⟩
  refine Stmt.writesOutside_block_cons.mpr (.inr ⟨by decide, ?_⟩)
  exact Stmt.writesOutside_block_cons.mpr (.inl (Stmt.writesOutside_assign .var))

end Reduction
end Whittle
