import Mathlib.Data.List.Nodup
import Whittle.Check.Log

namespace Whittle
namespace Check

/-!
# What a part of a check adds to the log

A check only ever adds to its log.  Where the identifiers of a part are new and
the part follows the rules, it adds these identifiers and the types of the
expressions, and no problem; otherwise it adds a problem.  This is a judgement
on each part of a check, and judgements on parts make up one on the whole.
-/

/-- The identifiers are different from each other and new to the log. -/
structure Log.Allows (log : Log) (ids : List NodeId) : Prop where
  nodup : ids.Nodup
  new : ∀ id ∈ ids, id ∉ log.seen

/-- The log `after` knows the identifiers and types as well, and no other
problems. -/
structure Log.Adds (log : Log) (ids : List NodeId) (entries : List (NodeId × Ty))
    (after : Log) : Prop where
  problems : after.problems = log.problems
  seen : ∀ id, id ∈ after.seen ↔ id ∈ log.seen ∨ id ∈ ids
  keys : ∀ entry ∈ entries, entry.1 ∈ ids
  recorded : ∀ entry ∈ entries, after.types[entry.1]? = some entry.2
  kept : ∀ id, id ∉ entries.map Prod.fst → after.types[id]? = log.types[id]?

namespace Log

variable {log between after : Log} {ids ids' : List NodeId} {entries entries' : List (NodeId × Ty)}

theorem Adds.refl (log : Log) : log.Adds [] [] log where
  problems := rfl
  seen _ := by simp only [List.not_mem_nil, or_false]
  keys _ listed := by cases listed
  recorded _ listed := by cases listed
  kept _ _ := rfl

/-- New identifiers can be added in two steps. -/
theorem allows_append_iff (adds : log.Adds ids entries between) (allows : log.Allows ids) :
    log.Allows (ids ++ ids') ↔ between.Allows ids' := by
  constructor
  · intro both
    refine ⟨both.nodup.of_append_right, fun id listed known => ?_⟩
    rcases (adds.seen id).mp known with isOld | isFirst
    · exact both.new id (List.mem_append_right _ listed) isOld
    · exact (List.nodup_append.mp both.nodup).2.2 id isFirst id listed rfl
  · intro second
    refine ⟨List.nodup_append.mpr ⟨allows.nodup, second.nodup, ?_⟩, fun id listed => ?_⟩
    · rintro id isFirst _ isSecond rfl
      exact second.new id isSecond ((adds.seen id).mpr (Or.inr isFirst))
    · rcases List.mem_append.mp listed with isFirst | isSecond
      · exact allows.new id isFirst
      · exact fun isOld => second.new id isSecond ((adds.seen id).mpr (Or.inl isOld))

theorem Adds.trans (first : log.Adds ids entries between) (second : between.Adds ids' entries' after)
    (allows : between.Allows ids') : log.Adds (ids ++ ids') (entries ++ entries') after where
  problems := second.problems.trans first.problems
  seen id := by rw [second.seen, first.seen, List.mem_append, or_assoc]
  keys entry listed := by
    rcases List.mem_append.mp listed with isFirst | isSecond
    · exact List.mem_append_left _ (first.keys entry isFirst)
    · exact List.mem_append_right _ (second.keys entry isSecond)
  recorded entry listed := by
    rcases List.mem_append.mp listed with isFirst | isSecond
    · rw [second.kept, first.recorded entry isFirst]
      intro isKey
      rcases List.mem_map.mp isKey with ⟨other, isSecond, same⟩
      have known := (first.seen entry.1).mpr (Or.inr (first.keys entry isFirst))
      exact allows.new entry.1 (same ▸ second.keys other isSecond) known
    · exact second.recorded entry isSecond
  kept id isNoKey := by
    rw [List.map_append, List.mem_append, not_or] at isNoKey
    rw [second.kept id isNoKey.2, first.kept id isNoKey.1]

end Log

/-- A part of a check never takes back a problem. -/
def Grows {α : Type} (steps : Checker α) : Prop :=
  ∀ log : Log, log.problems.length ≤ (steps.run log).2.problems.length

/-- From a log that allows `ids`, and if `ok` holds, the steps add these
identifiers and the entries and yield `result`.  Otherwise they add a problem. -/
structure Judges {α : Type} (log : Log) (steps : Checker α) (ids : List NodeId)
    (entries : List (NodeId × Ty)) (ok : Prop) (result : α) : Prop where
  accepts : log.Allows ids → ok →
    (steps.run log).1 = result ∧ log.Adds ids entries (steps.run log).2
  rejects : ¬ (log.Allows ids ∧ ok) → log.problems.length < (steps.run log).2.problems.length

namespace Grows

variable {α β : Type}

theorem pure (a : α) : Grows (Pure.pure a) :=
  fun _ => Nat.le_refl _

theorem bind {first : Checker α} {second : α → Checker β} (grows : Grows first)
    (grows' : ∀ a, Grows (second a)) : Grows (first >>= second) :=
  fun log => Nat.le_trans (grows log) (grows' _ _)

theorem whenSome {part : Checker (Option α)} {next : α → Checker (Option β)}
    (grows : Grows part) (growsNext : ∀ a, Grows (next a)) : Grows (whenSome part next) := by
  refine grows.bind fun a? => ?_
  cases a? with
  | none => exact .pure _
  | some a => exact growsNext a

/-- Steps that are judged from every log only add problems. -/
theorem of_judges {steps : Checker α} {ids : List NodeId} {entries : List (NodeId × Ty)} {ok : Prop}
    {a : α} (judges : ∀ log, Judges log steps ids entries ok a) : Grows steps := by
  intro log
  by_cases accepted : log.Allows ids ∧ ok
  · exact Nat.le_of_eq (congrArg List.length
      ((judges log).accepts accepted.1 accepted.2).2.problems.symm)
  · exact Nat.le_of_lt ((judges log).rejects accepted)

end Grows

namespace Judges

variable {α β : Type} {log : Log} {ids ids' : List NodeId} {entries entries' : List (NodeId × Ty)}
  {ok ok' : Prop}

theorem pure (log : Log) (a : α) : Judges log (Pure.pure a) [] [] True a where
  accepts _ _ := ⟨rfl, .refl log⟩
  rejects rejected := absurd ⟨⟨List.nodup_nil, fun _ listed => by cases listed⟩, trivial⟩ rejected

/-- Two parts of a check in a row are judged one after the other.  The second
part is judged from the log that the first one leaves if it is accepted. -/
theorem bind {first : Checker α} {second : α → Checker β} {a : α} {b : β}
    (judges : Judges log first ids entries ok a)
    (judges' : ∀ between, log.Allows ids → log.Adds ids entries between → ok →
      Judges between (second a) ids' entries' ok' b)
    (grows : ∀ a, Grows (second a)) :
    Judges log (first >>= second) (ids ++ ids') (entries ++ entries') (ok ∧ ok') b where
  accepts allows isOk := by
    have allowsFirst : log.Allows ids :=
      ⟨allows.nodup.of_append_left, fun id listed => allows.new id (List.mem_append_left _ listed)⟩
    rcases judges.accepts allowsFirst isOk.1 with ⟨same, adds⟩
    have allowsSecond := (Log.allows_append_iff adds allowsFirst).mp allows
    rcases (judges' _ allowsFirst adds isOk.1).accepts allowsSecond isOk.2 with ⟨same', adds'⟩
    have run : (first >>= second).run log = (second (first.run log).1).run (first.run log).2 := rfl
    rw [run, same]
    exact ⟨same', adds.trans adds' allowsSecond⟩
  rejects rejected := by
    have run : (first >>= second).run log = (second (first.run log).1).run (first.run log).2 := rfl
    rw [run]
    by_cases accepted : log.Allows ids ∧ ok
    · rcases judges.accepts accepted.1 accepted.2 with ⟨same, adds⟩
      rw [same, ← adds.problems]
      refine (judges' _ accepted.1 adds accepted.2).rejects fun second => rejected ?_
      exact ⟨(Log.allows_append_iff adds accepted.1).mpr second.1, accepted.2, second.2⟩
    · exact Nat.lt_of_lt_of_le (judges.rejects accepted) (grows _ _)

/-- The identifiers may be listed in another order, and what is checked may be
put differently. -/
theorem congr {steps : Checker α} {a : α} (judges : Judges log steps ids entries ok a)
    (same : ids'.Perm ids) (sameEntries : entries' = entries) (sameOk : ok' ↔ ok) :
    Judges log steps ids' entries' ok' a := by
  subst sameEntries
  have allows : log.Allows ids' ↔ log.Allows ids :=
    ⟨fun old => ⟨same.nodup_iff.mp old.nodup, fun id listed => old.new id (same.mem_iff.mpr listed)⟩,
      fun new => ⟨same.nodup_iff.mpr new.nodup, fun id listed => new.new id (same.mem_iff.mp listed)⟩⟩
  constructor
  · intro isAllowed isOk
    rcases judges.accepts (allows.mp isAllowed) (sameOk.mp isOk) with ⟨isResult, adds⟩
    refine ⟨isResult, { adds with seen := fun id => ?_, keys := fun entry listed => ?_ }⟩
    · rw [adds.seen, same.mem_iff]
    · exact same.mem_iff.mpr (adds.keys entry listed)
  · intro rejected
    exact judges.rejects (by rwa [allows, sameOk] at rejected)

/-- A second part that is only accepted if the first one has a value. -/
theorem bind_some {first : Checker (Option α)} {second : Option α → Checker β} {a? : Option α}
    {b : β} (judges : Judges log first ids entries a?.isSome a?) (needed : ok → a?.isSome)
    (judges' : ∀ between a, log.Allows ids → log.Adds ids entries between → a? = some a →
      Judges between (second (some a)) ids' entries' ok b)
    (grows : ∀ a?, Grows (second a?)) :
    Judges log (first >>= second) (ids ++ ids') (entries ++ entries') ok b := by
  refine (judges.bind (fun between allows adds isSome => ?_) grows).congr (.refl _) rfl
    ⟨fun isOk => ⟨needed isOk, isOk⟩, And.right⟩
  rcases Option.isSome_iff_exists.mp isSome with ⟨a, rfl⟩
  exact judges' between a allows adds rfl

/-- If the part must have a value for the whole to have one, the whole is judged
by what comes behind. -/
theorem whenSome {part : Checker (Option α)} {next : α → Checker (Option β)}
    {a? : Option α} {b? : Option β} (judges : Judges log part ids entries a?.isSome a?)
    (needed : b?.isSome → a?.isSome)
    (judgesNext : ∀ after a, log.Adds ids entries after → a? = some a →
      Judges after (next a) [] [] b?.isSome b?)
    (growsNext : ∀ a, Grows (next a)) :
    Judges log (whenSome part next) ids entries b?.isSome b? := by
  refine (judges.bind_some needed (fun after a _ adds isSome => judgesNext after a adds isSome)
    fun a? => ?_).congr (.of_eq (List.append_nil ids).symm) (List.append_nil entries).symm .rfl
  cases a? with
  | none => exact .pure _
  | some a => exact growsNext a

/-- The same for two parts that both must have a value. -/
theorem whenBoth {γ : Type} {first : Checker (Option α)} {second : Checker (Option β)}
    {next : α → β → Checker (Option γ)} {a? : Option α} {b? : Option β} {c? : Option γ}
    (judges : Judges log first ids entries a?.isSome a?)
    (judges' : ∀ between, Judges between second ids' entries' b?.isSome b?)
    (needed : c?.isSome → a?.isSome ∧ b?.isSome)
    (judgesNext : ∀ after a b, log.Adds (ids ++ ids') (entries ++ entries') after → a? = some a →
      b? = some b → Judges after (next a b) [] [] c?.isSome c?)
    (growsNext : ∀ a b, Grows (next a b)) :
    Judges log (whenBoth first second next) (ids ++ ids') (entries ++ entries') c?.isSome c? := by
  have growsBehind : ∀ (a? : Option α) (b? : Option β),
      Grows (Check.whenBoth (Pure.pure a?) (Pure.pure b?) next) := by
    intro a? b?
    cases a? with
    | none => exact .pure _
    | some a =>
        cases b? with
        | none => exact .pure _
        | some b => exact growsNext a b
  refine judges.bind_some (fun isSome => (needed isSome).1) (fun between a _ adds isFirst => ?_)
    fun a? => (Grows.of_judges judges').bind (growsBehind a?)
  refine ((judges' between).bind_some (fun isSome => (needed isSome).2)
    (fun after b allows adds' isSecond => ?_) (growsBehind (some a))).congr
    (.of_eq (List.append_nil ids').symm) (List.append_nil entries').symm .rfl
  exact judgesNext after a b (adds.trans adds' allows) isFirst isSecond

/-- Two parts that are kept as a pair. -/
theorem both {first : Checker (Option α)} {second : Checker (Option β)} {a? : Option α}
    {b? : Option β} (judges : Judges log first ids entries a?.isSome a?)
    (judges' : ∀ between, Judges between second ids' entries' b?.isSome b?) :
    Judges log (Check.whenBoth first second fun a b => Pure.pure (some (a, b))) (ids ++ ids')
      (entries ++ entries') (a?.bind fun a => b?.map fun b => (a, b)).isSome
      (a?.bind fun a => b?.map fun b => (a, b)) := by
  refine judges.whenBoth judges' (fun isSome => ?_) (fun after a b _ isFirst isSecond => ?_)
    fun _ _ => .pure _
  · rcases Option.isSome_iff_exists.mp isSome with ⟨pair, isPair⟩
    rcases Option.bind_eq_some_iff.mp isPair with ⟨a, isFirst, isPair⟩
    rcases Option.map_eq_some_iff.mp isPair with ⟨b, isSecond, _⟩
    exact ⟨Option.isSome_of_eq_some isFirst, Option.isSome_of_eq_some isSecond⟩
  · subst isFirst isSecond
    exact (Judges.pure after (some (a, b))).congr (.refl _) rfl (iff_true_intro rfl)

/-- Steps that do the same from a log are judged the same there. -/
theorem of_run_eq {steps steps' : Checker α} {a : α} (same : steps.run log = steps'.run log)
    (judges : Judges log steps' ids entries ok a) : Judges log steps ids entries ok a := by
  constructor
  · rw [same]
    exact judges.accepts
  · rw [same]
    exact judges.rejects

/-- What is accepted may be put differently. -/
theorem of_ok_iff {steps : Checker α} {a : α} (judges : Judges log steps ids entries ok a)
    (sameOk : ok' ↔ ok) : Judges log steps ids entries ok' a :=
  judges.congr (.refl _) rfl sameOk

/-- A second part that does not look at what the first one yields. -/
theorem andThen {first : Checker α} {second : Checker β} {a : α} {b : β}
    (judges : Judges log first ids entries ok a)
    (judges' : ∀ between, Judges between second ids' entries' ok' b) :
    Judges log (first >>= fun _ => second) (ids ++ ids') (entries ++ entries') (ok ∧ ok') b :=
  judges.bind (fun between _ _ _ => judges' between) fun _ => .of_judges judges'

/-- A value in place of the one that a part yields. -/
theorem andPure {first : Checker α} {a : α} (judges : Judges log first ids entries ok a) (b : β) :
    Judges log (first >>= fun _ => Pure.pure b) ids entries ok b :=
  (judges.andThen fun between => Judges.pure between b).congr (.of_eq (List.append_nil ids).symm)
    (List.append_nil entries).symm (iff_of_eq (and_true ok)).symm

end Judges

/-! ## Single steps -/

theorem grows_report (node : NodeId) (fault : Fault) : Grows (report node fault) := by
  intro log
  show log.problems.length ≤ (log.problems ++ [_]).length
  rw [List.length_append]
  exact Nat.le_add_right _ _

theorem grows_reportIf (violated : Bool) (node : NodeId) (fault : Fault) :
    Grows (reportIf violated node fault) := by
  cases violated with
  | true => exact grows_report node fault
  | false => exact .pure ()

theorem grows_settle (node : NodeId) (result : Except Fault Ty) : Grows (settle node result) := by
  cases result with
  | ok ty => exact .pure _
  | error fault => exact (grows_report node fault).bind fun _ => .pure _

theorem judges_reportIf (log : Log) (violated : Bool) (node : NodeId) (fault : Fault) :
    Judges log (reportIf violated node fault) [] [] (violated = false) () := by
  cases violated with
  | false => exact (Judges.pure log ()).congr (.refl _) rfl (by simp only)
  | true =>
      constructor
      · intro _ impossible
        cases impossible
      · intro _
        show log.problems.length < (log.problems ++ [_]).length
        rw [List.length_append]
        exact Nat.lt_succ_self _

/-- A report is rejected whatever the log. -/
theorem judges_report {α : Type} (log : Log) (node : NodeId) (fault : Fault) (ids : List NodeId)
    (entries : List (NodeId × Ty)) (next : Checker α) (grows : Grows next) (result : α) :
    Judges log (report node fault >>= fun _ => next) ids entries False result where
  accepts _ impossible := impossible.elim
  rejects _ := by
    have more : log.problems.length < ((report node fault).run log).2.problems.length := by
      show log.problems.length < (log.problems ++ [_]).length
      rw [List.length_append]
      exact Nat.lt_succ_self _
    exact Nat.lt_of_lt_of_le more (grows _)

theorem judges_noteId (log : Log) (id : NodeId) : Judges log (noteId id) [id] [] True () where
  accepts allows _ := by
    have isNew : log.seen.contains id = false := by
      rw [Bool.eq_false_iff]
      exact allows.new id List.mem_cons_self
    have run : (noteId id).run log = ((), { log with seen := log.seen.insert id }) := by
      show ((reportIf (log.seen.contains id) id (.repeatedId id) >>= fun _ =>
        modify fun log : Log => { log with seen := log.seen.insert id }).run log) = _
      rw [isNew]
      rfl
    rw [run]
    refine ⟨rfl, rfl, fun other => ?_, List.forall_mem_nil _, List.forall_mem_nil _, fun _ _ => rfl⟩
    rw [Std.TreeSet.mem_insert, Std.LawfulEqOrd.compare_eq_iff_eq, List.mem_singleton, or_comm, eq_comm]
  rejects rejected := by
    have known : log.seen.contains id = true := by
      by_contra unknown
      refine rejected ⟨⟨List.nodup_singleton id, fun other listed => ?_⟩, trivial⟩
      rw [List.mem_singleton.mp listed]
      exact unknown
    show log.problems.length < ((reportIf (log.seen.contains id) id (.repeatedId id) >>= fun _ =>
      modify fun log : Log => { log with seen := log.seen.insert id }).run log).2.problems.length
    rw [known]
    show log.problems.length < (log.problems ++ [_]).length
    rw [List.length_append]
    exact Nat.lt_succ_self _

theorem judges_settle (log : Log) (node : NodeId) (result : Except Fault Ty) :
    Judges log (settle node result) [] [] result.toOption.isSome result.toOption := by
  cases result with
  | ok ty => exact (Judges.pure log (some ty)).congr (.refl _) rfl (by simp [Except.toOption])
  | error fault =>
      exact (judges_report log node fault [] [] (pure none) (.pure _) none).congr (.refl _) rfl
        (by simp [Except.toOption])

/-- The end of `recorded`: a type that was found is entered in the table. -/
def record (id : NodeId) : Option Ty → Checker (Option Ty)
  | some ty => do
      modify fun log => { log with types := log.types.insert id ty }
      pure (some ty)
  | none => pure none

theorem recorded_eq (id : NodeId) (work : Checker (Option Ty)) :
    recorded id work = (noteId id >>= fun _ => work) >>= record id := by
  funext log
  show (recorded id work).run log = ((noteId id >>= fun _ => work) >>= record id).run log
  unfold recorded
  simp only [bind_assoc]
  congr 1

theorem Log.Adds.record {log after : Log} {id : NodeId} {ids : List NodeId}
    {entries : List (NodeId × Ty)} (adds : log.Adds (id :: ids) entries after)
    (isNoKey : id ∉ entries.map Prod.fst) (ty : Ty) :
    log.Adds (id :: ids) ((id, ty) :: entries)
      { after with types := after.types.insert id ty } where
  problems := adds.problems
  seen := adds.seen
  keys := List.forall_mem_cons.mpr ⟨List.mem_cons_self, adds.keys⟩
  recorded := by
    refine List.forall_mem_cons.mpr ⟨Std.TreeMap.getElem?_insert_self, fun entry listed => ?_⟩
    have differ : id ≠ entry.1 := fun same => isNoKey (same ▸ List.mem_map_of_mem listed)
    rw [Std.TreeMap.getElem?_insert, if_neg (fun same => differ (Std.LawfulEqOrd.compare_eq_iff_eq.mp same))]
    exact adds.recorded entry listed
  kept other isNoKey' := by
    rw [List.map_cons, List.mem_cons, not_or] at isNoKey'
    rw [Std.TreeMap.getElem?_insert,
      if_neg (fun same => isNoKey'.1 (Std.LawfulEqOrd.compare_eq_iff_eq.mp same).symm)]
    exact adds.kept other isNoKey'.2

/-- An expression is recorded once its type is settled. -/
theorem judges_recorded (log : Log) (id : NodeId) {work : Checker (Option Ty)}
    {ids : List NodeId} {entries : List (NodeId × Ty)} {ty? : Option Ty}
    (judges : ∀ between, Judges between work ids entries ty?.isSome ty?) :
    Judges log (recorded id work) (id :: ids) ((ty?.map fun ty => (id, ty)).toList ++ entries)
      ty?.isSome ty? := by
  have noted : Judges log (noteId id >>= fun _ => work) (id :: ids) entries
      (True ∧ ty?.isSome) ty? :=
    (judges_noteId log id).andThen judges
  rw [recorded_eq]
  constructor
  · intro allows isSome
    rcases Option.isSome_iff_exists.mp isSome with ⟨ty, rfl⟩
    rcases noted.accepts allows ⟨trivial, rfl⟩ with ⟨same, adds⟩
    have allowsId : log.Allows [id] :=
      ⟨List.nodup_singleton id, fun other listed => allows.new other (by
        rw [List.mem_singleton.mp listed]
        exact List.mem_cons_self)⟩
    have isNoKey : id ∉ entries.map Prod.fst := by
      intro isKey
      rcases List.mem_map.mp isKey with ⟨entry, listed, same⟩
      have added := ((judges_noteId log id).accepts allowsId trivial).2
      have inner := (Log.allows_append_iff added allowsId).mp allows
      have within := ((judges _).accepts inner rfl).2.keys entry listed
      exact (List.nodup_cons.mp allows.nodup).1 (same ▸ within)
    have run : ((noteId id >>= fun _ => work) >>= record id).run log =
        (record id ((noteId id >>= fun _ => work).run log).1).run
          ((noteId id >>= fun _ => work).run log).2 := rfl
    rw [run, same]
    exact ⟨rfl, adds.record isNoKey ty⟩
  · intro rejected
    have growsRecord : ∀ ty?, Grows (record id ty?) := by
      intro ty?
      cases ty? with
      | none => exact .pure _
      | some ty => exact fun log => Nat.le_refl _
    refine Nat.lt_of_lt_of_le (noted.rejects fun accepted => rejected ?_) (growsRecord _ _)
    exact ⟨accepted.1, accepted.2.2⟩

end Check
end Whittle
