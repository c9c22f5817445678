import Mathlib.Data.List.Basic
import Whittle.Proofs.Parse.Stops
import Whittle.Proofs.RoundTrip.Words

namespace Whittle
namespace Parse

/-!
# Reading with other text behind

A reader looks beyond what it reads: for the end of a word, for an operator that may
have two characters, for a further argument, for an `else`.  Wherever it looks, a
semicolon or a closing brace follows in a text that can be read as a declaration, so
what is written behind the declaration is out of its sight: it may be replaced, and it
may be cut off.  A larger count of nesting and repetitions does not matter either.
-/

/-- Somewhere in the text stands a character that ends a statement or a block. -/
def HasEnding (text : List Char) : Prop :=
  ∃ c ∈ text, isEnding c = true

/-- Such a character stands behind the blanks and comments at the beginning. -/
def Settled (input : List Char) : Prop :=
  ∃ chars, Shows input chars ∧ HasEnding chars

variable {input chars rest more start : List Char}

theorem suffix_of_append (isSuffix : rest ++ more <:+ chars ++ more) : rest <:+ chars := by
  rcases isSuffix with ⟨front, isSplit⟩
  rw [← List.append_assoc] at isSplit
  exact ⟨front, List.append_cancel_right isSplit⟩

theorem not_hasEnding_nil : ¬ HasEnding [] := by
  rintro ⟨c, listed, _⟩
  cases listed

theorem HasEnding.ne_nil (hasEnding : HasEnding chars) : chars ≠ [] := by
  rintro rfl
  exact not_hasEnding_nil hasEnding

theorem HasEnding.of_suffix (hasEnding : HasEnding rest) (isSuffix : rest <:+ chars) :
    HasEnding chars := by
  rcases hasEnding with ⟨c, listed, ends⟩
  exact ⟨c, isSuffix.subset listed, ends⟩

theorem HasEnding.cons {c : Char} (hasEnding : HasEnding rest) : HasEnding (c :: rest) :=
  hasEnding.of_suffix (List.suffix_cons c rest)

theorem HasEnding.exists_append (hasEnding : HasEnding chars) :
    ∃ front c back, chars = front ++ c :: back ∧ isEnding c = true := by
  rcases hasEnding with ⟨c, listed, ends⟩
  rcases List.append_of_mem listed with ⟨front, back, isSplit⟩
  exact ⟨front, c, back, isSplit, ends⟩

/-- What is found at the beginning of the text is found with more text behind it. -/
theorem Stops.append_more {α : Type} {find? : List Char → Option (α × List Char)} (stops : Stops isStop find?)
    (hasEnding : HasEnding chars) : find? (chars ++ more) = (find? chars).map (Behind more) := by
  rcases hasEnding.exists_append with ⟨front, c, back, rfl, ends⟩
  have stop := isStop_of_isEnding ends
  rw [List.append_assoc, List.cons_append, stops.append stop, stops.append stop, map_behind_behind]
  rfl

theorem Stops.suffix {α : Type} {find? : List Char → Option (α × List Char)} {isLast : Char → Bool}
    (stops : Stops isLast find?) {a : α} (found : find? chars = some (a, rest)) : rest <:+ chars := by
  rcases stops.front found with ⟨c, front, rfl, _⟩
  exact List.suffix_append _ _

/-- What is found with more text behind it is found without it. -/
theorem Stops.of_append {α : Type} {find? : List Char → Option (α × List Char)} (stops : Stops isStop find?)
    {a : α} (found : find? (chars ++ more) = some (a, rest ++ more)) (hasEnding : HasEnding chars) :
    find? chars = some (a, rest) := by
  rw [stops.append_more hasEnding, Option.map_eq_some_iff] at found
  rcases found with ⟨⟨b, left⟩, isFound, same⟩
  rcases Prod.mk.inj same with ⟨rfl, isLeft⟩
  have isLeft : left = rest := List.append_cancel_right isLeft
  rw [isFound, isLeft]

theorem Stops.append_eq_none {α : Type} {find? : List Char → Option (α × List Char)}
    (stops : Stops isStop find?) (hasEnding : HasEnding chars) (other : List Char)
    (absent : find? (chars ++ other) = none) : find? (chars ++ more) = none := by
  rw [stops.append_more hasEnding, Option.map_eq_none_iff] at absent ⊢
  exact absent

/-- Some of what can be found is not asked for. -/
theorem Stops.filter {α : Type} {find? : List Char → Option (α × List Char)} {isLast : Char → Bool}
    (stops : Stops isLast find?) (wanted : α → Bool) :
    Stops isLast fun chars => (find? chars).filter fun found => wanted found.1 where
  append {c} stop front rest := by
    rw [stops.append stop]
    rcases find? front with _ | ⟨a, left⟩
    · rfl
    · simp only [Option.map_some, Behind, Option.filter_some]
      split <;> rfl
  front found := stops.front (Option.filter_eq_some_iff.mp found).1

/-- If the first character ends nothing, a later one does. -/
theorem HasEnding.tail {c : Char} (hasEnding : HasEnding (c :: rest)) (noEnding : isEnding c = false) :
    HasEnding rest := by
  rcases hasEnding with ⟨other, listed, ends⟩
  rcases List.mem_cons.mp listed with rfl | behind
  · rw [noEnding] at ends
    cases ends
  · exact ⟨other, behind, ends⟩

def Gap.extend (more : List Char) : Gap → Gap
  | .open => .open
  | .line => .line
  | .block opened => .block (opened ++ more)

theorem afterGap_suffix {where? : Gap} (behind : afterGap where? input = .ok chars) :
    chars <:+ input := by
  fun_induction afterGap where? input with
  | case4 | case5 | case8 =>
      cases behind
      exact List.suffix_refl _
  | case11 => cases behind
  | case1 rest inductionHypothesis | case2 rest inductionHypothesis
  | case9 _ rest inductionHypothesis =>
      exact (inductionHypothesis behind).trans (List.suffix_append [_, _] rest)
  | case3 c rest _ _ _ inductionHypothesis | case6 rest inductionHypothesis
  | case7 c rest _ inductionHypothesis | case10 _ c rest _ inductionHypothesis =>
      exact (inductionHypothesis behind).trans (List.suffix_cons _ rest)

/-- What is shown has more text behind it, unless it could be the first half of the mark of a
comment. -/
theorem afterGap_append {where? : Gap} (behind : afterGap where? input = .ok chars)
    (notNil : chars ≠ []) (noSlash : chars ≠ ['/']) :
    afterGap (where?.extend more) (input ++ more) = .ok (chars ++ more) := by
  fun_induction afterGap where? input with
  | case5 | case8 =>
      cases behind
      exact absurd rfl notNil
  | case11 => cases behind
  | case1 rest inductionHypothesis | case2 rest inductionHypothesis
  | case6 rest inductionHypothesis | case9 _ rest inductionHypothesis =>
      exact inductionHypothesis behind
  | case3 c rest noLine noBlock blank inductionHypothesis =>
      exact (shows_blank_iff blank).mpr (inductionHypothesis behind)
  | case4 c rest noLine noBlock notBlank =>
      cases behind
      by_cases isSlash : c = '/'
      · subst isSlash
        cases rest with
        | nil => exact absurd rfl noSlash
        | cons d tail =>
            exact shows_slash (fun same => noLine tail rfl (by rw [same]))
              fun same => noBlock tail rfl (by rw [same])
      · exact shows_cons (Bool.eq_false_iff.mpr notBlank) isSlash
  | case7 c rest notNewline inductionHypothesis =>
      rw [List.cons_append, Gap.extend, afterGap]
      · exact inductionHypothesis behind
      · exact notNewline
  | case10 opened c rest noEnd inductionHypothesis =>
      rw [List.cons_append, Gap.extend, afterGap]
      · exact inductionHypothesis behind
      · rintro tail rfl split
        cases rest with
        | nil => cases behind
        | cons d rest =>
            cases split
            exact noEnd rest rfl rfl

/-- What is shown in front of more text is shown without it, unless it is all of that text. -/
theorem afterGap_of_append {where? : Gap}
    (behind : afterGap (where?.extend more) (input ++ more) = .ok (chars ++ more))
    (notNil : chars ≠ []) : afterGap where? input = .ok chars := by
  -- A gap that goes on behind the shorter text does not end in front of its end.
  have inside : ∀ (where? : Gap) {text : List Char}, afterGap where? text = .ok (chars ++ more) →
      text.length ≤ more.length → False := by
    intro where? text ends short
    have le := (afterGap_suffix ends).length_le
    rw [List.length_append] at le
    exact notNil (List.length_eq_zero_iff.mp (by omega))
  fun_induction afterGap where? input with
  | case5 | case8 | case11 => exact (inside _ behind (Nat.le_refl _)).elim
  | case1 rest inductionHypothesis | case2 rest inductionHypothesis
  | case6 rest inductionHypothesis | case9 _ rest inductionHypothesis =>
      exact inductionHypothesis behind
  | case3 c rest noLine noBlock blank inductionHypothesis =>
      exact inductionHypothesis ((shows_blank_iff blank).mp behind)
  | case4 c rest noLine noBlock notBlank =>
      have begins : Shows (c :: (rest ++ more)) (c :: (rest ++ more)) := by
        by_cases isSlash : c = '/'
        · subst isSlash
          cases rest with
          | cons d tail =>
              exact shows_slash (fun same => noLine tail rfl (by rw [same]))
                fun same => noBlock tail rfl (by rw [same])
          | nil =>
              cases more with
              | nil => rfl
              | cons d tail =>
                  refine shows_slash ?_ ?_
                  · rintro rfl
                    exact inside .line behind (Nat.le_succ _)
                  · rintro rfl
                    exact inside (.block tail) behind (Nat.le_succ _)
        · exact shows_cons (Bool.eq_false_iff.mpr notBlank) isSlash
      rw [← List.cons_append] at begins
      rw [List.append_cancel_right (begins.unique behind)]
  | case7 c rest notNewline inductionHypothesis =>
      rw [List.cons_append, Gap.extend, afterGap] at behind
      · exact inductionHypothesis behind
      · exact notNewline
  | case10 opened c rest noEnd inductionHypothesis =>
      rw [List.cons_append, Gap.extend, afterGap] at behind
      · exact inductionHypothesis behind
      · rintro tail rfl split
        cases rest with
        | cons d rest =>
            cases split
            exact noEnd rest rfl rfl
        | nil =>
            obtain rfl : more = '/' :: tail := split
            exact inside .open behind (Nat.le_succ _)

theorem Shows.of_append (shown : Shows (input ++ more) (chars ++ more)) (notNil : chars ≠ []) :
    Shows input chars :=
  afterGap_of_append shown notNil

theorem shows_of_gap_eq {u : Unit} (isGap : gap input = .ok (u, chars)) : Shows input chars := by
  unfold Shows
  unfold gap at isGap
  cases isBehind : afterGap .open input with
  | error stop =>
      rw [isBehind] at isGap
      cases isGap
  | ok left =>
      rw [isBehind] at isGap
      cases isGap
      rfl

theorem Shows.append (shown : Shows input chars) (hasEnding : HasEnding chars) :
    Shows (input ++ more) (chars ++ more) := by
  refine afterGap_append shown ?_ ?_
  · rintro rfl
    exact not_hasEnding_nil hasEnding
  · rintro rfl
    exact not_hasEnding_nil (hasEnding.tail rfl)

theorem Settled.hasEnding (settled : Settled input) : HasEnding input := by
  rcases settled with ⟨chars, shown, hasEnding⟩
  exact hasEnding.of_suffix (afterGap_suffix shown)

/-! ## Failures in gaps -/

theorem Gap.open_ne_block (opened : List Char) : Gap.open ≠ .block opened := by
  intro same
  cases same

theorem Gap.line_ne_block (opened : List Char) : Gap.line ≠ .block opened := by
  intro same
  cases same

/-- A failure in a gap is reported behind the mark that opens the comment. -/
theorem afterGap_stop {where? : Gap} {stop : Stop} (fails : afterGap where? input = .error stop) :
    stop.rest <:+ input ∨ where? = .block stop.rest := by
  fun_induction afterGap where? input with
  | case4 | case5 | case8 => cases fails
  | case11 opened =>
      cases fails
      exact .inr rfl
  | case1 rest inductionHypothesis =>
      exact .inl (((inductionHypothesis fails).resolve_right (Gap.line_ne_block _)).trans
        (List.suffix_append [_, _] rest))
  | case9 _ rest inductionHypothesis =>
      exact .inl (((inductionHypothesis fails).resolve_right (Gap.open_ne_block _)).trans
        (List.suffix_append [_, _] rest))
  | case2 rest inductionHypothesis =>
      refine .inl (List.IsSuffix.trans ?_ (List.suffix_append [_, _] rest))
      rcases inductionHypothesis fails with isSuffix | same
      · exact isSuffix
      · rw [Gap.block.inj same]
  | case3 c rest _ _ _ inductionHypothesis | case6 rest inductionHypothesis =>
      exact .inl (((inductionHypothesis fails).resolve_right (Gap.open_ne_block _)).trans
        (List.suffix_cons _ rest))
  | case7 c rest _ inductionHypothesis =>
      exact .inl (((inductionHypothesis fails).resolve_right (Gap.line_ne_block _)).trans
        (List.suffix_cons _ rest))
  | case10 opened c rest _ inductionHypothesis =>
      exact (inductionHypothesis fails).imp_left fun isSuffix =>
        isSuffix.trans (List.suffix_cons _ rest)

/-- A reader behind a gap fails in the gap, or in what the gap shows. -/
theorem stop_of_gap_bind {α : Type} {second : Unit → Reader α} {stop : Stop}
    (fails : (gap >>= second) input = .error stop) :
    stop.rest <:+ input ∨ ∃ chars, Shows input chars ∧ second () chars = .error stop := by
  cases isGap : afterGap .open input with
  | ok chars =>
      rw [Reader.bind_eq_of_ok (Shows.gap_eq isGap)] at fails
      exact .inr ⟨chars, isGap, fails⟩
  | error stop' =>
      have gapFails : gap input = .error stop' := by
        rw [gap, isGap]
        rfl
      rw [Reader.bind_eq_of_error gapFails] at fails
      cases fails
      exact .inl ((afterGap_stop isGap).resolve_right (Gap.open_ne_block _))

/-- Whatever the first reader makes of a text with something behind it, the second one makes of
the text with anything else behind it, provided that what is left of the text has the property
`P`.  The text itself then has the property `E`.  What is left is an end of what was there, and
so is the point of a failure unless it is `start`. -/
structure ExtendsFrom {α : Type} (start : List Char) (E P : List Char → Prop)
    (reader reader' : Reader α) : Prop where
  keeps : ∀ ⦃input rest : List Char⦄ ⦃a : α⦄, reader input = .ok (a, rest) → rest <:+ input
  stops : ∀ ⦃input : List Char⦄ ⦃stop : Stop⦄, reader input = .error stop →
    stop.rest <:+ input ∨ stop.rest = start
  reads : ∀ ⦃input rest tail : List Char⦄ ⦃a : α⦄, reader (input ++ tail) = .ok (a, rest ++ tail) →
    P rest → E input ∧ ∀ more, reader' (input ++ more) = .ok (a, rest ++ more)

/-- An ending is left behind the gap that the text begins with. -/
abbrev Extends {α : Type} (start : List Char) (P : List Char → Prop) (reader reader' : Reader α) :
    Prop :=
  ExtendsFrom start Settled P reader reader'

/-- The text has an ending. -/
abbrev Sees {α : Type} (start : List Char) (P : List Char → Prop) (reader reader' : Reader α) :
    Prop :=
  ExtendsFrom start HasEnding P reader reader'

namespace ExtendsFrom

variable {α β : Type} {start : List Char} {E P Q : List Char → Prop} {reader reader' : Reader α}

/-- What is read off a whole text is read with more text behind it. -/
theorem append (extends? : ExtendsFrom start E P reader reader') {a : α}
    (isRead : reader input = .ok (a, rest)) (holds : P rest) :
    E input ∧ ∀ more, reader' (input ++ more) = .ok (a, rest ++ more) := by
  rw [← List.append_nil input, ← List.append_nil rest] at isRead
  exact extends?.reads isRead holds

theorem weaken (extends? : ExtendsFrom start E P reader reader') (weaker : ∀ input, E input → Q input) :
    ExtendsFrom start Q P reader reader' where
  keeps := extends?.keeps
  stops := extends?.stops
  reads _ _ _ _ isRead holds := (extends?.reads isRead holds).imp_left (weaker _)

theorem sees (extends? : Extends start P reader reader') : Sees start P reader reader' :=
  extends?.weaken fun _ => Settled.hasEnding

theorem pure (a : α) : ExtendsFrom start P P (pure a : Reader α) (pure a) where
  keeps _ _ _ isRead := (Reader.pure_eq_ok_iff.mp isRead).2 ▸ List.suffix_refl _
  stops _ _ fails := nomatch fails
  reads input rest tail b isRead holds := by
    rcases Reader.pure_eq_ok_iff.mp isRead with ⟨rfl, same⟩
    rw [List.append_cancel_right same]
    exact ⟨holds, fun _ => rfl⟩

theorem fail (cause : Cause) : ExtendsFrom start E P (Reader.fail cause) reader' where
  keeps _ _ _ isRead := nomatch isRead
  stops input stop fails := by
    cases fails
    exact .inl (List.suffix_refl input)
  reads _ _ _ _ isRead := nomatch isRead

theorem failAt (left : List Char) : ExtendsFrom left E P (Reader.failAt left) reader' where
  keeps _ _ _ isRead := nomatch isRead
  stops input stop fails := by
    cases fails
    exact .inr rfl
  reads _ _ _ _ isRead := nomatch isRead

/-- One reader behind the other.  The second one ensures what the first one asks for. -/
theorem bind {second second' : α → Reader β} (first : ExtendsFrom start E P reader reader')
    (behind : ∀ a, ExtendsFrom start P Q (second a) (second' a)) :
    ExtendsFrom start E Q (reader >>= second) (reader' >>= second') where
  keeps input rest b isRead := by
    rcases Reader.bind_eq_ok_iff.mp isRead with ⟨a, between, isFirst, isSecond⟩
    exact ((behind a).keeps isSecond).trans (first.keeps isFirst)
  stops input stop fails := by
    cases isFirst : reader input with
    | error stop' =>
        rw [Reader.bind_eq_of_error isFirst] at fails
        cases fails
        exact first.stops isFirst
    | ok read =>
        rw [Reader.bind_eq_of_ok isFirst] at fails
        exact ((behind _).stops fails).imp_left fun isSuffix => isSuffix.trans (first.keeps isFirst)
  reads input rest tail b isRead holds := by
    rcases Reader.bind_eq_ok_iff.mp isRead with ⟨a, between', isFirst, isSecond⟩
    -- What the second reader leaves has the other text behind it, and so has what it starts with.
    rcases (behind a).keeps isSecond with ⟨front, rfl⟩
    rw [← List.append_assoc] at isFirst isSecond
    have ofSecond := (behind a).reads isSecond holds
    have ofFirst := first.reads isFirst ofSecond.1
    refine ⟨ofFirst.1, fun more => ?_⟩
    rw [Reader.bind_eq_of_ok (ofFirst.2 more)]
    exact ofSecond.2 more

theorem pure_bind {second second' : α → Reader β} {a : α}
    (behind : ExtendsFrom start E Q (second a) (second' a)) :
    ExtendsFrom start E Q (Pure.pure a >>= second : Reader β) (Pure.pure a >>= second') :=
  behind

theorem map (extends? : ExtendsFrom start E P reader reader') (f : α → β) :
    ExtendsFrom start E P (reader >>= fun a => Pure.pure (f a))
      (reader' >>= fun a => Pure.pure (f a)) :=
  extends?.bind fun a => .pure (f a)

theorem ite {yes yes' no no' : Reader α} {test : Bool} (ofYes : ExtendsFrom start E P yes yes')
    (ofNo : ExtendsFrom start E P no no') :
    ExtendsFrom start E P (if test = true then yes else no) (if test = true then yes' else no') := by
  cases test with
  | true => exact ofYes
  | false => exact ofNo

/-- The second way is the one that is read if it is one in which the first way fails, whatever
else is behind the text. -/
theorem either {first first' second second' : Reader α} (ofFirst : ExtendsFrom start E P first first')
    (ofSecond : ExtendsFrom start E P second second')
    (others : ∀ {input rest tail : List Char} {a : α}, second (input ++ tail) = .ok (a, rest ++ tail) →
      P rest → ∀ more, ∃ stop, first' (input ++ more) = .error stop) :
    ExtendsFrom start E P (Reader.either first second) (Reader.either first' second') where
  keeps input rest a isRead := by
    unfold Reader.either at isRead
    split at isRead
    · rename_i isFirst
      cases isRead
      exact ofFirst.keeps isFirst
    · exact ofSecond.keeps isRead
  stops input stop fails := by
    unfold Reader.either at fails
    split at fails
    · cases fails
    · exact ofSecond.stops fails
  reads input rest tail a isRead holds := by
    unfold Reader.either at isRead
    split at isRead
    · rename_i isFirst
      cases isRead
      have read := ofFirst.reads isFirst holds
      exact ⟨read.1, fun more => Reader.either_eq_first (read.2 more)⟩
    · have read := ofSecond.reads isRead holds
      refine ⟨read.1, fun more => ?_⟩
      rcases others isRead holds more with ⟨stop, fails⟩
      exact (Reader.either_eq_second fails).trans (read.2 more)

/-- Where a reader starts matters for its failures alone. -/
theorem get {second second' : List Char → Reader α}
    (behind : ∀ left left', ExtendsFrom left E P (second left) (second' left')) :
    ExtendsFrom start E P (MonadState.get >>= second) (MonadState.get >>= second') where
  keeps input _ _ isRead := (behind input input).keeps isRead
  stops input stop fails := by
    refine .inl (((behind input input).stops fails).elim (fun isSuffix => isSuffix) fun same => ?_)
    rw [same]
  reads input rest tail a isRead holds :=
    ⟨((behind (input ++ tail) (input ++ tail)).reads isRead holds).1, fun more =>
      ((behind (input ++ tail) (input ++ more)).reads isRead holds).2 more⟩

end ExtendsFrom

section

variable {α : Type} {start : List Char} {P : List Char → Prop}

/-- A reader behind a gap, which finds an ending in what the gap shows. -/
theorem ExtendsFrom.behindGap {body body' : Reader α} (sees : Sees start P body body') :
    Extends start P (gap >>= fun _ => body) (gap >>= fun _ => body') where
  keeps input rest a isRead := by
    rcases Reader.bind_eq_ok_iff.mp isRead with ⟨_, chars, isGap, isRead⟩
    exact (sees.keeps isRead).trans (afterGap_suffix (shows_of_gap_eq isGap))
  stops input stop fails := by
    rcases stop_of_gap_bind fails with isSuffix | ⟨chars, shown, fails⟩
    · exact .inl isSuffix
    · exact (sees.stops fails).imp_left fun isSuffix => isSuffix.trans (afterGap_suffix shown)
  reads input rest tail a isRead holds := by
    rcases Reader.bind_eq_ok_iff.mp isRead with ⟨_, chars', isGap, isRead⟩
    rcases sees.keeps isRead with ⟨front, rfl⟩
    have shown := shows_of_gap_eq isGap
    rw [← List.append_assoc] at shown isRead
    rcases sees.reads isRead holds with ⟨hasEnding, reads⟩
    have shown := shown.of_append hasEnding.ne_nil
    refine ⟨⟨_, shown, hasEnding⟩, fun more => ?_⟩
    rw [Reader.bind_eq_of_ok (shown.append hasEnding).gap_eq]
    exact reads more

/-- Go on behind what is found at the beginning of the text, or in another way if nothing is. -/
def Reader.seek {β : Type} (find? : List Char → Option (β × List Char)) (missing : Reader α)
    (next : β → Reader α) : Reader α := fun input =>
  match find? input with
  | some (b, left) => next b left
  | none => missing input

theorem sees_seek {β : Type} {find? : List Char → Option (β × List Char)}
    (stops : Stops isStop find?) {missing missing' : Reader α} {next next' : β → Reader α}
    (ofMissing : Sees start P missing missing') (ofNext : ∀ b, Extends start P (next b) (next' b)) :
    Sees start P (Reader.seek find? missing next) (Reader.seek find? missing' next') where
  keeps input rest a isRead := by
    unfold Reader.seek at isRead
    split at isRead
    · rename_i b left found
      exact ((ofNext b).keeps isRead).trans (stops.suffix found)
    · exact ofMissing.keeps isRead
  stops input stop fails := by
    unfold Reader.seek at fails
    split at fails
    · rename_i b left found
      exact ((ofNext b).stops fails).imp_left fun isSuffix => isSuffix.trans (stops.suffix found)
    · exact ofMissing.stops fails
  reads input rest tail a isRead holds := by
    unfold Reader.seek at isRead ⊢
    split at isRead
    · rename_i b left' found
      rcases (ofNext b).keeps isRead with ⟨front, rfl⟩
      rw [← List.append_assoc] at isRead found
      have ofLeft := (ofNext b).reads isRead holds
      have hasEnding := ofLeft.1.hasEnding.of_suffix (suffix_of_append (stops.suffix found))
      refine ⟨hasEnding, fun more => ?_⟩
      rw [stops.append_more hasEnding, stops.of_append found hasEnding]
      exact ofLeft.2 more
    · rename_i absent
      have ofInput := ofMissing.reads isRead holds
      refine ⟨ofInput.1, fun more => ?_⟩
      rw [stops.append_eq_none ofInput.1 tail absent]
      exact ofInput.2 more

/-- Go on behind what is found behind a gap, or go back in front of the gap. -/
def Reader.seekOrBack {β : Type} (find? : List Char → Option (β × List Char)) (a : α)
    (next : β → Reader α) : Reader α := fun input =>
  (gap >>= fun _ => Reader.seek find? (fun _ => .ok (a, input)) next) input

theorem extends_seekOrBack {β : Type} {find? : List Char → Option (β × List Char)}
    (stops : Stops isStop find?) {next next' : β → Reader α} (a : α)
    (ofNext : ∀ b, Extends start Settled (next b) (next' b)) :
    Extends start Settled (Reader.seekOrBack find? a next) (Reader.seekOrBack find? a next') where
  keeps input rest a' isRead := by
    rcases Reader.bind_eq_ok_iff.mp isRead with ⟨_, chars, isGap, isRead⟩
    unfold Reader.seek at isRead
    split at isRead
    · rename_i b left found
      exact (((ofNext b).keeps isRead).trans (stops.suffix found)).trans
        (afterGap_suffix (shows_of_gap_eq isGap))
    · cases isRead
      exact List.suffix_refl _
  stops input stop fails := by
    rcases stop_of_gap_bind fails with isSuffix | ⟨chars, shown, fails⟩
    · exact .inl isSuffix
    · unfold Reader.seek at fails
      split at fails
      · rename_i b left found
        exact ((ofNext b).stops fails).imp_left fun isSuffix =>
          (isSuffix.trans (stops.suffix found)).trans (afterGap_suffix shown)
      · cases fails
  reads input rest tail a' isRead settled := by
    rcases Reader.bind_eq_ok_iff.mp isRead with ⟨_, chars', isGap, isRead⟩
    have shown' := shows_of_gap_eq isGap
    unfold Reader.seek at isRead
    split at isRead
    · rename_i b left' found
      rcases (ofNext b).keeps isRead with ⟨front, rfl⟩
      rcases stops.suffix found with ⟨before, rfl⟩
      rw [← List.append_assoc] at isRead found
      rw [← List.append_assoc, ← List.append_assoc] at shown' found
      have ofLeft := (ofNext b).reads isRead settled
      have hasEnding : HasEnding (before ++ front ++ rest) := by
        rw [List.append_assoc]
        exact ofLeft.1.hasEnding.of_suffix (List.suffix_append _ _)
      have shown := shown'.of_append hasEnding.ne_nil
      refine ⟨⟨_, shown, hasEnding⟩, fun more => ?_⟩
      unfold Reader.seekOrBack Reader.seek
      rw [Reader.bind_eq_of_ok (shown.append hasEnding).gap_eq, stops.append_more hasEnding,
        stops.of_append found hasEnding]
      exact ofLeft.2 more
    · rename_i absent
      obtain ⟨rfl, same⟩ := Prod.mk.inj (Except.ok.inj isRead)
      obtain rfl : input = rest := List.append_cancel_right same
      refine ⟨settled, fun more => ?_⟩
      rcases settled with ⟨chars, shown, hasEnding⟩
      obtain rfl : chars ++ tail = chars' := (shown.append hasEnding).unique shown'
      unfold Reader.seekOrBack Reader.seek
      rw [Reader.bind_eq_of_ok (shown.append hasEnding).gap_eq,
        stops.append_eq_none hasEnding tail absent]

end

/-! ## Tokens and words -/

theorem extends_gap : Extends start Settled gap gap := by
  have extends? : Extends start Settled (gap >>= fun _ => pure ()) (gap >>= fun _ => pure ()) :=
    (ExtendsFrom.pure ()).sees.behindGap
  rwa [bind_pure_unit] at extends?

/-- What is looked at is told from the text up to its ending. -/
theorem extends_look {α : Type} {look : List Char → α}
    (same : ∀ {input}, HasEnding input → ∀ more, look (input ++ more) = look input) :
    Extends start Settled (fun input => .ok (look input, input))
      (fun input => .ok (look input, input)) where
  keeps input rest a isRead := by
    cases isRead
    exact List.suffix_refl _
  stops _ _ fails := nomatch fails
  reads input rest tail a isRead settled := by
    rcases Prod.mk.inj (Except.ok.inj isRead) with ⟨rfl, isRest⟩
    obtain rfl : input = rest := List.append_cancel_right isRest
    refine ⟨settled, fun more => ?_⟩
    rw [same settled.hasEnding tail, same settled.hasEnding more]

/-- Whether a single mark comes first can be told from one character. -/
theorem isPrefixOf_append {mark : Char} (hasEnding : HasEnding chars) (more : List Char) :
    [mark].isPrefixOf (chars ++ more) = [mark].isPrefixOf chars := by
  cases chars with
  | nil => exact absurd hasEnding not_hasEnding_nil
  | cons c rest => rfl

theorem extends_atToken {text : String} {mark : Char} (isMark : text.toList = [mark]) :
    Extends start Settled (atToken text) (atToken text) := by
  have looks : Extends start Settled (fun input => .ok (text.toList.isPrefixOf input, input))
      (fun input => .ok (text.toList.isPrefixOf input, input)) :=
    extends_look fun hasEnding more => by rw [isMark, isPrefixOf_append hasEnding]
  exact looks.sees.behindGap

theorem shows_of_token_eq {text : String} {u : Unit} (isRead : token text input = .ok (u, rest)) :
    Shows input (text.toList ++ rest) := by
  rcases Reader.bind_eq_ok_iff.mp isRead with ⟨_, chars, isGap, isRead⟩
  rw [Reader.get_bind] at isRead
  cases isPrefix : text.toList.isPrefixOf? chars with
  | none =>
      rw [isPrefix] at isRead
      cases isRead
  | some left =>
      rw [isPrefix] at isRead
      cases isRead
      rw [List.isPrefixOf?_eq_some_iff_append_eq.mp isPrefix]
      exact shows_of_gap_eq isGap

/-- A mark is shown, and what is behind it has the property that is asked for. -/
theorem extends_token_of {text : String} {P : List Char → Prop}
    (ensures : ∀ rest, P rest → HasEnding (text.toList ++ rest)) :
    ExtendsFrom start (fun input => ∃ rest, Shows input (text.toList ++ rest) ∧ P rest) P
      (token text) (token text) where
  keeps input rest a isRead :=
    (List.suffix_append _ _).trans (afterGap_suffix (shows_of_token_eq isRead))
  stops input stop fails := by
    rcases stop_of_gap_bind fails with isSuffix | ⟨chars, shown, fails⟩
    · exact .inl isSuffix
    · rw [Reader.get_bind] at fails
      cases isPrefix : text.toList.isPrefixOf? chars with
      | some left =>
          rw [isPrefix] at fails
          cases fails
      | none =>
          rw [isPrefix] at fails
          cases fails
          exact .inl (afterGap_suffix shown)
  reads input rest tail a isRead holds := by
    have shown := shows_of_token_eq isRead
    rw [← List.append_assoc] at shown
    have hasEnding := ensures rest holds
    have shown := shown.of_append hasEnding.ne_nil
    refine ⟨⟨rest, shown, holds⟩, fun more => ?_⟩
    have shownMore : Shows (input ++ more) (text.toList ++ rest ++ more) := shown.append hasEnding
    rw [List.append_assoc] at shownMore
    exact shownMore.token_eq

theorem extends_token (text : String) : Extends start Settled (token text) (token text) := by
  have ensures : ∀ rest, Settled rest → HasEnding (text.toList ++ rest) := fun rest settled =>
    settled.hasEnding.of_suffix (List.suffix_append _ _)
  exact (extends_token_of ensures).weaken fun _ ⟨rest, shown, settled⟩ =>
    ⟨_, shown, ensures rest settled⟩

/-- What is behind a semicolon or a closing brace is out of sight. -/
theorem extends_token_ending {text : String} (ends : text.toList.any isEnding = true)
    (P : List Char → Prop) : Extends start P (token text) (token text) := by
  rcases List.any_eq_true.mp ends with ⟨c, listed, isEnding⟩
  have ensures : ∀ rest, P rest → HasEnding (text.toList ++ rest) := fun rest _ =>
    ⟨c, List.mem_append_left _ listed, isEnding⟩
  exact (extends_token_of ensures).weaken fun _ ⟨rest, shown, holds⟩ =>
    ⟨_, shown, ensures rest holds⟩

/-- Whether a keyword comes first can be told from the text up to the ending. -/
theorem isSome_behindKeyword?_append {name : String} (isName : isWord name = true)
    (hasEnding : HasEnding chars) (more : List Char) :
    (behindKeyword? name (chars ++ more)).isSome = (behindKeyword? name chars).isSome := by
  rcases hasEnding.exists_append with ⟨front, c, back, rfl, ends⟩
  have stop := isStop_of_isEnding ends
  rw [List.append_assoc, List.cons_append, behindKeyword?_append_cons isName stop,
    behindKeyword?_append_cons isName stop, Option.isSome_map, Option.isSome_map]

theorem extends_atKeyword {name : String} (isName : isWord name = true) :
    Extends start Settled (atKeyword name) (atKeyword name) :=
  extends_look (isSome_behindKeyword?_append isName)

theorem keyword_eq_seek (name : String) :
    keyword name = gap >>= fun _ => Reader.seek (fun chars => (behindKeyword? name chars).map ((), ·))
      (Reader.fail .unexpected) fun _ => pure () := by
  refine bind_congr fun _ => funext fun chars => ?_
  rw [Reader.seek, Reader.get_bind]
  cases behindKeyword? name chars <;> rfl

theorem extends_keyword {name : String} (isName : isWord name = true) :
    Extends start Settled (keyword name) (keyword name) := by
  rw [keyword_eq_seek]
  exact (sees_seek (stops_keyword isName) (.fail _) fun _ => .pure ()).behindGap

theorem word_eq_seek : word = gap >>= fun _ => Reader.seek word? (Reader.fail .unexpected) pure := by
  rw [word_eq]
  refine bind_congr fun _ => funext fun chars => ?_
  rw [Reader.seek, Reader.get_bind]
  cases word? chars <;> rfl

theorem extends_word : Extends start Settled word word := by
  rw [word_eq_seek]
  exact (sees_seek stops_word? (.fail _) .pure).behindGap

theorem extends_identifier : Extends start Settled identifier identifier :=
  .get fun _ _ => extends_word.bind fun _ => .ite (.failAt _) (.pure _)

theorem extends_typeName : Extends start Settled typeName typeName :=
  .get fun _ _ => extends_word.bind fun _ => .ite (.failAt _) (.pure _)

/-- A number is a float literal if it can be one, and an integer literal otherwise. -/
theorem number_eq_ok_iff {e : Expr} :
    number input = .ok (e, rest) ↔
      (∃ text value, floatText? input = some (text, rest) ∧ Binary64.ofText? text = some value ∧
        e = .float .unnumbered value) ∨
      floatText? input = none ∧ ∃ digits, digits? input = some (digits, rest) ∧
        Binary64.digitsValue digits ≤ largestInt ∧
        e = .int .unnumbered (Binary64.digitsValue digits) := by
  unfold number
  rw [Reader.get_bind]
  cases floatText? input with
  | some read =>
      rcases read with ⟨text, left⟩
      dsimp only
      rw [Reader.set_bind]
      cases isValue : Binary64.ofText? text with
      | none => simp [Reader.fail, isValue]
      | some value => simp [isValue, eq_comm, and_comm]
  | none =>
      dsimp only
      rw [Reader.get_bind]
      cases digits? input with
      | none => simp [Reader.fail]
      | some read =>
          rcases read with ⟨digits, left⟩
          dsimp only
          rw [Reader.set_bind]
          by_cases fits : Binary64.digitsValue digits ≤ largestInt
          · simp [fits, eq_comm, and_comm]
          · simp [fits, Reader.fail]

theorem exists_cons_of_number {e : Expr} (isRead : number input = .ok (e, rest)) :
    ∃ c tail, input = c :: tail ∧ (c.isDigit || c == '.') = true := by
  rcases number_eq_ok_iff.mp isRead with ⟨text, value, isFloat, _⟩ | ⟨_, digits, areDigits, _⟩
  · rcases exists_cons_of_floatText? isFloat with ⟨c, tail, rfl, begins, _⟩
    exact ⟨c, _, eq_append_of_floatText? isFloat, begins⟩
  · rcases head?_of_digits? areDigits with ⟨c, tail, rfl, isDigit⟩
    exact ⟨c, _, eq_append_of_digits? areDigits, by rw [isDigit, Bool.true_or]⟩

/-- What a number begins with belongs to no blank and no comment. -/
theorem shows_of_beginsNumber {c : Char} (begins : (c.isDigit || c == '.') = true) (tail : List Char) :
    Shows (c :: tail) (c :: tail) := by
  rw [Bool.or_eq_true, beq_iff_eq] at begins
  rcases begins with isDigit | rfl
  · have begins : Expr.beginsExpr c = true :=
      Expr.beginsExpr_of_beginsOperand (by simp [Expr.beginsOperand, isDigit])
    exact shows_cons (Expr.isTokenBlank_of_beginsExpr begins) (Expr.ne_of_beginsExpr begins rfl)
  · exact shows_cons rfl (by decide)

theorem number_eq_seek :
    number = Reader.seek floatText?
      (Reader.seek digits? (Reader.fail .unexpected) fun digits =>
        if Binary64.digitsValue digits ≤ largestInt then
          pure (.int .unnumbered (Binary64.digitsValue digits))
        else Reader.fail .unexpected)
      fun text => match Binary64.ofText? text with
        | some value => pure (.float .unnumbered value)
        | none => Reader.fail .unexpected := by
  funext chars
  rw [number, Reader.get_bind, Reader.seek, Reader.seek]
  cases floatText? chars with
  | some read => rfl
  | none =>
      dsimp only
      rw [Reader.get_bind]
      cases digits? chars <;> rfl

theorem sees_number : Sees start Settled number number := by
  rw [number_eq_seek]
  refine sees_seek stops_floatText? (sees_seek stops_digits? (.fail _) fun digits => ?_) fun text => ?_
  · split
    · exact .pure _
    · exact .fail _
  · split
    · exact .pure _
    · exact .fail _

end Parse
end Whittle
