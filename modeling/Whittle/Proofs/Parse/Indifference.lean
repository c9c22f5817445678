import Whittle.Proofs.Parse.Separators

namespace Whittle
namespace Parse

/-!
# Readers that do not see the layout

A reader skips the gap in front of each token and looks at no blank behind it.  So it makes
the same of texts that differ in their layout, and leaves texts that do so at most.  The
counts of nesting and repetitions may be any that exceed the lengths of the texts.
-/

variable {α β : Type} {input input' chars chars' : List Char}

/-- Nothing is found in either text, or else the same in both of them, and what is left differs
in its layout at most. -/
inductive FoundAlike (chars chars' : List Char) (found found' : Option (α × List Char)) : Prop
  | missing (isNone : found = none) (isNone' : found' = none)
  | found {a : α} {left left' : List Char} (isSome : found = some (a, left))
      (isSome' : found' = some (a, left')) (relaid : Relaid left left')
      (shorter : left.length < chars.length) (shorter' : left'.length < chars'.length)

theorem Stops.foundAlike {find? : List Char → Option (α × List Char)}
    (stops : Stops Text.isTokenBlank find?) (ready : Ready chars chars') :
    FoundAlike chars chars' (find? chars) (find? chars') := by
  rcases ready with ⟨relaid, shown, _⟩
  cases relaid with
  | same =>
      cases found : find? chars with
      | none => exact .missing rfl rfl
      | some read =>
          rcases read with ⟨a, left⟩
          rcases stops.front found with ⟨c, front, rfl, _⟩
          have shorter : left.length < (c :: front ++ left).length := by
            rw [List.length_append, List.length_cons]
            omega
          exact .found rfl rfl (.same left) shorter shorter
  | @behind pre tail tail' b b' ends blank blank' like =>
      rw [stops.append blank, stops.append blank']
      cases found : find? pre with
      | none => exact .missing rfl rfl
      | some read =>
          rcases read with ⟨a, left⟩
          rcases stops.front found with ⟨c, front, rfl, noSlash⟩
          have shorter : ∀ more : List Char,
              (left ++ more).length < (c :: front ++ left ++ more).length := by
            intro more
            simp only [List.length_append, List.length_cons]
            omega
          have endsLeft := shown.endsOutside ends noSlash
          exact .found rfl rfl (.behind endsLeft blank blank' like) (shorter _) (shorter _)

/-- Both outcomes are failures, or else the same was read, and at least `least` characters were,
and what is left differs in its layout at most. -/
inductive Alike (least : Nat) (input input' : List Char)
    (read read' : Except Stop (α × List Char)) : Prop
  | fail {stop stop' : Stop} (fails : read = .error stop) (fails' : read' = .error stop')
  | ok {a : α} {rest rest' : List Char} (isRead : read = .ok (a, rest))
      (isRead' : read' = .ok (a, rest')) (relaid : Relaid rest rest')
      (advances : rest.length + least ≤ input.length) (advances' : rest'.length + least ≤ input'.length)

/-- The first reader makes of texts that are shorter than `limit` what the second one makes of
texts of different layout that are shorter than `limit'`. -/
def Indifferent (least limit limit' : Nat) (reader reader' : Reader α) : Prop :=
  ∀ ⦃input input' : List Char⦄, Relaid input input' → input.length < limit → input'.length < limit' →
    Alike least input input' (reader input) (reader' input')

/-- What was read behind the beginning of a text was read off the text. -/
theorem Alike.within {least : Nat} {read read' : Except Stop (α × List Char)}
    (alike : Alike least chars chars' read read') (within : chars.length ≤ input.length)
    (within' : chars'.length ≤ input'.length) : Alike least input input' read read' := by
  rcases alike with ⟨fails, fails'⟩ | ⟨isRead, isRead', relaid, advances, advances'⟩
  · exact .fail fails fails'
  · exact .ok isRead isRead' relaid (by omega) (by omega)

theorem Alike.keeps {least : Nat} {read read' : Except Stop (α × List Char)}
    (alike : Alike least input input' read read') : Alike 0 input input' read read' := by
  rcases alike with ⟨fails, fails'⟩ | ⟨isRead, isRead', relaid, advances, advances'⟩
  · exact .fail fails fails'
  · exact .ok isRead isRead' relaid (by omega) (by omega)

theorem Alike.of_eq {least : Nat} {read read' other other' : Except Stop (α × List Char)}
    (alike : Alike least input input' other other') (same : read = other) (same' : read' = other') :
    Alike least input input' read read' := by
  rw [same, same']
  exact alike

theorem Alike.ite {least : Nat} {yes yes' no no' : Reader α} (test : Bool)
    (ofYes : Alike least input input' (yes input) (yes' input'))
    (ofNo : Alike least input input' (no input) (no' input')) :
    Alike least input input' ((if test = true then yes else no) input)
      ((if test = true then yes' else no') input') := by
  cases test with
  | true => exact ofYes
  | false => exact ofNo

namespace Indifferent

variable {least limit limit' : Nat} {reader reader' : Reader α}

/-- No text is shorter than the empty one. -/
theorem zero_left : Indifferent least 0 limit' reader reader' :=
  fun _ _ _ short => absurd short (Nat.not_lt_zero _)

theorem zero_right : Indifferent least limit 0 reader reader' :=
  fun _ _ _ _ short => absurd short (Nat.not_lt_zero _)

theorem anti (indifferent : Indifferent least limit limit' reader reader') {bound bound' : Nat}
    (within : bound ≤ limit) (within' : bound' ≤ limit') :
    Indifferent least bound bound' reader reader' :=
  fun _ _ relaid short short' =>
    indifferent relaid (Nat.lt_of_lt_of_le short within) (Nat.lt_of_lt_of_le short' within')

/-- What reads many characters reads few. -/
theorem weaken (indifferent : Indifferent least limit limit' reader reader') {fewer : Nat}
    (fewer_le : fewer ≤ least) : Indifferent fewer limit limit' reader reader' := by
  intro input input' relaid short short'
  rcases indifferent relaid short short' with
    ⟨fails, fails'⟩ | ⟨isRead, isRead', relaid, advances, advances'⟩
  · exact .fail fails fails'
  · exact .ok isRead isRead' relaid (by omega) (by omega)

theorem keeps (indifferent : Indifferent least limit limit' reader reader') :
    Indifferent 0 limit limit' reader reader' :=
  indifferent.weaken (Nat.zero_le least)

theorem pure (a : α) : Indifferent 0 limit limit' (pure a : Reader α) (pure a) :=
  fun _ _ relaid _ _ => .ok rfl rfl relaid (Nat.le_refl _) (Nat.le_refl _)

theorem failAt (left left' : List Char) :
    Indifferent least limit limit' (Reader.failAt left : Reader α) (Reader.failAt left') :=
  fun _ _ _ _ _ => .fail rfl rfl

section

variable {second second' : α → Reader β}

/-- One reader behind the other.  What the first one leaves is shorter by what it reads. -/
theorem sequence {more : Nat} (first : Indifferent least limit limit' reader reader')
    (behind : ∀ a, Indifferent more (limit - least) (limit' - least) (second a) (second' a)) :
    Indifferent (least + more) limit limit' (reader >>= second) (reader' >>= second') := by
  intro input input' relaid short short'
  rcases first relaid short short' with
    ⟨fails, fails'⟩ | @⟨a, rest, rest', isRead, isRead', relaidRest, advances, advances'⟩
  · exact .fail (Reader.bind_eq_of_error fails) (Reader.bind_eq_of_error fails')
  · rw [Reader.bind_eq_of_ok isRead, Reader.bind_eq_of_ok isRead']
    rcases behind a relaidRest (by omega) (by omega) with
      ⟨fails, fails'⟩ | ⟨isRead, isRead', relaid, advances, advances'⟩
    · exact .fail fails fails'
    · exact .ok isRead isRead' relaid (by omega) (by omega)

/-- The first reader reads what is asked for. -/
theorem bind (first : Indifferent least limit limit' reader reader')
    (behind : ∀ a, Indifferent 0 limit limit' (second a) (second' a)) :
    Indifferent least limit limit' (reader >>= second) (reader' >>= second') :=
  first.sequence fun a => (behind a).anti (Nat.sub_le limit least) (Nat.sub_le limit' least)

/-- The second reader does. -/
theorem after (first : Indifferent 0 limit limit' reader reader')
    (behind : ∀ a, Indifferent least limit limit' (second a) (second' a)) :
    Indifferent least limit limit' (reader >>= second) (reader' >>= second') :=
  (first.sequence behind).weaken (Nat.le_add_left least 0)

/-- The second reader has fewer characters before it. -/
theorem step (first : Indifferent 1 limit limit' reader reader')
    (behind : ∀ a, Indifferent 0 (limit - 1) (limit' - 1) (second a) (second' a)) :
    Indifferent 1 limit limit' (reader >>= second) (reader' >>= second') :=
  first.sequence behind

theorem pure_bind {a : α} (behind : Indifferent least limit limit' (second a) (second' a)) :
    Indifferent least limit limit' (Pure.pure a >>= second : Reader β) (Pure.pure a >>= second') :=
  behind

end

theorem map (indifferent : Indifferent least limit limit' reader reader') (f : α → β) :
    Indifferent least limit limit' (reader >>= fun a => Pure.pure (f a))
      (reader' >>= fun a => Pure.pure (f a)) :=
  indifferent.bind fun a => .pure (f a)

theorem ite {yes yes' no no' : Reader α} {test : Bool} (ofYes : Indifferent least limit limit' yes yes')
    (ofNo : Indifferent least limit limit' no no') :
    Indifferent least limit limit' (if test = true then yes else no)
      (if test = true then yes' else no') := by
  cases test with
  | true => exact ofYes
  | false => exact ofNo

/-- Where a reader starts matters for its failures alone. -/
theorem get {second second' : List Char → Reader α}
    (behind : ∀ start start', Indifferent least limit limit' (second start) (second' start')) :
    Indifferent least limit limit' (MonadState.get >>= second) (MonadState.get >>= second') :=
  fun input input' relaid short short' => behind input input' relaid short short'

/-- A reader that skips a gap and looks at the text behind it.  It may go back. -/
theorem startGap {body body' : List Char → List Char → Reader α}
    (behind : ∀ input input' chars chars', Relaid input input' → Ready chars chars' →
      chars.length ≤ input.length → chars'.length ≤ input'.length →
      input.length < limit → input'.length < limit' →
      Alike least input input' (body input chars chars) (body' input' chars' chars')) :
    Indifferent least limit limit'
      (do let start ← MonadState.get; gap; body start (← MonadState.get))
      (do let start ← MonadState.get; gap; body' start (← MonadState.get)) := by
  intro input input' relaid short short'
  rw [Reader.get_bind, Reader.get_bind]
  rcases relaid.gap_cases with ⟨stop, fails, fails'⟩ | ⟨chars, chars', shown, shown', ready⟩
  · exact .fail (Reader.bind_eq_of_error fails) (Reader.bind_eq_of_error fails')
  · rw [Reader.bind_eq_of_ok shown.gap_eq, Reader.bind_eq_of_ok shown'.gap_eq]
    exact behind input input' chars chars' relaid ready (afterGap_suffix shown).length_le
      (afterGap_suffix shown').length_le short short'

/-- The same for a reader that does not go back. -/
theorem behindGap {body body' : List Char → Reader α}
    (behind : ∀ chars chars', Ready chars chars' → chars.length < limit → chars'.length < limit' →
      Alike least chars chars' (body chars chars) (body' chars' chars')) :
    Indifferent least limit limit' (do gap; body (← MonadState.get))
      (do gap; body' (← MonadState.get)) :=
  @startGap _ _ _ _ (fun _ => body) (fun _ => body')
    fun _ _ chars chars' _ ready within within' short short' =>
      (behind chars chars' ready (by omega) (by omega)).within within within'

/-- What is read behind something that was found. -/
theorem behind (indifferent : Indifferent least (limit - 1) (limit' - 1) reader reader')
    {left left' : List Char} (relaid : Relaid left left') (shorter : left.length < input.length)
    (shorter' : left'.length < input'.length) (short : input.length < limit)
    (short' : input'.length < limit') : Alike 1 input input' (reader left) (reader' left') := by
  rcases indifferent relaid (by omega) (by omega) with
    ⟨fails, fails'⟩ | ⟨isRead, isRead', relaid, advances, advances'⟩
  · exact .fail fails fails'
  · exact .ok isRead isRead' relaid (by omega) (by omega)

/-- A choice falls on the same reader. -/
theorem either {second second' : Reader α} (first : Indifferent least limit limit' reader reader')
    (other : Indifferent least limit limit' second second') :
    Indifferent least limit limit' (Reader.either reader second) (Reader.either reader' second') := by
  intro input input' relaid short short'
  rcases first relaid short short' with
    ⟨fails, fails'⟩ | ⟨isRead, isRead', relaid, advances, advances'⟩
  · rw [Reader.either_eq_second fails, Reader.either_eq_second fails']
    exact other relaid short short'
  · exact .ok (Reader.either_eq_first isRead) (Reader.either_eq_first isRead') relaid advances advances'

/-- A reader that counts down is indifferent if it is so as long as what it reads behind a
character is.  No count runs out before the text does. -/
theorem countdown {γ : Type} (family family' : Nat → γ → Reader α)
    (next : ∀ fuel fuel' bound bound', bound ≤ limit → bound' ≤ limit' → bound ≤ fuel + 1 →
      bound' ≤ fuel' + 1 →
      (∀ c, Indifferent least (bound - 1) (bound' - 1) (family fuel c) (family' fuel' c)) →
      ∀ c, Indifferent least bound bound' (family (fuel + 1) c) (family' (fuel' + 1) c))
    {fuel fuel' : Nat} (enough : limit ≤ fuel) (enough' : limit' ≤ fuel') (c : γ) :
    Indifferent least limit limit' (family fuel c) (family' fuel' c) := by
  induction fuel generalizing limit limit' fuel' c with
  | zero =>
      obtain rfl : limit = 0 := Nat.le_zero.mp enough
      exact zero_left
  | succ fuel inductionHypothesis =>
      cases fuel' with
      | zero =>
          obtain rfl : limit' = 0 := Nat.le_zero.mp enough'
          exact zero_right
      | succ fuel' =>
          refine next fuel fuel' limit limit' (Nat.le_refl _) (Nat.le_refl _)
            enough enough' (fun c => ?_) c
          refine inductionHypothesis ?_ (by omega) (by omega) c
          intro fuel fuel' bound bound' within within'
          exact next fuel fuel' bound bound' (by omega) (by omega)

/-- There are no more items than characters. -/
theorem manyUntil {closed closed' : Reader Bool} (ofClosed : Indifferent 0 limit limit' closed closed')
    (ofItem : Indifferent 1 limit limit' reader reader') {fuel fuel' : Nat} (enough : limit ≤ fuel)
    (enough' : limit' ≤ fuel') : Indifferent 0 limit limit' (Reader.manyUntil closed reader fuel)
      (Reader.manyUntil closed' reader' fuel') := by
  refine countdown (fun fuel (_ : Unit) => Reader.manyUntil closed reader fuel)
    (fun fuel _ => Reader.manyUntil closed' reader' fuel) ?_ enough enough' ()
  intro fuel fuel' bound bound' within within' _ _ again _
  exact (ofClosed.anti within within').bind fun isClosed => .ite (.pure [])
    ((ofItem.anti within within').step fun first => (again ()).map _).keeps

theorem manyBehind {separator separator' : Reader Unit}
    (ofSeparator : Indifferent 1 limit limit' separator separator')
    (ofItem : Indifferent 1 limit limit' reader reader') {fuel fuel' : Nat} (enough : limit ≤ fuel)
    (enough' : limit' ≤ fuel') : Indifferent 0 limit limit' (Reader.manyBehind separator reader fuel)
      (Reader.manyBehind separator' reader' fuel') := by
  refine countdown (fun fuel (_ : Unit) => Reader.manyBehind separator reader fuel)
    (fun fuel _ => Reader.manyBehind separator' reader' fuel) ?_ enough enough' ()
  intro fuel fuel' bound bound' within within' _ _ again _ input input' relaid short short'
  have ofBoth := (ofSeparator.bind fun _ => ofItem.keeps).anti within within'
  rcases ofBoth relaid short short' with
    ⟨fails, fails'⟩ | @⟨first, rest, rest', isRead, isRead', relaidRest, advances, advances'⟩
  · have areRead : Reader.manyBehind separator reader (fuel + 1) input = .ok ([], input) := by
      simp only [Reader.manyBehind, fails]
    have areRead' : Reader.manyBehind separator' reader' (fuel' + 1) input' = .ok ([], input') := by
      simp only [Reader.manyBehind, fails']
    exact .ok areRead areRead' relaid (Nat.le_refl _) (Nat.le_refl _)
  · have ofOthers := again () relaidRest (by omega) (by omega)
    simp only [Reader.manyBehind, isRead, isRead']
    rcases ofOthers with ⟨fails, fails'⟩ | @⟨_, left, left', areRead, areRead', relaidLeft, le, le'⟩
    · rw [fails, fails']
      exact .fail rfl rfl
    · rw [areRead, areRead']
      have shorter : left.length ≤ input.length := by omega
      have shorter' : left'.length ≤ input'.length := by omega
      exact .ok rfl rfl relaidLeft shorter shorter'

end Indifferent

/-! ## Tokens and words -/

section

variable {limit limit' : Nat}

theorem indifferent_gap : Indifferent 0 limit limit' gap gap := by
  intro input input' relaid short short'
  rcases relaid.gap_cases with ⟨stop, fails, fails'⟩ | ⟨chars, chars', shown, shown', ready⟩
  · exact .fail fails fails'
  · exact .ok shown.gap_eq shown'.gap_eq ready.relaid (afterGap_suffix shown).length_le
      (afterGap_suffix shown').length_le

/-- A function that finds a text and nothing more. -/
theorem FoundAlike.left {found found' : Option (List Char)}
    (alike : FoundAlike chars chars' (found.map ((), ·)) (found'.map ((), ·))) :
    (found = none ∧ found' = none) ∨
      ∃ left left', found = some left ∧ found' = some left' ∧ Relaid left left' ∧
        left.length < chars.length ∧ left'.length < chars'.length := by
  rcases alike with ⟨isNone, isNone'⟩ | ⟨isSome, isSome', relaid, shorter, shorter'⟩
  · exact .inl ⟨Option.map_eq_none_iff.mp isNone, Option.map_eq_none_iff.mp isNone'⟩
  · rcases Option.map_eq_some_iff.mp isSome with ⟨left, isLeft, same⟩
    rcases Option.map_eq_some_iff.mp isSome' with ⟨left', isLeft', same'⟩
    cases same
    cases same'
    exact .inr ⟨_, _, isLeft, isLeft', relaid, shorter, shorter'⟩

section

variable {text : String} {mark : Char} (isMark : text.toList = [mark])
  (solid : Text.isTokenBlank mark = false)
include isMark solid

theorem indifferent_atToken : Indifferent 0 limit limit' (atToken text) (atToken text) := by
  refine .behindGap fun chars chars' ready _ _ => ?_
  have same : text.toList.isPrefixOf chars = text.toList.isPrefixOf chars' := by
    rw [← List.isSome_isPrefixOf?_eq_isPrefixOf, ← List.isSome_isPrefixOf?_eq_isPrefixOf]
    rcases ((stops_mark isMark solid).foundAlike ready).left with
      ⟨isNone, isNone'⟩ | ⟨left, left', isSome, isSome', _⟩
    · rw [isNone, isNone']
    · rw [isSome, isSome']
      rfl
  rw [same]
  exact .ok rfl rfl ready.relaid (Nat.le_refl _) (Nat.le_refl _)

theorem indifferent_token : Indifferent 1 limit limit' (token text) (token text) := by
  refine .behindGap fun chars chars' ready _ _ => ?_
  rcases ((stops_mark isMark solid).foundAlike ready).left with
    ⟨isNone, isNone'⟩ | ⟨left, left', isSome, isSome', relaid, shorter, shorter'⟩
  · rw [isNone, isNone']
    exact .fail rfl rfl
  · rw [isSome, isSome']
    exact .ok rfl rfl relaid shorter shorter'

end

section

variable {name : String} (isName : isWord name = true)
include isName

theorem indifferent_atKeyword : Indifferent 0 limit limit' (atKeyword name) (atKeyword name) := by
  intro input input' relaid short short'
  have same : (behindKeyword? name input).isSome = (behindKeyword? name input').isSome := by
    cases relaid with
    | same => rfl
    | behind _ blank blank' _ =>
        rw [behindKeyword?_append_cons isName (isStop_of_isTokenBlank blank), Option.isSome_map,
          behindKeyword?_append_cons isName (isStop_of_isTokenBlank blank'), Option.isSome_map]
  rw [atKeyword_eq, atKeyword_eq, same]
  exact .ok rfl rfl relaid (Nat.le_refl _) (Nat.le_refl _)

theorem indifferent_keyword : Indifferent 1 limit limit' (keyword name) (keyword name) := by
  refine .behindGap fun chars chars' ready _ _ => ?_
  rcases ((stops_keyword isName).blank.foundAlike ready).left with
    ⟨isNone, isNone'⟩ | ⟨left, left', isSome, isSome', relaid, shorter, shorter'⟩
  · rw [isNone, isNone']
    exact .fail rfl rfl
  · rw [isSome, isSome']
    exact .ok rfl rfl relaid shorter shorter'

end

theorem indifferent_word : Indifferent 1 limit limit' word word := by
  rw [word_eq]
  refine .behindGap fun chars chars' ready _ _ => ?_
  rcases stops_word?.blank.foundAlike ready with
    ⟨isNone, isNone'⟩ | ⟨isSome, isSome', relaid, shorter, shorter'⟩
  · rw [isNone, isNone']
    exact .fail rfl rfl
  · rw [isSome, isSome']
    exact .ok rfl rfl relaid shorter shorter'

theorem indifferent_identifier : Indifferent 1 limit limit' identifier identifier :=
  .get fun _ _ => indifferent_word.bind fun _ => .ite (.failAt _ _) (.pure _)

theorem indifferent_typeName : Indifferent 1 limit limit' typeName typeName :=
  .get fun _ _ => indifferent_word.bind fun _ => .ite (.failAt _ _) (.pure _)

end

end Parse
end Whittle
