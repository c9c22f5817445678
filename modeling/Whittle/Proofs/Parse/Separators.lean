import Whittle.Proofs.Parse.Extension

namespace Whittle
namespace Parse

/-!
# Separators

A blank separates two tokens, and so do a blank, whatever blanks and comments follow it, and
another blank.  Outside of comments it does not matter which of them is written: either the
separator belongs to a gap, and the same shows behind it, or the text in front of it begins
with a token, and no token goes beyond the blank that a separator begins with.
-/

variable {input input' chars chars' rest pre post : List Char}

/-- Where a text leaves off: outside of comments, in a comment that ends with its line, or in
one that ends with a mark. -/
inductive Place where
  | outside
  | inLine
  | inBlock
deriving DecidableEq

/-- The place where a text leaves off that begins at the given one. -/
def placeBehind : Place → List Char → Place
  | .outside, '/' :: '/' :: rest => placeBehind .inLine rest
  | .outside, '/' :: '*' :: rest => placeBehind .inBlock rest
  | .outside, _ :: rest => placeBehind .outside rest
  | .inLine, '\n' :: rest => placeBehind .outside rest
  | .inLine, _ :: rest => placeBehind .inLine rest
  | .inBlock, '*' :: '/' :: rest => placeBehind .outside rest
  | .inBlock, _ :: rest => placeBehind .inBlock rest
  | place, [] => place

/-- The text leaves off outside of comments. -/
def EndsOutside (text : List Char) : Prop :=
  placeBehind .outside text = .outside

instance (text : List Char) : Decidable (EndsOutside text) :=
  inferInstanceAs (Decidable (_ = _))

/-- What begins no comment is outside of comments. -/
theorem placeBehind_cons {c : Char} (noLine : ∀ tail, c :: rest ≠ '/' :: '/' :: tail)
    (noBlock : ∀ tail, c :: rest ≠ '/' :: '*' :: tail) :
    placeBehind .outside (c :: rest) = placeBehind .outside rest := by
  rw [placeBehind]
  · rintro tail rfl rfl
    exact noLine tail rfl
  · rintro tail rfl rfl
    exact noBlock tail rfl

/-- Behind characters that are no slashes the rest of a text leaves off where the text does. -/
theorem placeBehind_append {front : List Char} (noSlash : '/' ∉ front) (rest : List Char) :
    placeBehind .outside (front ++ rest) = placeBehind .outside rest := by
  induction front with
  | nil => rfl
  | cons c front inductionHypothesis =>
      rw [List.mem_cons, not_or] at noSlash
      rw [List.cons_append, placeBehind_cons, inductionHypothesis noSlash.2]
      · exact fun tail same => noSlash.1 (List.cons.inj same).1.symm
      · exact fun tail same => noSlash.1 (List.cons.inj same).1.symm

def Gap.place : Gap → Place
  | .open => .outside
  | .line => .inLine
  | .block _ => .inBlock

/-- With a blank and more behind a text, what shows is what shows from the blank on, or else it
is what shows in the text alone, with the blank and more behind it. -/
def ClosesOrShows (alone : Except Stop (List Char))
    (behind : Char → List Char → Except Stop (List Char)) : Prop :=
  (∀ b tail, Text.isTokenBlank b = true → behind b tail = afterGap .open (b :: tail)) ∨
    ∃ left, alone = .ok left ∧ EndsOutside left ∧
      ∀ b tail, Text.isTokenBlank b = true → behind b tail = .ok (left ++ b :: tail)

theorem ClosesOrShows.congr {alone : Except Stop (List Char)}
    {behind behind' : Char → List Char → Except Stop (List Char)} (closes : ClosesOrShows alone behind)
    (same : ∀ b tail, Text.isTokenBlank b = true → behind' b tail = behind b tail) :
    ClosesOrShows alone behind' := by
  rcases closes with isClosed | ⟨left, isAlone, ends, shows⟩
  · exact .inl fun b tail blank => (same b tail blank).trans (isClosed b tail blank)
  · exact .inr ⟨left, isAlone, ends, fun b tail blank => (same b tail blank).trans (shows b tail blank)⟩

theorem ne_of_isTokenBlank {c d : Char} (blank : Text.isTokenBlank c = true)
    (noStop : isStop d = false) : c ≠ d :=
  ne_of_isStop (isStop_of_isTokenBlank blank) noStop

/-- Where a text leaves off outside of comments, its gaps are closed, or a token shows in it. -/
theorem afterGap_append_blank {where? : Gap} (ends : placeBehind where?.place pre = .outside) :
    ClosesOrShows (afterGap where? pre) fun b tail =>
      afterGap (where?.extend (b :: tail)) (pre ++ b :: tail) := by
  fun_induction afterGap where? pre with
  | case5 => exact .inl fun b tail _ => rfl
  | case8 => cases ends
  | case11 => cases ends
  | case1 rest inductionHypothesis | case2 rest inductionHypothesis
  | case6 rest inductionHypothesis | case9 _ rest inductionHypothesis =>
      exact inductionHypothesis ends
  | case3 c rest noLine noBlock blank inductionHypothesis =>
      have noSlash := ne_of_isTokenBlank blank (rfl : isStop '/' = false)
      rw [Gap.place, placeBehind_cons (fun _ same => noSlash (List.cons.inj same).1)
        fun _ same => noSlash (List.cons.inj same).1] at ends
      refine (inductionHypothesis ends).congr fun b tail _ => ?_
      rw [List.cons_append, Gap.extend, afterGap_open_cons noSlash, if_pos blank]
  | case4 c rest noLine noBlock notBlank =>
      refine .inr ⟨c :: rest, rfl, ends, fun b tail isBlank => ?_⟩
      show afterGap .open (c :: (rest ++ b :: tail)) = _
      rw [afterGap, if_neg notBlank]
      · rfl
      · rintro left rfl same
        cases rest with
        | nil => exact ne_of_isTokenBlank isBlank rfl (List.cons.inj same).1
        | cons d rest =>
            cases same
            exact noLine rest rfl rfl
      · rintro left rfl same
        cases rest with
        | nil => exact ne_of_isTokenBlank isBlank rfl (List.cons.inj same).1
        | cons d rest =>
            cases same
            exact noBlock rest rfl rfl
  | case7 c rest notNewline inductionHypothesis =>
      rw [Gap.place, placeBehind] at ends
      · refine (inductionHypothesis ends).congr fun b tail _ => ?_
        rw [List.cons_append, Gap.extend, afterGap]
        exact notNewline
      · exact notNewline
  | case10 opened c rest noEnd inductionHypothesis =>
      rw [Gap.place, placeBehind] at ends
      · refine (inductionHypothesis ends).congr fun b tail isBlank => ?_
        rw [List.cons_append, Gap.extend, afterGap]
        rintro left rfl same
        cases rest with
        | nil => exact ne_of_isTokenBlank isBlank rfl (List.cons.inj same).1
        | cons d rest =>
            cases same
            exact noEnd rest rfl rfl
      · exact noEnd

/-- Blanks and complete comments. -/
inductive IsGap : List Char → Prop
  | nil : IsGap []
  | blank {c : Char} {rest : List Char} (blank : Text.isTokenBlank c = true) (behind : IsGap rest) :
      IsGap (c :: rest)
  | line {text rest : List Char} (inLine : '\n' ∉ text) (behind : IsGap rest) :
      IsGap ('/' :: '/' :: text ++ '\n' :: rest)
  | block {text rest : List Char} (inBlock : ¬ ['*', '/'] <:+: text) (behind : IsGap rest) :
      IsGap ('/' :: '*' :: text ++ '*' :: '/' :: rest)

/-- A blank, or blanks and complete comments between two blanks. -/
structure IsSeparator (sep : List Char) : Prop where
  isGap : IsGap sep
  begins : sep.head?.any Text.isTokenBlank = true
  ends : sep.getLast?.any Text.isTokenBlank = true

/-- A comment goes up to the end of its line. -/
theorem afterGap_line_append {text : List Char} (inLine : '\n' ∉ text) (rest : List Char) :
    afterGap .line (text ++ '\n' :: rest) = afterGap .open rest := by
  induction text with
  | nil => rfl
  | cons c text inductionHypothesis =>
      rw [List.mem_cons, not_or] at inLine
      rw [List.cons_append, afterGap]
      · exact inductionHypothesis inLine.2
      · exact fun same => inLine.1 same.symm

/-- A comment goes up to the first mark that closes it. -/
theorem afterGap_block_append {text : List Char} (inBlock : ¬ ['*', '/'] <:+: text)
    (opened rest : List Char) :
    afterGap (.block opened) (text ++ '*' :: '/' :: rest) = afterGap .open rest := by
  induction text with
  | nil => rfl
  | cons c text inductionHypothesis =>
      have behind : ¬ ['*', '/'] <:+: text := fun isInfix =>
        inBlock (isInfix.trans (List.suffix_cons c text).isInfix)
      rw [List.cons_append, afterGap]
      · exact inductionHypothesis behind
      · rintro tail rfl same
        cases text with
        | nil => cases same
        | cons d text =>
            cases same
            exact inBlock (List.prefix_append ['*', '/'] text).isInfix

/-- What shows behind a gap shows without it. -/
theorem IsGap.like {sep : List Char} (isGap : IsGap sep) (post : List Char) :
    Like (sep ++ post) post := by
  induction isGap with
  | nil => rfl
  | blank blank _ inductionHypothesis =>
      unfold Like
      rw [List.cons_append, afterGap_open_cons (ne_of_isTokenBlank blank rfl), if_pos blank]
      exact inductionHypothesis
  | @line text rest inLine _ inductionHypothesis =>
      have isLine : Like ('/' :: '/' :: text ++ '\n' :: rest ++ post) (rest ++ post) := by
        rw [List.append_assoc]
        exact afterGap_line_append inLine (rest ++ post)
      exact isLine.trans inductionHypothesis
  | @block text rest inBlock _ inductionHypothesis =>
      have isBlock : Like ('/' :: '*' :: text ++ '*' :: '/' :: rest ++ post) (rest ++ post) := by
        rw [List.append_assoc]
        exact afterGap_block_append inBlock _ (rest ++ post)
      exact isBlock.trans inductionHypothesis

theorem IsSeparator.exists_cons {sep : List Char} (isSeparator : IsSeparator sep) :
    ∃ b tail, sep = b :: tail ∧ Text.isTokenBlank b = true := by
  cases sep with
  | nil => cases isSeparator.begins
  | cons b tail => exact ⟨b, tail, rfl, isSeparator.begins⟩

/-- The texts are the same up to a blank outside of comments, and from there on they show the
same, or they are the same altogether. -/
inductive Relaid : List Char → List Char → Prop
  | same (input : List Char) : Relaid input input
  | behind {pre tail tail' : List Char} {b b' : Char} (ends : EndsOutside pre)
      (blank : Text.isTokenBlank b = true) (blank' : Text.isTokenBlank b' = true)
      (like : Like (b :: tail) (b' :: tail')) : Relaid (pre ++ b :: tail) (pre ++ b' :: tail')

/-- From a blank on, one separator is as good as another one. -/
theorem IsSeparator.exists_blanks {sep sep' : List Char} (isSeparator : IsSeparator sep)
    (isSeparator' : IsSeparator sep') (post : List Char) :
    ∃ b tail b' tail', sep ++ post = b :: tail ∧ sep' ++ post = b' :: tail' ∧
      Text.isTokenBlank b = true ∧ Text.isTokenBlank b' = true ∧ Like (b :: tail) (b' :: tail') := by
  have like : Like (sep ++ post) (sep' ++ post) :=
    (isSeparator.isGap.like post).trans (isSeparator'.isGap.like post).symm
  rcases isSeparator.exists_cons with ⟨b, tail, rfl, blank⟩
  rcases isSeparator'.exists_cons with ⟨b', tail', rfl, blank'⟩
  exact ⟨b, _, b', _, rfl, rfl, blank, blank', like⟩

/-- Texts that differ in their layout at most, and begin with the same token. -/
structure Ready (chars chars' : List Char) : Prop where
  relaid : Relaid chars chars'
  shown : Shows chars chars
  shown' : Shows chars' chars'

/-- What a text shows, one that shows the same does. -/
theorem Like.ready (like : Like input input') (shown : Shows input chars) :
    Shows input' chars ∧ Ready chars chars :=
  ⟨like.symm.trans shown, .same chars, shown.self, shown.self⟩

/-- The gaps that texts of different layout begin with are alike, and what they show begins with the
same token. -/
theorem Relaid.gap_cases (relaid : Relaid input input') :
    (∃ stop, gap input = .error stop ∧ gap input' = .error stop) ∨
      ∃ chars chars', Shows input chars ∧ Shows input' chars' ∧ Ready chars chars' := by
  have ofLike : Like input input' → (∃ stop, gap input = .error stop ∧ gap input' = .error stop) ∨
      ∃ chars chars', Shows input chars ∧ Shows input' chars' ∧ Ready chars chars' := by
    intro like
    cases isGap : gap input with
    | error stop => exact .inl ⟨stop, rfl, like.gap_eq.symm.trans isGap⟩
    | ok read =>
        have shown := shows_of_gap_eq isGap
        exact .inr ⟨_, _, shown, (like.ready shown).1, (like.ready shown).2⟩
  cases relaid with
  | same => exact ofLike rfl
  | @behind pre tail tail' b b' ends blank blank' like =>
      rcases @afterGap_append_blank pre .open ends with isClosed | ⟨left, _, endsLeft, shows⟩
      · exact ofLike ((isClosed b tail blank).trans (like.trans (isClosed b' tail' blank').symm))
      · have shown : Shows (pre ++ b :: tail) (left ++ b :: tail) := shows b tail blank
        have shown' : Shows (pre ++ b' :: tail') (left ++ b' :: tail') := shows b' tail' blank'
        exact .inr ⟨_, _, shown, shown', .behind endsLeft blank blank' like, shown.self, shown'.self⟩

/-- What shows begins no comment. -/
theorem Shows.ne_comment (shown : Shows chars chars) (tail : List Char) :
    chars ≠ '/' :: '/' :: tail ∧ chars ≠ '/' :: '*' :: tail := by
  constructor
  · rintro rfl
    have isBehind : afterGap .line tail = .ok ('/' :: '/' :: tail) := shown
    have shorter := (afterGap_suffix isBehind).length_le
    simp only [List.length_cons] at shorter
    omega
  · rintro rfl
    have isBehind : afterGap (.block tail) tail = .ok ('/' :: '*' :: tail) := shown
    have shorter := (afterGap_suffix isBehind).length_le
    simp only [List.length_cons] at shorter
    omega

/-- Behind a token the text leaves off where it does with the token. -/
theorem Shows.endsOutside {c : Char} {front left : List Char} {b : Char} {tail : List Char}
    (shown : Shows (c :: front ++ left ++ b :: tail) (c :: front ++ left ++ b :: tail))
    (ends : EndsOutside (c :: front ++ left)) (noSlash : '/' ∉ front) : EndsOutside left := by
  rw [EndsOutside, List.cons_append, placeBehind_cons, placeBehind_append noSlash] at ends
  · exact ends
  · rintro text same
    refine (shown.ne_comment (text ++ b :: tail)).1 ?_
    rw [List.cons_append, same]
    rfl
  · rintro text same
    refine (shown.ne_comment (text ++ b :: tail)).2 ?_
    rw [List.cons_append, same]
    rfl

/-- Texts that begin with the same token begin with the same character, and behind it they differ in
their layout at most. -/
theorem Ready.exists_cons (ready : Ready chars chars') :
    (chars = [] ∧ chars' = []) ∨
      ∃ c tail tail', chars = c :: tail ∧ chars' = c :: tail' ∧ (c ≠ '/' → Relaid tail tail') := by
  rcases ready with ⟨relaid, shown, _⟩
  cases relaid with
  | same =>
      cases chars with
      | nil => exact .inl ⟨rfl, rfl⟩
      | cons c tail => exact .inr ⟨c, tail, tail, rfl, rfl, fun _ => .same tail⟩
  | @behind pre tail tail' b b' ends blank blank' like =>
      cases pre with
      | nil =>
          -- No blank shows.
          have shorter := (afterGap_suffix ((shows_blank_iff blank).mp shown)).length_le
          rw [List.nil_append, List.length_cons] at shorter
          omega
      | cons c pre =>
          refine .inr ⟨c, _, _, rfl, rfl, fun notSlash => .behind ?_ blank blank' like⟩
          have noSlash : '/' ∉ [c] := by
            rw [List.mem_singleton]
            exact Ne.symm notSlash
          exact (placeBehind_append noSlash pre).symm.trans ends

end Parse
end Whittle
