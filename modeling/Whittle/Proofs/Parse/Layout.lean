import Whittle.Proofs.Parse.Concatenation
import Whittle.Proofs.Parse.IndifferentStatements

namespace Whittle

/-!
# The layout of a shader

Behind the line of its directive a shader may be laid out in any way: whichever separator
stands between two tokens, the text is read as the same shader, identifiers included, or it is
not read at all.
-/

namespace Text

/-- Every solid character of a text is in one of its words. -/
theorem exists_mem_wordsFrom {c : Char} (solid : isWhiteSpace c = false) {text : List Char} :
    ∀ {current : List Char}, c ∈ current ∨ c ∈ text → ∃ word ∈ wordsFrom current text, c ∈ word := by
  induction text with
  | nil =>
      rintro current (isCurrent | isText)
      · have notEmpty : current.isEmpty = false := by
          rw [List.isEmpty_eq_false_iff]
          exact List.ne_nil_of_mem isCurrent
        rw [wordsFrom, notEmpty, if_neg Bool.false_ne_true]
        exact ⟨current.reverse, List.mem_singleton_self _, List.mem_reverse.mpr isCurrent⟩
      · cases isText
  | cons d rest inductionHypothesis =>
      intro current listed
      rw [wordsFrom]
      split
      · rename_i white
        have differ : c ≠ d := by
          rintro rfl
          rw [solid] at white
          cases white
        split
        · rename_i isEmpty
          rcases listed with isCurrent | isText
          · rw [List.isEmpty_iff.mp isEmpty] at isCurrent
            cases isCurrent
          · exact inductionHypothesis (.inr (List.mem_of_ne_of_mem differ isText))
        · rcases listed with isCurrent | isText
          · exact ⟨current.reverse, List.mem_cons_self, List.mem_reverse.mpr isCurrent⟩
          · rcases inductionHypothesis (.inr (List.mem_of_ne_of_mem differ isText)) with
              ⟨word, isWord, inWord⟩
            exact ⟨word, List.mem_cons_of_mem _ isWord, inWord⟩
      · refine inductionHypothesis ?_
        rcases listed with isCurrent | isText
        · exact .inl (List.mem_cons_of_mem d isCurrent)
        · rcases List.mem_cons.mp isText with rfl | behind
          · exact .inl List.mem_cons_self
          · exact .inr behind

theorem mem_intersperse {α : Type} {a b : α} {all : List α} (listed : a ∈ all) :
    a ∈ all.intersperse b := by
  induction all with
  | nil => cases listed
  | cons c all inductionHypothesis =>
      cases all with
      | nil => exact listed
      | cons d all =>
          rw [List.intersperse_cons_cons]
          rcases List.mem_cons.mp listed with rfl | behind
          · exact List.mem_cons_self
          · exact List.mem_cons_of_mem _ (List.mem_cons_of_mem _ (inductionHypothesis behind))

theorem mem_normalized {c : Char} (solid : isWhiteSpace c = false) {text : List Char}
    (listed : c ∈ text) : c ∈ normalized text := by
  rcases exists_mem_wordsFrom solid (.inr listed) with ⟨word, isWord, inWord⟩
  exact List.mem_flatten.mpr ⟨word, mem_intersperse isWord, inWord⟩

end Text

/-- No version has a slash in its text. -/
theorem Version.slash_not_mem_of_ofDirective? {text : List Char} {version : Version}
    (isVersion : ofDirective? text = some version) : '/' ∉ text := by
  intro listed
  have same := List.find?_some isVersion
  have inText := Text.mem_normalized (by decide) listed
  rw [← beq_iff_eq.mp same] at inText
  revert inText
  cases version <;> decide

namespace Parse

variable {input chars rest pre tail tail' : List Char} {b b' : Char}

/-- If a `#version` line stands at the beginning of the text, all of it does. -/
def BehindVersionLine (text : List Char) : Prop :=
  ∀ line, Shows text ("#version".toList ++ line) → '\n' ∈ line

/-- A run that stops in a text does not depend on what is behind the text. -/
theorem takeWhile_append_of_mem {holds : Char → Bool} {c : Char} (stops : holds c = false)
    (listed : c ∈ chars) (more : List Char) :
    (chars ++ more).takeWhile holds = chars.takeWhile holds ∧
      (chars ++ more).dropWhile holds = chars.dropWhile holds ++ more := by
  rcases List.append_of_mem listed with ⟨front, back, rfl⟩
  rw [List.append_assoc, List.cons_append, takeWhile_append_cons stops, takeWhile_append_cons stops,
    dropWhile_append_cons stops, dropWhile_append_cons stops, List.append_assoc, List.cons_append]
  exact ⟨rfl, rfl⟩

theorem Shows.versionDirective_eq_error {line : List Char}
    (shown : Shows input ("#version".toList ++ line))
    (unknown : Version.ofDirective? (line.takeWhile (· != '\n')) = none) :
    ∃ stop, versionDirective input = .error stop := by
  unfold versionDirective
  rw [Reader.bind_eq_of_ok shown.gap_eq, Reader.get_bind, isPrefixOf?_append_self]
  dsimp only
  rw [Reader.set_bind, unknown]
  exact ⟨_, rfl⟩

theorem versionDirective_suffix {version : Version}
    (isRead : versionDirective input = .ok (version, rest)) : rest <:+ input := by
  rcases versionDirective_eq_ok isRead with ⟨_, _, shown⟩ | ⟨line, shown, _, rfl⟩
  · exact afterGap_suffix shown
  · exact ((List.dropWhile_suffix _).trans (List.suffix_append _ _)).trans (afterGap_suffix shown)

theorem blank_not_mem_version (blank : Text.isTokenBlank b = true) : b ∉ "#version".toList := by
  have solid : "#version".toList.any Text.isTokenBlank = false := by decide
  exact fun listed => List.any_eq_false.mp solid b listed blank

/-- The version of a shader does not depend on the layout behind its directive. -/
theorem alike_versionDirective (ends : EndsOutside pre) (behind : BehindVersionLine pre)
    (blank : Text.isTokenBlank b = true) (blank' : Text.isTokenBlank b' = true)
    (like : Like (b :: tail) (b' :: tail')) :
    Alike 0 (pre ++ b :: tail) (pre ++ b' :: tail') (versionDirective (pre ++ b :: tail))
      (versionDirective (pre ++ b' :: tail')) := by
  rcases @afterGap_append_blank pre .open ends with isClosed | ⟨left, isAlone, endsLeft, shows⟩
  · -- Nothing but blanks and comments is in front, so the same shows.
    have like : Like (pre ++ b :: tail) (pre ++ b' :: tail') :=
      (isClosed b tail blank).trans (like.trans (isClosed b' tail' blank').symm)
    have same : versionDirective (pre ++ b :: tail) = versionDirective (pre ++ b' :: tail') :=
      Reader.bind_congr like.gap_eq
    cases isRead : versionDirective (pre ++ b' :: tail') with
    | error stop => exact .fail (same.trans isRead) rfl
    | ok read =>
        rcases read with ⟨version, rest⟩
        exact .ok (same.trans isRead) rfl (.same rest)
          (versionDirective_suffix (same.trans isRead)).length_le
          (versionDirective_suffix isRead).length_le
  · have shown : ∀ {b tail}, Text.isTokenBlank b = true → Shows (pre ++ b :: tail) (left ++ b :: tail) :=
      fun blank => shows _ _ blank
    have shorter : ∀ {b tail}, Text.isTokenBlank b = true →
        (left ++ b :: tail).length ≤ (pre ++ b :: tail).length :=
      fun blank => (afterGap_suffix (shown blank)).length_le
    cases isPrefix : "#version".toList.isPrefixOf? left with
    | none =>
        have plain : ∀ {b tail}, Text.isTokenBlank b = true → ¬HasDirective (pre ++ b :: tail) := by
          rintro b tail blank ⟨chars, shown', isDirective⟩
          rw [shown'.unique (shown blank), ← List.isPrefixOf_iff_prefix,
            ← List.isSome_isPrefixOf?_eq_isPrefixOf,
            isPrefixOf?_append_cons (blank_not_mem_version blank), isPrefix] at isDirective
          cases isDirective
        exact .ok (versionDirective_eq_implied (plain blank) (shown blank))
          (versionDirective_eq_implied (plain blank') (shown blank'))
          (.behind endsLeft blank blank' like) (shorter blank) (shorter blank')
    | some line =>
        obtain rfl := List.isPrefixOf?_eq_some_iff_append_eq.mp isPrefix
        have split := @takeWhile_append_of_mem line (· != '\n') '\n' rfl (behind line isAlone)
        have shown : ∀ {b tail}, Text.isTokenBlank b = true →
            Shows (pre ++ b :: tail) ("#version".toList ++ (line ++ b :: tail)) := by
          intro b tail blank
          rw [← List.append_assoc]
          exact shown blank
        cases isVersion : Version.ofDirective? (line.takeWhile (· != '\n')) with
        | none =>
            have fails : ∀ {b tail}, Text.isTokenBlank b = true →
                ∃ stop, versionDirective (pre ++ b :: tail) = .error stop := fun blank =>
              (shown blank).versionDirective_eq_error (by rw [(split _).1, isVersion])
            rcases fails blank with ⟨stop, isError⟩
            rcases fails blank' with ⟨stop', isError'⟩
            exact .fail isError isError'
        | some version =>
            have reads : ∀ {b tail}, Text.isTokenBlank b = true → versionDirective (pre ++ b :: tail) =
                .ok (version, line.dropWhile (· != '\n') ++ b :: tail) := by
              intro b tail blank
              rw [(shown blank).versionDirective_eq (by rw [(split _).1, isVersion]), (split _).2]
            -- The directive has no slash, so the rest of the text leaves off where the text does.
            have endsRest : EndsOutside (line.dropWhile (· != '\n')) := by
              have noSlash : '/' ∉ "#version".toList ++ line.takeWhile (· != '\n') :=
                List.not_mem_append (by decide) (Version.slash_not_mem_of_ofDirective? isVersion)
              rw [EndsOutside, ← placeBehind_append noSlash, List.append_assoc,
                List.takeWhile_append_dropWhile]
              exact endsLeft
            exact .ok (reads blank) (reads blank') (.behind endsRest blank blank' like)
              (versionDirective_suffix (reads blank)).length_le
              (versionDirective_suffix (reads blank')).length_le

/-- A shader is read alike, whatever its layout is behind its directive. -/
theorem alike_shader (ends : EndsOutside pre) (behind : BehindVersionLine pre)
    (blank : Text.isTokenBlank b = true) (blank' : Text.isTokenBlank b' = true)
    (like : Like (b :: tail) (b' :: tail')) {fuel fuel' : Nat}
    (enough : (pre ++ b :: tail).length < fuel) (enough' : (pre ++ b' :: tail').length < fuel') :
    Alike 0 (pre ++ b :: tail) (pre ++ b' :: tail') (shader fuel (pre ++ b :: tail))
      (shader fuel' (pre ++ b' :: tail')) := by
  unfold shader
  rcases alike_versionDirective ends behind blank blank' like with
    ⟨fails, fails'⟩ | @⟨version, rest, rest', isRead, isRead', relaid, within, within'⟩
  · exact .fail (Reader.bind_eq_of_error fails) (Reader.bind_eq_of_error fails')
  · rw [Reader.bind_eq_of_ok isRead, Reader.bind_eq_of_ok isRead']
    have ofDecls : Indifferent 0 fuel fuel' (Reader.manyUntil atEnd (declaration fuel) fuel)
        (Reader.manyUntil atEnd (declaration fuel') fuel') :=
      .manyUntil indifferent_atEnd (indifferent_declaration (Nat.le_refl _) (Nat.le_refl _))
        (Nat.le_refl _) (Nat.le_refl _)
    exact ((ofDecls.map (Shader.ofDecls version)) relaid (by omega) (by omega)).within within within'

end Parse

/-- Outside of comments and behind the `#version` line, one separator is as good as another one: with
either of them a text is read as the same shader, or it is no shader with any of them. -/
theorem Shader.parse_separator {pre sep sep' post : String} (ends : Parse.EndsOutside pre.toList)
    (behind : Parse.BehindVersionLine pre.toList) (isSeparator : Parse.IsSeparator sep.toList)
    (isSeparator' : Parse.IsSeparator sep'.toList) (shader : Shader) :
    Shader.parse (pre ++ sep ++ post) = .ok shader ↔
      Shader.parse (pre ++ sep' ++ post) = .ok shader := by
  rw [Shader.parse_eq_ok_iff, Shader.parse_eq_ok_iff]
  rcases isSeparator.exists_blanks isSeparator' post.toList with
    ⟨b, tail, b', tail', isCons, isCons', blank, blank', like⟩
  have split : (pre ++ sep ++ post).toList = pre.toList ++ b :: tail := by
    rw [String.toList_append, String.toList_append, List.append_assoc, isCons]
  have split' : (pre ++ sep' ++ post).toList = pre.toList ++ b' :: tail' := by
    rw [String.toList_append, String.toList_append, List.append_assoc, isCons']
  rw [split, split']
  rcases Parse.alike_shader ends behind blank blank' like (Nat.lt_succ_self _) (Nat.lt_succ_self _) with
    ⟨fails, fails'⟩ | ⟨isRead, isRead', _, _, _⟩
  · rw [fails, fails']
    simp
  · rw [isRead, isRead']
    simp

/-- The value of a return may stand behind a comment, on a line of its own. -/
theorem Shader.parse_separator_return :
    Parse.EndsOutside "#version 300 es\nint f() \x7b return".toList ∧
      Parse.BehindVersionLine "#version 300 es\nint f() \x7b return".toList ∧
      Parse.IsSeparator " ".toList ∧ Parse.IsSeparator "\n/* one */ // or so\n\t".toList ∧
      ∃ shader, Shader.parse ("#version 300 es\nint f() \x7b return" ++ " " ++ "1; \x7d") = .ok shader ∧
        Shader.parse ("#version 300 es\nint f() \x7b return" ++ "\n/* one */ // or so\n\t" ++
          "1; \x7d") = .ok shader := by
  have ends : Parse.EndsOutside "#version 300 es\nint f() \x7b return".toList := by
    decide
  have behind : Parse.BehindVersionLine "#version 300 es\nint f() \x7b return".toList := by
    intro line shown
    have isLine : "#version".toList ++ line =
        "#version".toList ++ " 300 es\nint f() \x7b return".toList :=
      shown.unique (Parse.shows_cons (c := '#') rfl (by decide))
    rw [List.append_cancel_left isLine]
    decide
  have isSpace : Parse.IsSeparator " ".toList :=
    ⟨.blank rfl .nil, rfl, rfl⟩
  have isMixed : Parse.IsSeparator "\n/* one */ // or so\n\t".toList := by
    refine ⟨.blank rfl ?_, rfl, rfl⟩
    refine @Parse.IsGap.block " one ".toList _ (by decide) (.blank rfl ?_)
    exact @Parse.IsGap.line " or so".toList _ (by decide) (.blank rfl .nil)
  rcases @exists_parse_of_any ("#version 300 es\nint f() \x7b return" ++ " " ++ "1; \x7d")
    (fun _ => true) (by decide +kernel) with ⟨shader, isRead, -⟩
  exact ⟨ends, behind, isSpace, isMixed, _, isRead,
    (Shader.parse_separator ends behind isSpace isMixed _).mp isRead⟩

end Whittle
