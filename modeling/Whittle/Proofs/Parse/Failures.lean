import Whittle.Proofs.Parse.Layout

namespace Whittle

/-!
# Where a text fails

The declarations of a text are read one after the other, up to the first one that cannot be
read.  What is behind a declaration does not matter for it, so the text may be cut right behind
the last one that can be read: what is left in front is a shader with just these
declarations.  A failure is reported at a place behind the cut, since no reader goes back in
front of what it starts with.
-/

namespace Text

theorem utf8Size_reverse (chars : List Char) : utf8Size chars.reverse = utf8Size chars := by
  induction chars with
  | nil => rfl
  | cons c rest inductionHypothesis =>
      rw [List.reverse_cons, utf8Size_append, inductionHypothesis, utf8Size, utf8Size, utf8Size,
        Nat.add_zero, Nat.add_comm]

theorem utf8ByteSize_ofList (chars : List Char) :
    (String.ofList chars).utf8ByteSize = utf8Size chars := by
  induction chars with
  | nil => rfl
  | cons c rest inductionHypothesis =>
      rw [String.ofList_cons, String.utf8ByteSize_append, String.utf8ByteSize_singleton,
        inductionHypothesis, utf8Size]

/-- The last line of a text, and what is in front of it. -/
theorem exists_lastLine (chars : List Char) :
    ∃ lines last, chars = lines ++ last ∧ '\n' ∉ last ∧ (lines = [] ∨ lines.getLast? = some '\n') ∧
      utf8Size (chars.reverse.takeWhile (· != '\n')) = utf8Size last := by
  have split := List.takeWhile_append_dropWhile (p := (· != '\n')) (l := chars.reverse)
  refine ⟨(chars.reverse.dropWhile (· != '\n')).reverse,
    (chars.reverse.takeWhile (· != '\n')).reverse, ?_, ?_, ?_, (utf8Size_reverse _).symm⟩
  · rw [← List.reverse_append, split, List.reverse_reverse]
  · intro listed
    have goesOn := List.mem_takeWhile_imp (List.mem_reverse.mp listed)
    exact bne_iff_ne.mp goesOn rfl
  · have stops := List.head?_dropWhile_not (· != '\n') chars.reverse
    rw [List.getLast?_reverse]
    cases behind : chars.reverse.dropWhile (· != '\n') with
    | nil => exact .inl rfl
    | cons c tail =>
        rw [behind] at stops
        refine .inr (congrArg some ?_)
        simpa using stops

/-- The position is where a character of the text begins, or the end of the text.  The line
counts the line feeds in front of it, and the column counts the bytes behind the last one. -/
structure Position.PointsInto (position : Position) (text : String) : Prop where
  inside : position.offset ≤ text.utf8ByteSize
  boundary : (String.Pos.Raw.mk position.offset).IsValid text
  counted : ∃ lines last behind, text.toList = lines ++ last ++ behind ∧
    '\n' ∉ last ∧ (lines = [] ∨ lines.getLast? = some '\n') ∧
    position.offset = utf8Size (lines ++ last) ∧ position.line = lines.count '\n' + 1 ∧
    position.column = utf8Size last + 1

theorem Position.before_append (front rest : List Char) :
    Position.before (front ++ rest) rest = .behind front := by
  rw [Position.before, List.length_append, Nat.add_sub_cancel, List.take_left]

theorem Position.pointsInto_behind {text : String} {front rest : List Char}
    (split : text.toList = front ++ rest) : (Position.behind front).PointsInto text := by
  have isText : text = String.ofList front ++ String.ofList rest := by
    rw [← String.ofList_append, ← split, String.ofList_toList]
  have offset : (Position.behind front).offset = (String.ofList front).utf8ByteSize :=
    (utf8ByteSize_ofList front).symm
  rcases exists_lastLine front with ⟨lines, last, rfl, noNewline, ends, column⟩
  refine ⟨?_, ?_, lines, last, rest, split, noNewline, ends, rfl, ?_, congrArg (· + 1) column⟩
  · rw [offset, isText, String.utf8ByteSize_append]
    exact Nat.le_add_right _ _
  · refine String.Pos.Raw.isValid_iff_exists_append.mpr ⟨_, _, isText, ?_⟩
    rw [offset]
    rfl
  · show (lines ++ last).count '\n' + 1 = _
    rw [List.count_append, List.count_eq_zero.mpr noNewline, Nat.add_zero]

end Text

namespace Parse

variable {input rest text start : List Char} {fuel fuel' : Nat} {decl : Decl} {decls : List Decl}
  {stop : Stop}

/-- Read the next declaration, unless the text ends here. -/
def nextDecl (fuel : Nat) : Reader (Option Decl) := do
  if ← atEnd then return none
  else
    let decl ← declaration fuel
    return some decl

theorem nextDecl_eq_some_iff :
    nextDecl fuel input = .ok (some decl, rest) ↔
      ∃ between, atEnd input = .ok (false, between) ∧ declaration fuel between = .ok (decl, rest) := by
  constructor
  · intro isNext
    rcases Reader.bind_eq_ok_iff.mp isNext with ⟨_ | _, between, goesOn, isNext⟩
    · rcases Reader.bind_eq_ok_iff.mp isNext with ⟨_, left, isDecl, isNext⟩
      rcases Reader.pure_eq_ok_iff.mp isNext with ⟨isSome, rfl⟩
      cases isSome
      exact ⟨between, goesOn, isDecl⟩
    · cases isNext
  · rintro ⟨between, goesOn, isDecl⟩
    refine Reader.bind_eq_ok_iff.mpr ⟨false, between, goesOn, ?_⟩
    exact Reader.bind_eq_ok_iff.mpr ⟨decl, rest, isDecl, rfl⟩

theorem nextDecl_eq_error_iff :
    nextDecl fuel input = .error stop ↔
      atEnd input = .error stop ∨
        ∃ between, atEnd input = .ok (false, between) ∧ declaration fuel between = .error stop := by
  constructor
  · intro fails
    rcases Reader.bind_eq_error_iff.mp fails with fails | ⟨_ | _, between, isEnd, fails⟩
    · exact .inl fails
    · rcases Reader.bind_eq_error_iff.mp fails with fails | ⟨_, _, _, fails⟩
      · exact .inr ⟨between, isEnd, fails⟩
      · cases fails
    · cases fails
  · rintro (fails | ⟨between, goesOn, fails⟩)
    · exact Reader.bind_eq_of_error fails
    · exact Reader.bind_eq_error_iff.mpr (.inr ⟨false, between, goesOn, Reader.bind_eq_of_error fails⟩)

theorem atEnd_stop (fails : atEnd input = .error stop) : stop.rest <:+ input := by
  rcases stop_of_gap_bind fails with isSuffix | ⟨chars, shown, fails⟩
  · exact isSuffix
  · rw [Reader.get_bind] at fails
    split at fails
    · cases fails
    · cases fails
      exact afterGap_suffix shown
    · cases fails

/-- A failure is reported in the declaration that cannot be read, or in the gap in front
of it. -/
theorem nextDecl_stop (fails : nextDecl fuel input = .error stop) : stop.rest <:+ input := by
  rcases nextDecl_eq_error_iff.mp fails with fails | ⟨between, goesOn, fails⟩
  · exact atEnd_stop fails
  · have ofDecl : Extends between (fun _ => True) (declaration fuel) (declaration fuel) :=
      extends_declaration (Nat.le_refl fuel) _
    have isSuffix : stop.rest <:+ between :=
      (ofDecl.stops fails).elim (fun isSuffix => isSuffix) fun same => same ▸ List.suffix_refl _
    exact isSuffix.trans (afterGap_suffix (atEnd_eq_ok goesOn).1)

/-- A declaration is read off the text that is cut right behind it, and with any other text
behind it. -/
theorem nextDecl_cut (isNext : nextDecl fuel input = .ok (some decl, rest)) :
    ∃ front, input = front ++ rest ∧ front ≠ [] ∧
      ∀ more, nextDecl fuel (front ++ more) = .ok (some decl, more) := by
  rcases nextDecl_eq_some_iff.mp isNext with ⟨between, goesOn, isDecl⟩
  rcases atEnd_eq_ok goesOn with ⟨shown, noHash, _⟩
  have ofDecl : Extends [] (fun _ => True) (declaration fuel) (declaration fuel) :=
    extends_declaration (Nat.le_refl fuel) _
  rcases ofDecl.keeps isDecl with ⟨read, rfl⟩
  rcases afterGap_suffix shown with ⟨blanks, rfl⟩
  rw [← List.append_assoc] at shown
  -- Nothing is left behind the declaration of the text that is cut there.
  have isCut := @ofDecl.reads read [] rest decl isDecl trivial
  have hasEnding := isCut.1.hasEnding
  have notNil := hasEnding.ne_nil
  have shown := shown.of_append notNil
  refine ⟨blanks ++ read, (List.append_assoc _ _ _).symm, List.append_ne_nil_of_right_ne_nil _ notNil,
    fun more => nextDecl_eq_some_iff.mpr ⟨read ++ more, ?_, isCut.2 more⟩⟩
  have shownMore : Shows (blanks ++ read ++ more) (read ++ more) := shown.append hasEnding
  rw [List.head?_append_of_ne_nil _ notNil] at noHash
  rw [shownMore.atEnd_eq (by rwa [List.head?_append_of_ne_nil _ notNil]),
    List.isEmpty_eq_false_iff.mpr (List.append_ne_nil_of_left_ne_nil notNil more)]

/-- The text goes on with the declarations, and `rest` is what is left right behind the last one
of them. -/
inductive Declares (fuel : Nat) : List Char → List Decl → List Char → Prop
  | none (input : List Char) : Declares fuel input [] input
  | next {input left rest : List Char} {decl : Decl} {decls : List Decl}
      (isNext : nextDecl fuel input = .ok (some decl, left)) (others : Declares fuel left decls rest) :
      Declares fuel input (decl :: decls) rest

namespace Declares

/-- What is behind the declarations may be cut off or replaced. -/
theorem cut (declares : Declares fuel input decls rest) :
    ∃ front, input = front ++ rest ∧ ∀ more, Declares fuel (front ++ more) decls more := by
  induction declares with
  | none input => exact ⟨[], rfl, .none⟩
  | next isNext _ inductionHypothesis =>
      rcases inductionHypothesis with ⟨others, rfl, areOthers⟩
      rcases nextDecl_cut isNext with ⟨first, rfl, _, isFirst⟩
      refine ⟨first ++ others, (List.append_assoc _ _ _).symm, fun more => ?_⟩
      rw [List.append_assoc]
      exact .next (isFirst _) (areOthers more)

/-- Every declaration takes a character. -/
theorem length_le (declares : Declares fuel input decls rest) :
    decls.length + rest.length ≤ input.length := by
  induction declares with
  | none input => exact Nat.le_of_eq (Nat.zero_add _)
  | next isNext _ inductionHypothesis =>
      rcases nextDecl_cut isNext with ⟨first, rfl, notNil, _⟩
      have notEmpty := List.length_pos_iff.mpr notNil
      rw [List.length_cons, List.length_append]
      omega

/-- A text that begins with a declaration has no directive, and nor has the empty one. -/
theorem not_hasDirective (declares : Declares fuel input decls []) : ¬HasDirective input := by
  cases declares with
  | none => exact Parse.not_hasDirective rfl nofun
  | next isNext _ =>
      rcases nextDecl_eq_some_iff.mp isNext with ⟨between, goesOn, _⟩
      rcases atEnd_eq_ok goesOn with ⟨shown, noHash, _⟩
      exact Parse.not_hasDirective shown noHash

/-- Behind the declarations the text ends. -/
theorem manyUntil_eq (declares : Declares fuel input decls []) {count : Nat}
    (counted : decls.length < count) :
    Reader.manyUntil atEnd (declaration fuel) count input = .ok (decls, []) := by
  induction decls generalizing input count with
  | nil =>
      cases declares
      cases count with
      | zero => exact absurd counted (Nat.not_lt_zero _)
      | succ count => rfl
  | cons decl decls inductionHypothesis =>
      rcases declares with _ | ⟨isNext, others⟩
      cases count with
      | zero => exact absurd counted (Nat.not_lt_zero _)
      | succ count =>
          rcases nextDecl_eq_some_iff.mp isNext with ⟨between, goesOn, isDecl⟩
          exact Reader.manyUntil_eq_cons goesOn isDecl
            (inductionHypothesis others (Nat.lt_of_succ_lt_succ counted))

end Declares

/-- Where the text cannot be read up to its end, it can be read up to a declaration that
cannot. -/
theorem exists_declares_of_manyUntil {count : Nat}
    (fails : Reader.manyUntil atEnd (declaration fuel) count input = .error stop)
    (short : input.length < count) :
    ∃ decls rest, Declares fuel input decls rest ∧ nextDecl fuel rest = .error stop := by
  induction count generalizing input with
  | zero => exact absurd short (Nat.not_lt_zero _)
  | succ count inductionHypothesis =>
      unfold Reader.manyUntil at fails
      rcases Reader.bind_eq_error_iff.mp fails with failsHere | ⟨_ | _, between, goesOn, failsBehind⟩
      · exact ⟨[], input, .none input, nextDecl_eq_error_iff.mpr (.inl failsHere)⟩
      · rcases Reader.bind_eq_error_iff.mp failsBehind with failsHere | ⟨decl, left, isDecl, failsBehind⟩
        · exact ⟨[], input, .none input, nextDecl_eq_error_iff.mpr (.inr ⟨between, goesOn, failsHere⟩)⟩
        · have isNext := nextDecl_eq_some_iff.mpr ⟨between, goesOn, isDecl⟩
          rcases nextDecl_cut isNext with ⟨first, rfl, notNil, _⟩
          have notEmpty := List.length_pos_iff.mpr notNil
          rw [List.length_append] at short
          rcases Reader.bind_eq_error_iff.mp failsBehind with failsBehind | ⟨_, _, _, isPure⟩
          · rcases inductionHypothesis failsBehind (by omega) with ⟨decls, rest, declares, failsThere⟩
            exact ⟨decl :: decls, rest, .next isNext declares, failsThere⟩
          · cases isPure
      · cases failsBehind

/-- The gap in front of the declarations may be skipped first. -/
theorem Like.manyUntil_eq (like : Like input text) {count : Nat} (counted : 0 < count) :
    Reader.manyUntil atEnd (declaration fuel) count input =
      Reader.manyUntil atEnd (declaration fuel) count text := by
  cases count with
  | zero => exact absurd counted (Nat.lt_irrefl 0)
  | succ count => exact Reader.bind_congr like.atEnd_eq

/-! ## Whole texts -/

/-- Where the declarations of a text begin: behind its directive, or where the text does if it
has none. -/
inductive Starts (text : List Char) : Version → List Char → Prop
  | implied (plain : ¬HasDirective text) : Starts text .implied text
  | directive {line : List Char} {version : Version} (shown : Shows text ("#version".toList ++ line))
      (isVersion : Version.ofDirective? (line.takeWhile (· != '\n')) = some version) :
      Starts text version (line.dropWhile (· != '\n'))

/-- A text that is cut in its declarations begins with the same directive. -/
theorem Starts.cut {version : Version} {front : List Char} (starts : Starts text version (front ++ rest))
    (plain : ¬HasDirective front) :
    ∃ whole, text = whole ++ rest ∧ Starts whole version front := by
  generalize isStart : front ++ rest = start at starts
  cases starts with
  | implied => exact ⟨front, isStart.symm, .implied plain⟩
  | @directive line version shown isVersion =>
      rcases afterGap_suffix shown with ⟨blanks, rfl⟩
      have isLine := List.takeWhile_append_dropWhile (p := (· != '\n')) (l := line)
      have inLine := fun c => List.mem_takeWhile_imp (p := (· != '\n')) (l := line) (x := c)
      have endsLine := List.head?_dropWhile_not (· != '\n') line
      generalize line.takeWhile (· != '\n') = given at *
      rw [← isStart] at isLine endsLine
      subst isLine
      have isSplit : (given ++ front).takeWhile (· != '\n') = given ∧
          (given ++ front).dropWhile (· != '\n') = front := by
        rw [List.takeWhile_append_of_pos inLine, List.dropWhile_append_of_pos inLine]
        cases front with
        | nil => exact ⟨List.append_nil _, rfl⟩
        | cons c tail =>
            have isNewline : ¬(c != '\n') = true := Bool.eq_false_iff.mp endsLine
            exact ⟨by simp [isNewline], List.dropWhile_cons_of_neg isNewline⟩
      have shown : Shows (blanks ++ ("#version".toList ++ (given ++ front)) ++ rest)
          ("#version".toList ++ (given ++ front) ++ rest) := by
        simpa only [List.append_assoc] using shown
      have starts := Starts.directive (shown.of_append nofun) (by rwa [isSplit.1])
      rw [isSplit.2] at starts
      exact ⟨_, by simp only [List.append_assoc], starts⟩

theorem Starts.length_le {version : Version} (starts : Starts text version start) :
    start.length ≤ text.length := by
  cases starts with
  | implied => exact Nat.le_refl _
  | @directive line _ shown _ =>
      have isSuffix : line.dropWhile (· != '\n') <:+ text :=
        ((List.dropWhile_suffix _).trans (List.suffix_append _ line)).trans (afterGap_suffix shown)
      exact isSuffix.length_le

/-- A text whose declarations go on up to its end is a shader with these declarations. -/
theorem Starts.shader_eq {version : Version} (starts : Starts text version start)
    (declares : Declares fuel start decls []) (counted : decls.length < fuel) :
    ∃ left, Parse.shader fuel text = .ok (Shader.ofDecls version decls, left) := by
  have areRead := declares.manyUntil_eq counted
  cases starts with
  | directive shown isVersion =>
      refine ⟨[], ?_⟩
      unfold Parse.shader
      rw [Reader.bind_eq_of_ok (shown.versionDirective_eq isVersion), Reader.bind_eq_of_ok areRead,
        Reader.pure_eq]
  | implied plain =>
      have exists_shows : ∃ chars, Shows text chars := by
        rcases beginsDecls_of_manyUntil areRead with shown | ⟨chars, shown, _⟩
        · exact ⟨[], shown⟩
        · exact ⟨chars, shown⟩
      rcases exists_shows with ⟨chars, shown⟩
      have like : Like chars text := shown.self.like shown
      refine ⟨[], ?_⟩
      unfold Parse.shader
      rw [Reader.bind_eq_of_ok (versionDirective_eq_implied plain shown),
        Reader.bind_eq_of_ok ((like.manyUntil_eq (Nat.zero_lt_of_lt counted)).trans areRead),
        Reader.pure_eq]

/-- Any count that exceeds the length of the text will do. -/
theorem shader_of_length {shader : Shader} {left : List Char} (short : text.length < fuel)
    (short' : text.length < fuel') (isRead : Parse.shader fuel text = .ok (shader, left)) :
    ∃ left', Parse.shader fuel' text = .ok (shader, left') := by
  rcases shader_eq_ok isRead with ⟨version, between, decls, isVersion, areDecls, rfl⟩
  have le := (versionDirective_suffix isVersion).length_le
  have ofDecls : Indifferent 0 fuel fuel' (Reader.manyUntil atEnd (declaration fuel) fuel)
      (Reader.manyUntil atEnd (declaration fuel') fuel') :=
    .manyUntil indifferent_atEnd (indifferent_declaration (Nat.le_refl _) (Nat.le_refl _))
      (Nat.le_refl _) (Nat.le_refl _)
  rcases ofDecls (.same between) (by omega) (by omega) with
    ⟨fails, _⟩ | @⟨decls', _, left', areDecls', isRead', _, _, _⟩
  · cases fails.symm.trans areDecls
  · cases areDecls'.symm.trans areDecls
    refine ⟨left', ?_⟩
    unfold Parse.shader
    rw [Reader.bind_eq_of_ok isVersion, Reader.bind_eq_of_ok isRead', Reader.pure_eq]

/-- There is no directive where blanks and comments do not end, and otherwise a directive fails
for its version alone. -/
theorem versionDirective_eq_error (fails : versionDirective text = .error stop) :
    gap text = .error stop ∨ ∃ given, stop.cause = .unknownVersion given := by
  rcases Reader.bind_eq_error_iff.mp fails with fails | ⟨_, chars, _, fails⟩
  · exact .inl fails
  · rw [Reader.get_bind] at fails
    cases isPrefix : "#version".toList.isPrefixOf? chars with
    | none =>
        rw [isPrefix] at fails
        cases fails
    | some line =>
        rw [isPrefix] at fails
        dsimp only at fails
        rw [Reader.set_bind] at fails
        cases isVersion : Version.ofDirective? (line.takeWhile (· != '\n')) with
        | some version =>
            rw [isVersion] at fails
            cases fails
        | none =>
            rw [isVersion] at fails
            cases fails
            exact .inr ⟨_, rfl⟩

/-- A text that cannot be read has a declaration that cannot be read, or it is of an unknown
version. -/
theorem exists_declares_of_shader (fails : Parse.shader fuel text = .error stop)
    (short : text.length < fuel) (isKnown : ∀ given, stop.cause ≠ .unknownVersion given) :
    ∃ version start decls rest, Starts text version start ∧ Declares fuel start decls rest ∧
      nextDecl fuel rest = .error stop := by
  rcases Reader.bind_eq_error_iff.mp fails with fails | ⟨version, between, isVersion, fails⟩
  · rcases versionDirective_eq_error fails with fails | ⟨given, isUnknown⟩
    · have plain : ¬HasDirective text := by
        rintro ⟨chars, shown, _⟩
        cases fails.symm.trans shown.gap_eq
      exact ⟨_, text, [], text, .implied plain, .none text,
        nextDecl_eq_error_iff.mpr (.inl (Reader.bind_eq_of_error fails))⟩
    · exact absurd isUnknown (isKnown given)
  · have failsBehind : Reader.manyUntil atEnd (declaration fuel) fuel between = .error stop := by
      rcases Reader.bind_eq_error_iff.mp fails with fails | ⟨_, _, _, fails⟩
      · exact fails
      · cases fails
    rcases versionDirective_eq_ok isVersion with ⟨plain, rfl, shown⟩ | ⟨line, shown, isKnown, rfl⟩
    · -- The gap in front of the declarations has been skipped.
      have like : Like text between := shown.like shown.self
      have failsBehind := (like.manyUntil_eq (Nat.zero_lt_of_lt short)).trans failsBehind
      rcases exists_declares_of_manyUntil failsBehind short with ⟨decls, rest, declares, failsThere⟩
      exact ⟨_, text, decls, rest, .implied plain, declares, failsThere⟩
    · have le := (versionDirective_suffix isVersion).length_le
      rcases exists_declares_of_manyUntil failsBehind (by omega) with ⟨decls, rest, declares, failsThere⟩
      exact ⟨_, _, decls, rest, .directive shown isKnown, declares, failsThere⟩

end Parse

/-- What is reported of a text that is not a shader, other than the version of its directive.
Behind the directive the text begins with declarations, and the next one cannot be read.  The text
that is cut right behind these declarations is a shader with them and no others.  The failure is
reported at a place behind the cut. -/
theorem Shader.exists_cut_of_parse_error {text : String} {failure : Parse.Failure}
    (fails : Shader.parse text = .error failure)
    (isKnown : ∀ given, failure.cause ≠ .unknownVersion given) :
    ∃ version start decls front rest stop,
      Parse.Starts text.toList version start ∧
      Parse.Declares (text.toList.length + 1) start decls rest ∧
      Parse.nextDecl (text.toList.length + 1) rest = .error stop ∧
      failure = ⟨stop.cause, .before text.toList stop.rest⟩ ∧
      text.toList = front ++ rest ∧
      Shader.parse (String.ofList front) = .ok (.ofDecls version decls) ∧
      Text.utf8Size front ≤ failure.position.offset ∧
      failure.position.PointsInto text := by
  unfold parse at fails
  dsimp only at fails
  cases isRead : Parse.shader (text.toList.length + 1) text.toList with
  | ok read =>
      rw [isRead] at fails
      cases fails
  | error stop =>
      rw [isRead] at fails
      cases fails
      rcases Parse.exists_declares_of_shader isRead (Nat.lt_succ_self _) isKnown with
        ⟨version, start, decls, rest, starts, declares, failsThere⟩
      rcases declares.cut with ⟨read, rfl, areRead⟩
      have areRead := areRead []
      rw [List.append_nil] at areRead
      rcases starts.cut areRead.not_hasDirective with ⟨front, split, startsFront⟩
      rcases Parse.nextDecl_stop failsThere with ⟨consumed, rfl⟩
      have isShader : Shader.parse (String.ofList front) = .ok (.ofDecls version decls) := by
        have counted := areRead.length_le
        have leFront := startsFront.length_le
        have leText := congrArg List.length split
        rw [List.length_append] at leText
        rcases startsFront.shader_eq areRead (by omega) with ⟨left, isShader⟩
        rw [Shader.parse_eq_ok_iff, String.toList_ofList]
        exact Parse.shader_of_length (by omega) (Nat.lt_succ_self _) isShader
      have position : Text.Position.before text.toList stop.rest = .behind (front ++ consumed) := by
        rw [split, ← List.append_assoc, Text.Position.before_append]
      refine ⟨version, _, decls, front, _, stop, starts, declares, failsThere, rfl, split, isShader, ?_, ?_⟩
      · show _ ≤ (Text.Position.before text.toList stop.rest).offset
        rw [position]
        show _ ≤ Text.utf8Size (front ++ consumed)
        rw [Text.utf8Size_append]
        exact Nat.le_add_right _ _
      · show (Text.Position.before text.toList stop.rest).PointsInto text
        rw [position]
        exact Text.Position.pointsInto_behind (by rw [split, List.append_assoc])

/-- Reading a fixed text is computed up to its failure. -/
theorem Shader.parse_eq_error_of {text : String} {failure : Parse.Failure}
    (reports : (match parse text with
      | .ok _ => none
      | .error failure => some failure) = some failure) : parse text = .error failure := by
  cases isRead : parse text with
  | ok shader =>
      rw [isRead] at reports
      cases reports
  | error other =>
      rw [isRead] at reports
      rw [Option.some.inj reports]

/-- The second declaration lacks a semicolon in its last line.  Characters of two bytes stand in
front of the place. -/
theorem Shader.exists_cut_of_parse_error_return :
    Shader.parse "#version 300 es\nfloat x; // \u00f6\nvoid f() \x7b\n  /* \u00f6 */ return 1 2; \x7d" =
        .error ⟨.expected ";", ⟨62, 4, 21⟩⟩ ∧
      ∃ version decls front rest,
        "#version 300 es\nfloat x; // \u00f6\nvoid f() \x7b\n  /* \u00f6 */ return 1 2; \x7d".toList =
          front ++ rest ∧
        Shader.parse (String.ofList front) = .ok (.ofDecls version decls) ∧
        Text.utf8Size front ≤ 62 ∧
        Text.Position.PointsInto ⟨62, 4, 21⟩
          "#version 300 es\nfloat x; // \u00f6\nvoid f() \x7b\n  /* \u00f6 */ return 1 2; \x7d" := by
  have fails : Shader.parse
      "#version 300 es\nfloat x; // \u00f6\nvoid f() \x7b\n  /* \u00f6 */ return 1 2; \x7d" =
        .error ⟨.expected ";", ⟨62, 4, 21⟩⟩ :=
    parse_eq_error_of (by decide +kernel)
  rcases exists_cut_of_parse_error fails nofun with
    ⟨version, _, decls, front, rest, _, _, _, _, _, split, isShader, behindCut, pointsInto⟩
  exact ⟨fails, version, decls, front, rest, split, isShader, behindCut, pointsInto⟩

end Whittle
