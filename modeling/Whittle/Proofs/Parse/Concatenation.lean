import Whittle.Proofs.Identifiers.Shifted
import Whittle.Proofs.Parse.StatementExtension

namespace Whittle
namespace Parse

/-!
# Reading two shaders as one

The declarations of a text are read one by one, and what is behind a declaration is out of
its sight.  So a text with the declarations of another one behind it is read as the
declarations of the first text and, numbered on, those of the second one.  A line break
between the two closes a comment that goes up to the end of its line.
-/

variable {input chars rest front back : List Char} {fuel fuel' : Nat}

/-- A gap that goes up to the end of a text goes on in the next line. -/
theorem afterGap_append_line {where? : Gap} (behind : afterGap where? front = .ok []) :
    afterGap (where?.extend ('\n' :: back)) (front ++ '\n' :: back) = afterGap .open back := by
  fun_induction afterGap where? front with
  | case4 => cases behind
  | case11 => cases behind
  | case5 => exact afterGap_open_cons (by decide)
  | case8 => rfl
  | case1 rest inductionHypothesis | case2 rest inductionHypothesis
  | case6 rest inductionHypothesis | case9 _ rest inductionHypothesis =>
      exact inductionHypothesis behind
  | case3 c rest noLine noBlock blank inductionHypothesis =>
      have notSlash : c ≠ '/' := by
        rintro rfl
        revert blank
        decide
      rw [List.cons_append, Gap.extend, afterGap_open_cons notSlash, if_pos blank]
      exact inductionHypothesis behind
  | case7 c rest notNewline inductionHypothesis =>
      rw [List.cons_append, Gap.extend, afterGap]
      · exact inductionHypothesis behind
      · exact notNewline
  | case10 opened c rest noEnd inductionHypothesis =>
      rw [List.cons_append, Gap.extend, afterGap]
      · exact inductionHypothesis behind
      · rintro tail rfl split
        cases rest with
        | nil => cases behind
        | cons d rest =>
            cases split
            exact noEnd rest rfl rfl

theorem Shows.like_append_line (shown : Shows front []) : Like (front ++ '\n' :: back) back :=
  afterGap_append_line shown

/-- What is not the end of a text is the beginning of a declaration or of a directive. -/
theorem atEnd_eq_ok {isEnd : Bool} (isRead : atEnd input = .ok (isEnd, rest)) :
    Shows input rest ∧ rest.head? ≠ some '#' ∧ isEnd = rest.isEmpty := by
  rcases Reader.bind_eq_ok_iff.mp isRead with ⟨_, chars, isGap, isRead⟩
  rw [Reader.get_bind] at isRead
  split at isRead
  · cases isRead
    exact ⟨shows_of_gap_eq isGap, nofun, rfl⟩
  · cases isRead
  · rename_i notNil noHash
    cases isRead
    cases rest with
    | nil => exact absurd rfl notNil
    | cons c tail =>
        refine ⟨shows_of_gap_eq isGap, fun same => ?_, rfl⟩
        cases same
        exact noHash tail rfl

theorem Shows.atEnd_eq (shown : Shows input chars) (noHash : chars.head? ≠ some '#') :
    atEnd input = .ok (chars.isEmpty, chars) := by
  unfold atEnd
  rw [Reader.bind_eq_of_ok shown.gap_eq, Reader.get_bind]
  cases chars with
  | nil => rfl
  | cons c tail =>
      refine congrFun (?_ : _ = (pure false : Reader Bool)) _
      split
      · rename_i split
        cases split
      · rename_i split
        exact absurd (congrArg some (List.cons.inj split).1) noHash
      · rfl

theorem Like.atEnd_eq {text : List Char} (like : Like input text) : atEnd input = atEnd text :=
  Reader.bind_congr like.gap_eq

/-- A larger count of declarations, and of what is in them, makes no difference. -/
theorem manyUntil_of_le {count limit total : Nat} {decls : List Decl} {left : List Char}
    (areRead : Reader.manyUntil atEnd (declaration fuel) count input = .ok (decls, left))
    (enough : fuel ≤ limit) (counted : count ≤ total) :
    Reader.manyUntil atEnd (declaration limit) total input = .ok (decls, left) := by
  induction count generalizing input decls total with
  | zero => cases areRead
  | succ count inductionHypothesis =>
      cases total with
      | zero => exact absurd counted (Nat.not_succ_le_zero count)
      | succ total =>
          rcases Reader.manyUntil_succ_eq_ok areRead with ⟨isEnd, rfl⟩ |
            ⟨between, first, behind, others, goesOn, isFirst, areOthers, rfl⟩
          · exact Reader.manyUntil_eq_nil isEnd
          · have ofFirst := (declaration_append enough isFirst).2 []
            rw [List.append_nil, List.append_nil] at ofFirst
            exact Reader.manyUntil_eq_cons goesOn ofFirst
              (inductionHypothesis areOthers (Nat.le_of_succ_le_succ counted))

/-- The declarations up to the end of a text are read with others behind a line break. -/
theorem manyUntil_append {count count' limit total : Nat} {decls decls' : List Decl}
    {left left' : List Char}
    (areFront : Reader.manyUntil atEnd (declaration fuel) count front = .ok (decls, left))
    (areBack : Reader.manyUntil atEnd (declaration fuel') count' back = .ok (decls', left'))
    (enough : fuel ≤ limit) (enough' : fuel' ≤ limit) (counted : count + count' ≤ total) :
    Reader.manyUntil atEnd (declaration limit) total (front ++ '\n' :: back) =
      .ok (decls ++ decls', left') := by
  induction count generalizing front decls total with
  | zero => cases areFront
  | succ count inductionHypothesis =>
      rcases Nat.exists_eq_succ_of_ne_zero (n := total) (by omega) with ⟨total, rfl⟩
      rcases Reader.manyUntil_succ_eq_ok areFront with ⟨isEnd, rfl⟩ |
        ⟨between, first, behind, others, goesOn, isFirst, areOthers, rfl⟩
      · rcases atEnd_eq_ok isEnd with ⟨shown, _, isNil⟩
        rw [List.isEmpty_iff.mp isNil.symm] at shown
        have like : atEnd (front ++ '\n' :: back) = atEnd back := shown.like_append_line.atEnd_eq
        refine Eq.trans (Reader.bind_congr like) ?_
        exact manyUntil_of_le areBack enough' (by omega : count' ≤ total + 1)
      · rcases atEnd_eq_ok goesOn with ⟨shown, noHash, notNil⟩
        have ofFirst := declaration_append enough isFirst
        have hasEnding := ofFirst.1.hasEnding
        have goesOnMore : atEnd (front ++ '\n' :: back) = .ok (false, between ++ '\n' :: back) := by
          cases between with
          | nil => cases notNil
          | cons c tail => exact (shown.append hasEnding).atEnd_eq noHash
        exact Reader.manyUntil_eq_cons goesOnMore (ofFirst.2 _)
          (inductionHypothesis areOthers (by omega))

/-- Behind its blanks and comments the text begins with a directive that names a version. -/
def HasDirective (text : List Char) : Prop :=
  ∃ chars, Shows text chars ∧ "#version".toList <+: chars

theorem not_hasDirective (shown : Shows input chars) (noHash : chars.head? ≠ some '#') :
    ¬HasDirective input := by
  rintro ⟨chars', shown', tail, isSplit⟩
  rw [shown.unique shown', ← isSplit] at noHash
  exact noHash rfl

/-- A text without a directive is of the implied version, and none of it is used up. -/
theorem versionDirective_eq_implied (plain : ¬HasDirective input) (shown : Shows input chars) :
    versionDirective input = .ok (Version.implied, chars) := by
  unfold versionDirective
  rw [Reader.bind_eq_of_ok shown.gap_eq, Reader.get_bind]
  cases isPrefix : "#version".toList.isPrefixOf? chars with
  | none => rfl
  | some line =>
      exact absurd ⟨chars, shown, line, List.isPrefixOf?_eq_some_iff_append_eq.mp isPrefix⟩ plain

theorem versionDirective_eq_ok {version : Version} (isRead : versionDirective input = .ok (version, rest)) :
    (¬HasDirective input ∧ version = Version.implied ∧ Shows input rest) ∨
      ∃ line, Shows input ("#version".toList ++ line) ∧
        Version.ofDirective? (line.takeWhile (· != '\n')) = some version ∧
        rest = line.dropWhile (· != '\n') := by
  rcases Reader.bind_eq_ok_iff.mp isRead with ⟨_, chars, isGap, isRead⟩
  rw [Reader.get_bind] at isRead
  have shown := shows_of_gap_eq isGap
  cases isPrefix : "#version".toList.isPrefixOf? chars with
  | none =>
      rw [isPrefix] at isRead
      cases isRead
      refine .inl ⟨?_, rfl, shown⟩
      rintro ⟨chars, shown', line, rfl⟩
      rw [shown.unique shown', isPrefixOf?_append_self] at isPrefix
      cases isPrefix
  | some line =>
      rw [isPrefix] at isRead
      rw [← List.isPrefixOf?_eq_some_iff_append_eq.mp isPrefix] at shown
      dsimp only at isRead
      rw [Reader.set_bind] at isRead
      cases isVersion : Version.ofDirective? (line.takeWhile (· != '\n')) with
      | none =>
          rw [isVersion] at isRead
          cases isRead
      | some version =>
          rw [isVersion] at isRead
          cases isRead
          exact .inr ⟨line, shown, isVersion, rfl⟩

/-- A directive takes its line. -/
theorem Shows.versionDirective_eq {line : List Char} {version : Version}
    (shown : Shows input ("#version".toList ++ line))
    (isVersion : Version.ofDirective? (line.takeWhile (· != '\n')) = some version) :
    versionDirective input = .ok (version, line.dropWhile (· != '\n')) := by
  unfold versionDirective
  rw [Reader.bind_eq_of_ok shown.gap_eq, Reader.get_bind, isPrefixOf?_append_self]
  dsimp only
  rw [Reader.set_bind, isVersion]
  rfl

/-- A text goes on with the end, or with something that is no directive. -/
def BeginsDecls (input : List Char) : Prop :=
  Shows input [] ∨ ∃ chars, Shows input chars ∧ HasEnding chars ∧ chars.head? ≠ some '#'

theorem beginsDecls_of_manyUntil {count : Nat} {decls : List Decl}
    (areRead : Reader.manyUntil atEnd (declaration fuel) count input = .ok (decls, rest)) :
    BeginsDecls input := by
  cases count with
  | zero => cases areRead
  | succ count =>
      rcases Reader.manyUntil_succ_eq_ok areRead with ⟨isEnd, rfl⟩ |
        ⟨between, first, behind, others, goesOn, isFirst, _, _⟩
      · rcases atEnd_eq_ok isEnd with ⟨shown, _, isNil⟩
        rw [List.isEmpty_iff.mp isNil.symm] at shown
        exact .inl shown
      · rcases atEnd_eq_ok goesOn with ⟨shown, noHash, _⟩
        have ofFirst := declaration_append (Nat.le_refl fuel) isFirst
        exact .inr ⟨between, shown, ofFirst.1.hasEnding, noHash⟩

/-- With another text behind it, one that has no directive, a text is of the same version. -/
theorem versionDirective_append {version : Version} (isRead : versionDirective front = .ok (version, rest))
    (begins : BeginsDecls rest) (plain : ¬HasDirective back) (shownBack : Shows back chars) :
    ∃ left, versionDirective (front ++ '\n' :: back) = .ok (version, left) ∧
      Like left (rest ++ '\n' :: back) := by
  rcases versionDirective_eq_ok isRead with ⟨noDirective, rfl, shown⟩ | ⟨line, shown, isVersion, rfl⟩
  · rcases begins with shownEnd | ⟨between, shownRest, hasEnding, noHash⟩
    · -- Nothing but blanks and comments is in front of the second text.
      obtain rfl := shown.self.unique shownEnd
      have like : Like (front ++ '\n' :: back) back := shown.like_append_line
      refine ⟨chars, versionDirective_eq_implied ?_ (like.shows shownBack), ?_⟩
      · rintro ⟨chars', shown', isPrefix⟩
        exact plain ⟨chars', like.symm.trans shown', isPrefix⟩
      · exact shownBack.self.trans (shows_newline_iff.mpr shownBack).symm
    · obtain rfl := shown.self.unique shownRest
      have shownMore : Shows (front ++ '\n' :: back) (rest ++ '\n' :: back) := shown.append hasEnding
      refine ⟨_, versionDirective_eq_implied (not_hasDirective shownMore ?_) shownMore, rfl⟩
      cases rest with
      | nil => exact absurd hasEnding not_hasEnding_nil
      | cons c tail => exact noHash
  · have shownMore : Shows (front ++ '\n' :: back) ("#version".toList ++ (line ++ '\n' :: back)) := by
      rw [← List.append_assoc]
      exact afterGap_append shown nofun nofun
    refine ⟨_, shownMore.versionDirective_eq ?_, ?_⟩
    · rw [takeWhile_append_cons rfl, isVersion]
    · rw [dropWhile_append_cons rfl]
      rfl

theorem shader_eq_ok {shader : Shader} {left : List Char} (isRead : Parse.shader fuel input = .ok (shader, left)) :
    ∃ version between decls, versionDirective input = .ok (version, between) ∧
      Reader.manyUntil atEnd (declaration fuel) fuel between = .ok (decls, left) ∧
      shader = Shader.ofDecls version decls := by
  rcases Reader.bind_eq_ok_iff.mp isRead with ⟨version, between, isVersion, isRead⟩
  rcases Reader.bind_eq_ok_iff.mp isRead with ⟨decls, _, areDecls, isRead⟩
  rcases Reader.pure_eq_ok_iff.mp isRead with ⟨rfl, rfl⟩
  exact ⟨version, between, decls, isVersion, areDecls, rfl⟩

theorem shader_append {first second : Shader} {left left' : List Char} {limit : Nat}
    (isFirst : Parse.shader fuel front = .ok (first, left))
    (isSecond : Parse.shader fuel' back = .ok (second, left')) (plain : ¬HasDirective back)
    (enough : fuel + fuel' ≤ limit) :
    Parse.shader limit (front ++ '\n' :: back) =
      .ok (⟨first.version, first.decls ++ second.decls.map (Decl.mapIds (first.nextId + ·)),
        first.nextId + second.nextId⟩, left') := by
  rcases shader_eq_ok isFirst with ⟨version, between, decls, isVersion, areDecls, rfl⟩
  rcases shader_eq_ok isSecond with ⟨version', between', decls', isVersion', areDecls', rfl⟩
  have shownBack : Shows back between' := by
    rcases versionDirective_eq_ok isVersion' with ⟨_, _, shown⟩ | ⟨line, shown, _⟩
    · exact shown
    · exact absurd ⟨_, shown, line, rfl⟩ plain
  have likeBack : Like between' back := shownBack.self.trans shownBack.symm
  have areBack : Reader.manyUntil atEnd (declaration fuel') fuel' back = .ok (decls', left') := by
    rw [← areDecls']
    cases fuel' with
    | zero => cases areDecls'
    | succ fuel' => exact Reader.bind_congr likeBack.atEnd_eq.symm
  rcases versionDirective_append isVersion (beginsDecls_of_manyUntil areDecls) plain shownBack with
    ⟨behind, isVersionMore, likeMore⟩
  have areMore : Reader.manyUntil atEnd (declaration limit) limit behind = .ok (decls ++ decls', left') := by
    rw [← manyUntil_append areDecls areBack (by omega : fuel ≤ limit) (by omega) enough]
    cases limit with
    | zero =>
        obtain rfl : fuel = 0 := by omega
        cases areDecls
    | succ limit => exact Reader.bind_congr likeMore.atEnd_eq
  unfold Parse.shader
  rw [Reader.bind_eq_of_ok isVersionMore, Reader.bind_eq_of_ok areMore, Reader.pure_eq,
    Shader.ofDecls_append version version']
  rfl

end Parse

theorem Shader.parse_eq_ok_iff {text : String} {shader : Shader} :
    parse text = .ok shader ↔
      ∃ left, Parse.shader (text.toList.length + 1) text.toList = .ok (shader, left) := by
  unfold parse
  dsimp only
  cases Parse.shader (text.toList.length + 1) text.toList with
  | error stop => simp
  | ok read => simp [Prod.ext_iff]

/-- The text of one shader with that of another one behind it, which has no directive of its
own, is read as a shader of the version of the first one with the declarations of both.  Those
of the second one are numbered behind those of the first one. -/
theorem Shader.parse_append {front back : String} {first second : Shader}
    (isFirst : Shader.parse front = .ok first) (isSecond : Shader.parse back = .ok second)
    (plain : ¬Parse.HasDirective back.toList) :
    Shader.parse (front ++ "\n" ++ back) =
      .ok ⟨first.version, first.decls ++ second.decls.map (Decl.mapIds (first.nextId + ·)),
        first.nextId + second.nextId⟩ := by
  rcases Shader.parse_eq_ok_iff.mp isFirst with ⟨left, isFront⟩
  rcases Shader.parse_eq_ok_iff.mp isSecond with ⟨left', isBack⟩
  have split : (front ++ "\n" ++ back).toList = front.toList ++ '\n' :: back.toList := by simp
  refine Shader.parse_eq_ok_iff.mpr ⟨left', ?_⟩
  rw [split]
  refine Parse.shader_append isFront isBack plain ?_
  rw [List.length_append, List.length_cons]
  omega

/-- A function is read behind a text whose last comment goes up to the end of its line. -/
theorem Shader.parse_append_function :
    ∃ first second, Shader.parse "#version 300 es\nfloat x; // one" = .ok first ∧
      Shader.parse "void f(void) \x7b if (x) g(); \x7d" = .ok second ∧
      ¬Parse.HasDirective "void f(void) \x7b if (x) g(); \x7d".toList ∧
      Shader.parse ("#version 300 es\nfloat x; // one" ++ "\n" ++ "void f(void) \x7b if (x) g(); \x7d") =
        .ok ⟨first.version, first.decls ++ second.decls.map (Decl.mapIds (first.nextId + ·)),
          first.nextId + second.nextId⟩ := by
  rcases @exists_parse_of_any "#version 300 es\nfloat x; // one" (fun _ => true)
    (by decide +kernel) with ⟨first, isFirst, -⟩
  rcases @exists_parse_of_any "void f(void) \x7b if (x) g(); \x7d" (fun _ => true)
    (by decide +kernel) with ⟨second, isSecond, -⟩
  have plain : ¬Parse.HasDirective "void f(void) \x7b if (x) g(); \x7d".toList :=
    Parse.not_hasDirective (Parse.shows_cons (c := 'v') rfl (by decide)) (by decide)
  exact ⟨_, _, isFirst, isSecond, plain, parse_append isFirst isSecond plain⟩

end Whittle
