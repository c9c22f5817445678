import Whittle.Proofs.Parse.Concatenation
import Whittle.Proofs.Tokens.StatementReading
import Whittle.Proofs.Tokens.StatementWriting

namespace Whittle

/-!
# Reading and writing keeps the tokens

A shader that is read and written again has the tokens that it had, apart from those that have
no meaning.  There is one exception: a member of an integer literal is written without a space
between the literal and the point, and so as a member of nothing.
-/

/-!
## What a tree says is a matter of shape

Identifiers are not said, so a tree says the same whichever identifiers its nodes have.  Nor do
they matter for whether a tree could have come from a text, and a tree that was read could.
-/

namespace Expr

mutual

theorem words_numbered (start : NodeId) (e : Expr) : (e.numbered start).words = e.words := by
  cases e with
  | int | float | bool | var => rfl
  | call id callee args => rw [numbered, words, words, wordsOfArgs_numberedList]
  | unary | binary | assign | ternary | member | index | paren =>
      simp only [numbered, words, words_numbered]

theorem wordsOfArgs_numberedList (start : NodeId) (es : List Expr) :
    wordsOfArgs (numberedList start es) = wordsOfArgs es := by
  match es with
  | [] => rfl
  | [e] => simp only [numberedList, wordsOfArgs, words_numbered]
  | e :: next :: rest =>
      have behind := wordsOfArgs_numberedList (start + e.size) (next :: rest)
      rw [numberedList] at behind
      simp only [numberedList, wordsOfArgs, words_numbered, behind]

end

end Expr

/-- Related expressions say the same. -/
def KeepsWords (R : Expr → Expr → Prop) : Prop :=
  ∀ ⦃e e' : Expr⦄, R e e' → e'.words = e.words

section

variable {R : Expr → Expr → Prop}

theorem Expr.wordsOfInit_of_rel (keeps : KeepsWords R) {e? e?' : Option Expr}
    (related : Option.Rel R e? e?') : wordsOfInit e?' = wordsOfInit e? := by
  cases related with
  | none => rfl
  | some related => rw [wordsOfInit, wordsOfInit, keeps related]

theorem Stmt.wordsOfOption_of_rel (keeps : KeepsWords R) {e? e?' : Option Expr}
    (related : Option.Rel R e? e?') : wordsOfOption e?' = wordsOfOption e? := by
  cases related with
  | none => rfl
  | some related => exact keeps related

theorem VarDecl.Alike.words_eq (keeps : KeepsWords R) {var var' : VarDecl} (alike : var.Alike R var') :
    var'.words = var.words := by
  rw [VarDecl.words, VarDecl.words, alike.qualifier, alike.ty, alike.name,
    Expr.wordsOfInit_of_rel keeps alike.init]

theorem Stmt.wordsOfInit_of_rel (keeps : KeepsWords R) {init init' : Option Stmt}
    (related : Option.Rel (Alike R) init init') : wordsOfInit init' = wordsOfInit init := by
  cases related with
  | none => rfl
  | some alike =>
      cases alike with
      | decl declared => exact declared.words_eq keeps
      | expr evaluated => rw [wordsOfInit, wordsOfInit, keeps evaluated]
      | _ => rfl

mutual

theorem Stmt.Alike.words_eq (keeps : KeepsWords R) {s s' : Stmt} (alike : s.Alike R s') :
    s'.words = s.words := by
  cases alike with
  | decl declared => rw [Stmt.words, Stmt.words, declared.words_eq keeps]
  | expr evaluated => rw [Stmt.words, Stmt.words, keeps evaluated]
  | block within => rw [Stmt.words, Stmt.words, Stmt.wordsOfList_of_alike keeps within]
  | branch tested first second =>
      rw [Stmt.words, Stmt.words, keeps tested, first.words_eq keeps]
      cases second with
      | none => rfl
      | some second => rw [Stmt.wordsOfElse, Stmt.wordsOfElse, second.words_eq keeps]
  | forLoop before tested behind within =>
      rw [Stmt.words, Stmt.words, Stmt.wordsOfInit_of_rel keeps before,
        Stmt.wordsOfOption_of_rel keeps tested, Stmt.wordsOfOption_of_rel keeps behind,
        within.words_eq keeps]
  | whileLoop tested within => rw [Stmt.words, Stmt.words, keeps tested, within.words_eq keeps]
  | switch selected within =>
      rw [Stmt.words, Stmt.words, keeps selected, Stmt.wordsOfCases_of_alike keeps within]
  | ret returned => rw [Stmt.words, Stmt.words, Stmt.wordsOfOption_of_rel keeps returned]
  | breakOut | continueLoop | discard | empty => rfl

theorem Stmt.wordsOfList_of_alike (keeps : KeepsWords R) {stmts stmts' : List Stmt}
    (alike : List.Forall₂ (Stmt.Alike R) stmts stmts') : wordsOfList stmts' = wordsOfList stmts := by
  cases alike with
  | nil => rfl
  | cons first behind =>
      rw [wordsOfList, wordsOfList, first.words_eq keeps, wordsOfList_of_alike keeps behind]

theorem Stmt.wordsOfCases_of_alike (keeps : KeepsWords R) {cases cases' : List Case}
    (alike : List.Forall₂ (Case.Alike R) cases cases') : wordsOfCases cases' = wordsOfCases cases := by
  cases alike with
  | nil => rfl
  | cons first behind =>
      cases first with
      | mk within =>
          rw [wordsOfCases, wordsOfCases, wordsOfList_of_alike keeps within,
            wordsOfCases_of_alike keeps behind]

end

theorem Field.flatMap_words_of_shapes {fields fields' : List Field}
    (same : fields'.map shape = fields.map shape) : fields'.flatMap words = fields.flatMap words := by
  have ofShapes : ∀ fields : List Field,
      fields.flatMap words = (fields.map shape).flatMap fun shape => [shape.1.text, shape.2, ";"] :=
    fun fields => by rw [List.flatMap_map]; rfl
  rw [ofShapes, ofShapes, same]

theorem Param.separated_words_of_shapes {params params' : List Param}
    (same : params'.map shape = params.map shape) :
    separated words params' = separated words params := by
  have ofShapes : ∀ params : List Param,
      separated words params = separated (fun shape => [shape.1.text, shape.2]) (params.map shape) := by
    intro params
    cases params with
    | nil => rfl
    | cons param params =>
        rw [List.map_cons, separated, separated, List.flatMap_map]
        rfl
  rw [ofShapes, ofShapes, same]

theorem Decl.Alike.words_eq (keeps : KeepsWords R) {decl decl' : Decl} (alike : decl.Alike R decl') :
    decl'.words = decl.words := by
  cases alike with
  | precision => rfl
  | struct same =>
      rw [Decl.words, Decl.words, same.name, Field.flatMap_words_of_shapes same.fields]
  | global declared => exact declared.words_eq keeps
  | function defined =>
      rw [Decl.words, Decl.words, defined.returnTy, defined.name,
        Param.separated_words_of_shapes defined.params, Stmt.wordsOfList_of_alike keeps defined.stmts]

theorem Decl.flatMap_words_of_alike (keeps : KeepsWords R) {decls decls' : List Decl}
    (alike : List.Forall₂ (Decl.Alike R) decls decls') :
    decls'.flatMap words = decls.flatMap words := by
  induction alike with
  | nil => rfl
  | cons first _ inductionHypothesis =>
      rw [List.flatMap_cons, List.flatMap_cons, first.words_eq keeps, inductionHypothesis]

end

section

variable {fits fits' : Expr → Bool} {R : Expr → Expr → Prop}

theorem VarDecl.Alike.isPrintable (carries : CarriesOver R fits fits') {var var' : VarDecl}
    (alike : var.Alike R var') (printable : var.isPrintable fits = true) :
    var'.isPrintable fits' = true := by
  simp only [VarDecl.isPrintable, Bool.and_eq_true, alike.ty, alike.name] at printable ⊢
  exact ⟨printable.1, carries.all_option alike.init printable.2⟩

theorem Field.all_isPrintable_of_shapes {fields fields' : List Field}
    (same : fields'.map shape = fields.map shape) :
    fields'.all isPrintable = fields.all isPrintable := by
  have ofShapes : ∀ fields : List Field, fields.all isPrintable =
      (fields.map shape).all fun shape => shape.1.isPrintable && Parse.isName shape.2 :=
    fun fields => by rw [List.all_map]; rfl
  rw [ofShapes, ofShapes, same]

theorem Param.all_isSpelled_of_shapes {params params' : List Param}
    (same : params'.map shape = params.map shape) : params'.all isSpelled = params.all isSpelled := by
  have ofShapes : ∀ params : List Param, params.all isSpelled =
      (params.map shape).all fun shape => shape.1.isPrintable && Parse.isName shape.2 :=
    fun params => by rw [List.all_map]; rfl
  rw [ofShapes, ofShapes, same]

theorem Decl.Alike.isSpelled (carries : CarriesOver R fits fits') {decl decl' : Decl}
    (alike : decl.Alike R decl') (spelled : decl.isSpelled fits = true) :
    decl'.isSpelled fits' = true := by
  cases alike with
  | precision => exact spelled
  | struct same =>
      rwa [Decl.isSpelled, same.name, Field.all_isPrintable_of_shapes same.fields]
  | global declared =>
      rw [Decl.isSpelled] at spelled ⊢
      exact declared.isPrintable carries spelled
  | function defined =>
      rw [Decl.isSpelled, Bool.and_eq_true] at spelled ⊢
      rw [defined.returnTy, defined.name, Param.all_isSpelled_of_shapes defined.params]
      exact ⟨spelled.1, Stmt.isPrintableList_of_alike carries defined.stmts spelled.2⟩

/-- Only the outermost expressions of a declaration matter. -/
theorem Decl.isSpelled_of_roots {decl : Decl} (spelled : decl.isSpelled fits = true)
    (carries : ∀ e ∈ decl.roots, fits e = true → fits' e = true) : decl.isSpelled fits' = true := by
  have alike : decl.Alike (fun e e' => e' = e ∧ (fits e = true → fits' e = true)) decl := by
    cases decl with
    | precision => exact .precision
    | struct => exact .struct ⟨rfl, rfl⟩
    | global var =>
        exact .global ⟨rfl, rfl, rfl, option_rel_of_toList fun e listed => ⟨rfl, carries e listed⟩⟩
    | function f =>
        refine .function ⟨⟨rfl, rfl, rfl⟩, Stmt.alikeList_of_roots fun e listed => ⟨rfl, carries e ?_⟩⟩
        rwa [Stmt.rootsOfList_eq_flatMap] at listed
  refine alike.isSpelled ?_ spelled
  rintro e _ ⟨rfl, carries⟩
  exact carries

end

/-! ### Numbering -/

theorem Decl.alike_numberedList (start : NodeId) (decls : List Decl) :
    List.Forall₂ (Decl.Alike fun e e' => e'.words = e.words ∧ e'.isLegible = e.isLegible) decls
      (numberedList start decls) := by
  refine alikeList_numbered (R := Eq) (fun start e e' same => ?_) start
    (List.forall₂_same.mpr fun decl _ => .of_refl (fun _ => rfl) decl)
  rw [same]
  exact ⟨Expr.words_numbered start e', Expr.isLegible_numbered start e'⟩

theorem Decl.flatMap_words_numberedList (start : NodeId) (decls : List Decl) :
    (numberedList start decls).flatMap words = decls.flatMap words :=
  flatMap_words_of_alike (fun _ _ same => same.1) (alike_numberedList start decls)

theorem Decl.isSpelled_of_mem_numberedList {start : NodeId} {decls : List Decl}
    (spelled : ∀ decl ∈ decls, decl.isSpelled Expr.isLegible = true) {decl : Decl}
    (listed : decl ∈ numberedList start decls) : decl.isSpelled Expr.isLegible = true := by
  rcases exists_of_mem_right (alike_numberedList start decls) listed with ⟨unnumbered, isDecl, alike⟩
  exact alike.isSpelled (fun _ _ same legible => same.2.trans legible) (spelled unnumbered isDecl)

namespace Parse

variable {input chars rest : List Char} {p : Progress} {fuel : Nat}

/-- The tokens of a text with the version that it names in its usual form, or the one that it is
of without naming it. -/
def versioned : List Token → List Token
  | .directive line :: rest =>
      .directive ("version ".toList ++ Text.normalized (line.drop "version".length)) :: rest
  | all => .directive ("version ".toList ++ Version.implied.text.toList) :: all

/-- Only a directive begins like one. -/
theorem head?_of_firstToken? {line : List Char}
    (found : firstToken? input = some (.directive line, rest)) : input.head? = some '#' := by
  cases input with
  | nil => cases found
  | cons c tail =>
      rw [firstToken?] at found
      split at found
      · cases found
      split at found
      · rename_i isHash
        rw [beq_iff_eq.mp isHash]
        rfl
      split at found
      · cases found
      split at found
      · cases found
      · cases tail with
        | nil => cases found
        | cons d tail =>
            rw [firstMark] at found
            split at found <;> cases found

theorem versioned_of_plain (shown : Shows input chars) (noHash : chars.head? ≠ some '#') :
    versioned (tokens input) =
      .directive ("version ".toList ++ Version.implied.text.toList) :: tokens input := by
  cases found : firstToken? chars with
  | none =>
      rw [tokens_eq_nil shown found]
      rfl
  | some read =>
      rcases read with ⟨token, rest⟩
      rw [tokens_eq_cons shown found]
      cases token with
      | directive line => exact absurd (head?_of_firstToken? found) noHash
      | word | int | float | mark => rfl

/-- A directive that names a version has the text of the version as its words. -/
theorem normalized_of_ofDirective? {line : List Char} {version : Version}
    (isVersion : Version.ofDirective? line = some version) :
    Text.normalized line = version.text.toList := by
  have same := List.find?_some isVersion
  exact (beq_iff_eq.mp same).symm

theorem spell_version (scan : TokenScan) (version : Version) :
    scan.spell (.directive ("version ".toList ++ version.text.toList)) =
      ["#version " ++ version.text] := by
  cases version <;> rfl

theorem tokens_of_directive {line : List Char} (shown : Shows input ("#version".toList ++ line)) :
    tokens input = .directive ("version".toList ++ line.takeWhile (· != '\n')) ::
      tokens (line.dropWhile (· != '\n')) :=
  tokens_eq_cons shown rfl

/-- The first thing that is said is the version. -/
theorem spelling_versioned {version : Version} (isRead : versionDirective input = .ok (version, rest))
    (begins : BeginsDecls rest) :
    TokenScan.beginning.spelling true (versioned (tokens input)) =
      Progress.total true ⟨["#version " ++ version.text], TokenScan.beginning⟩ rest := by
  have said : versioned (tokens input) =
      .directive ("version ".toList ++ version.text.toList) :: tokens rest := by
    rcases versionDirective_eq_ok isRead with ⟨_, rfl, shown⟩ | ⟨line, shown, isVersion, rfl⟩
    · have noHash : rest.head? ≠ some '#' := by
        rcases begins with isEnd | ⟨chars, shown', _, noHash⟩
        · rw [shown.self.unique isEnd]
          nofun
        · rwa [shown.self.unique shown']
      rw [versioned_of_plain shown noHash, shown.tokens_eq]
    · have behind : ("version".toList ++ line.takeWhile (· != '\n')).drop "version".length =
          line.takeWhile (· != '\n') :=
        rfl
      rw [tokens_of_directive shown, versioned, behind, normalized_of_ofDirective? isVersion]
  rw [said, TokenScan.spelling, spell_version]
  rfl

theorem spells_atEnd : Spells p atEnd fun _ => p :=
  fun _ _ _ isRead => Progress.total_of_shows (atEnd_eq_ok isRead).1

/-- The declarations of a text are read up to its end. -/
theorem eq_nil_of_manyUntil {count : Nat} {decls : List Decl}
    (areRead : Reader.manyUntil atEnd (declaration fuel) count input = .ok (decls, rest)) :
    rest = [] := by
  induction count generalizing input decls with
  | zero => cases areRead
  | succ count inductionHypothesis =>
      rcases Reader.manyUntil_succ_eq_ok areRead with ⟨isEnd, _⟩ | ⟨_, _, _, _, _, _, areOthers, _⟩
      · exact List.isEmpty_iff.mp (atEnd_eq_ok isEnd).2.2.symm
      · exact inductionHypothesis areOthers

/-- What is read from a text is said behind its version. -/
theorem spelling_versioned_of_shader {shader : Shader}
    (isRead : Parse.shader fuel input = .ok (shader, rest)) :
    TokenScan.beginning.spelling true (versioned (tokens input)) =
      ("#version " ++ shader.version.text) :: shader.decls.flatMap Decl.words := by
  rcases shader_eq_ok isRead with ⟨version, between, decls, isVersion, areDecls, rfl⟩
  obtain rfl := eq_nil_of_manyUntil areDecls
  have areSaid := Spells.manyUntil (p := ⟨["#version " ++ version.text], TokenScan.beginning⟩)
    (fun _ => spells_atEnd) (fun _ here => spells_declaration here) fuel rfl areDecls
  rw [spelling_versioned isVersion (beginsDecls_of_manyUntil areDecls), areSaid, Progress.total,
    tokens_nil, Shader.ofDecls, Decl.flatMap_words_numberedList]
  exact List.append_nil _

end Parse

namespace Shader

theorem tokens_text (shader : Shader) :
    Parse.tokens shader.text.toList =
      .directive ("version ".toList ++ shader.version.text.toList) ::
        Parse.tokens (String.join (shader.decls.map Decl.text)).toList := by
  let line := ' ' :: shader.version.text.toList
  have noBreak : ∀ c ∈ line, (c != '\n') = true := by
    cases version : shader.version <;> simp only [line, version] <;> exact List.all_eq_true.mp rfl
  have ends : ∀ c ∈ ('\n' :: (String.join (shader.decls.map Decl.text)).toList).head?,
      (c != '\n') = false := by
    rintro c ⟨⟩
    rfl
  have split : shader.text.toList = "#version".toList ++
      (line ++ '\n' :: (String.join (shader.decls.map Decl.text)).toList) := by
    simp [text, line]
  have shown : Parse.Shows shader.text.toList ("#version".toList ++
      (line ++ '\n' :: (String.join (shader.decls.map Decl.text)).toList)) := by
    rw [split]
    exact Parse.shows_cons rfl (by decide)
  rw [Parse.tokens_of_directive shown, Parse.takeWhile_append_eq noBreak ends,
    Parse.dropWhile_append_eq noBreak ends, Parse.tokens_newline]
  rfl

/-- What a shader says in its text, if all of it could have come from one and no point runs into an
integer. -/
theorem spelling_text {shader : Shader}
    (spelled : ∀ decl ∈ shader.decls, decl.isSpelled Expr.isLegible = true)
    (apart : ∀ e ∈ shader.exprs, e.isIntMember = false) :
    TokenScan.beginning.spelling false (Parse.tokens shader.text.toList) =
      ("#version " ++ shader.version.text) :: shader.decls.flatMap Decl.words := by
  have writable : ∀ decl ∈ shader.decls, decl.isSpelled Expr.isWritable = true := by
    refine fun decl listed => Decl.isSpelled_of_roots (spelled decl listed) fun e isRoot legible => ?_
    rw [Expr.isLegible, List.all_eq_true] at legible
    rw [Expr.isWritable, List.all_eq_true]
    intro part isPart
    have isExpr : part ∈ shader.exprs :=
      List.mem_flatMap.mpr ⟨e, List.mem_flatMap.mpr ⟨decl, listed, isRoot⟩, isPart⟩
    rw [legible part isPart, apart part isExpr]
    rfl
  have areSaid := Decl.total_texts (p := ⟨["#version " ++ shader.version.text], TokenScan.beginning⟩)
    writable rfl []
  rw [List.append_nil] at areSaid
  rw [tokens_text, TokenScan.spelling, Parse.spell_version]
  refine areSaid.trans ?_
  rw [Progress.total, Parse.tokens_nil]
  exact List.append_nil _

/-- A shader that is read and written again has the tokens that it had.  Parentheses, ways of
writing numbers and what the reader passes over do not count, and the version is named in its
usual form.  The point of a member must not stand behind an integer literal. -/
theorem spelling_text_of_parse {source : String} {shader : Shader} (isRead : parse source = .ok shader)
    (apart : ∀ e ∈ shader.exprs, e.isIntMember = false) :
    TokenScan.beginning.spelling false (Parse.tokens shader.text.toList) =
      TokenScan.beginning.spelling true (Parse.versioned (Parse.tokens source.toList)) := by
  rcases parse_eq_ok_iff.mp isRead with ⟨left, isShader⟩
  rw [Parse.spelling_versioned_of_shader isShader]
  refine spelling_text ?_ apart
  rcases Parse.shader_eq_ok isShader with ⟨version, between, decls, _, areDecls, rfl⟩
  exact fun decl listed => Decl.isSpelled_of_mem_numberedList
    (Parse.Yields.manyUntil (Parse.yields_declaration _) _ areDecls) listed

/-- Blanks in front of the version, the word `in`, a plus sign, the word `void`, parentheses and a
comment are gone when the text is written. -/
theorem spelling_text_of_parse_function :
    ∃ shader, parse "#version  300 es\nint f(in int a) \x7b return +g(void) - (a); \x7d //" = .ok shader ∧
      (∀ e ∈ shader.exprs, e.isIntMember = false) ∧
      TokenScan.beginning.spelling false (Parse.tokens shader.text.toList) =
        TokenScan.beginning.spelling true (Parse.versioned (Parse.tokens
          "#version  300 es\nint f(in int a) \x7b return +g(void) - (a); \x7d //".toList)) := by
  rcases @exists_parse_of_any
    "#version  300 es\nint f(in int a) \x7b return +g(void) - (a); \x7d //"
    (fun shader => !shader.exprs.any Expr.isIntMember) (by decide +kernel) with ⟨shader, isRead, noMember⟩
  have apart : ∀ e ∈ shader.exprs, e.isIntMember = false := by
    simpa using noMember
  exact ⟨shader, isRead, apart, spelling_text_of_parse isRead apart⟩

/-- Behind an integer literal the point of a member becomes a part of the number. -/
theorem spelling_text_of_int_member :
    ∃ shader, parse "int x = 1 .y;" = .ok shader ∧
      TokenScan.beginning.spelling false (Parse.tokens shader.text.toList) ≠
        TokenScan.beginning.spelling true (Parse.versioned (Parse.tokens "int x = 1 .y;".toList)) := by
  rcases @exists_parse_of_any "int x = 1 .y;"
    (fun shader => TokenScan.beginning.spelling false (Parse.tokens shader.text.toList) !=
      TokenScan.beginning.spelling true (Parse.versioned (Parse.tokens "int x = 1 .y;".toList)))
    (by decide +kernel) with ⟨shader, isRead, differs⟩
  exact ⟨shader, isRead, bne_iff_ne.mp differs⟩

end Shader
end Whittle
