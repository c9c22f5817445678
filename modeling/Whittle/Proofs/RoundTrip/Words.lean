import Whittle.Parse.Shader
import Whittle.Print.Shader
import Whittle.Proofs.RoundTrip.Expr
import Whittle.Proofs.RoundTrip.Printable
import Whittle.Proofs.Syntax.Alike

namespace Whittle

/-!
# Reading names, types and variables

A statement that begins with a word may be a declaration or an expression.  What
the writer makes of an expression is never taken for a declaration, because no
second word follows its first one.
-/

theorem Ty.isWord_text {ty : Ty} (printable : ty.isPrintable = true) :
    Parse.isWord ty.text = true := by
  cases ty with
  | struct name => exact Parse.isWord_of_isName printable
  | void => decide
  | scalar component => cases component <;> decide
  | vector component width => cases component <;> cases width <;> decide

theorem Ty.isReserved_text {ty : Ty} (printable : ty.isPrintable = true) :
    Parse.isReserved ty.text = false := by
  cases ty with
  | struct name => exact Parse.isReserved_of_isName printable
  | void => decide
  | scalar component => cases component <;> decide
  | vector component width => cases component <;> cases width <;> decide

theorem Ty.ofName_text {ty : Ty} (printable : ty.isPrintable = true) : Ty.ofName ty.text = ty := by
  cases ty with
  | struct name =>
      show (Ty.ofKeyword? name).getD (.struct name) = .struct name
      rw [Parse.ofKeyword?_of_isName printable]
      rfl
  | void => decide
  | scalar component => cases component <;> decide
  | vector component width => cases component <;> cases width <;> decide

namespace Parse

variable {input rest next : List Char} {fuel : Nat}

theorem typeName_eq {ty : Ty} (printable : ty.isPrintable = true)
    (shown : Shows input (ty.text.toList ++ rest)) (ends : goesOn rest = false) :
    typeName input = .ok (ty, rest) := by
  unfold typeName
  rw [Reader.get_bind, Reader.bind_eq_of_ok (shown.word_eq (Ty.isWord_text printable) ends),
    Ty.isReserved_text printable, if_neg Bool.false_ne_true, Ty.ofName_text printable]
  rfl

theorem identifier_eq {name : String} (named : isName name = true)
    (shown : Shows input (name.toList ++ rest)) (ends : goesOn rest = false) :
    identifier input = .ok (name, rest) := by
  unfold identifier
  rw [Reader.get_bind, Reader.bind_eq_of_ok (shown.word_eq (isWord_of_isName named) ends),
    isReserved_of_isName named, ofKeyword?_of_isName named]
  rfl

/-- An expression whose count suffices is read up to what closes it. -/
theorem expression_eq {e : Expr} (readable : e.Readable) (count : e.text.toList.length < fuel)
    (shown : Shows input (e.text.toList ++ rest)) (ends : goesOn rest = false)
    (behind : Shows rest next) (closed : closes next = true) :
    expression fuel input = .ok (e.asRead, next) := by
  have same : e.asRead.chars = e.text.toList := by
    rw [Expr.chars, Expr.bareText_asRead, ← Expr.text_eq_bareText]
  rw [← same] at count shown
  exact readsBelow_expression fuel e.asRead readable.plain_asRead count shown ends behind closed

theorem shows_text {e : Expr} (readable : e.Readable) :
    Shows (e.text.toList ++ rest) (e.text.toList ++ rest) := by
  have same : e.asRead.chars = e.text.toList := by
    rw [Expr.chars, Expr.bareText_asRead, ← Expr.text_eq_bareText]
  rw [← same]
  exact readable.plain_asRead.shows

/-- The characters behind the name of a variable. -/
def initChars (init : Option Expr) : List Char :=
  (match init with
    | some init => " = ".toList ++ init.text.toList
    | none => []) ++ [';']

theorem variableRest_eq {qualifier : Option Qualifier} {ty : Ty} {name : String}
    {init : Option Expr} (readable : ∀ e ∈ init, e.Readable)
    (count : (initChars init).length < fuel) :
    variableRest fuel qualifier ty name (initChars init ++ rest) =
      .ok (⟨.unnumbered, qualifier, ty, name, init.map Expr.asRead⟩, rest) := by
  have shownEnd : Shows (';' :: rest) (';' :: rest) := shows_mark (by decide)
  unfold variableRest
  cases init with
  | none =>
      show (atToken "=" >>= _ : Reader VarDecl) (';' :: rest) = _
      rw [Reader.bind_eq_of_ok (shownEnd.atToken_eq "=")]
      show (pure none >>= _ : Reader VarDecl) _ = _
      rw [Reader.pure_bind]
      exact Reader.bind_eq_of_ok token_semicolon
  | some e =>
      have isReadable := readable e rfl
      simp only [initChars, List.length_append] at count
      have split : initChars (some e) ++ rest = ' ' :: '=' :: ' ' :: (e.text.toList ++ ';' :: rest) := by
        simp [initChars]
      have shownSign : Shows ('=' :: ' ' :: (e.text.toList ++ ';' :: rest))
          ('=' :: ' ' :: (e.text.toList ++ ';' :: rest)) := shows_cons rfl (by decide)
      have sign : token "=" ('=' :: ' ' :: (e.text.toList ++ ';' :: rest)) =
          .ok ((), ' ' :: (e.text.toList ++ ';' :: rest)) := shownSign.token_eq
      have value : expression fuel (' ' :: (e.text.toList ++ ';' :: rest)) =
          .ok (e.asRead, ';' :: rest) :=
        expression_eq isReadable (by omega) (shows_space_iff.mpr (shows_text isReadable)) rfl
          shownEnd rfl
      rw [split]
      rw [Reader.bind_eq_of_ok ((shows_space_iff.mpr shownSign).atToken_eq "=")]
      show (token "=" >>= _ : Reader VarDecl) _ = _
      rw [Reader.bind_eq_of_ok sign, Reader.bind_eq_of_ok value, Reader.pure_bind]
      exact Reader.bind_eq_of_ok token_semicolon

/-- Blanks in front of what follows the name of a variable do not count. -/
theorem variableRest_congr {text : List Char} (like : Like input text) (fuel : Nat)
    (qualifier : Option Qualifier) (ty : Ty) (name : String) :
    variableRest fuel qualifier ty name input = variableRest fuel qualifier ty name text :=
  Reader.bind_congr (like.atToken_eq "=")

theorem toList_varText (var : VarDecl) :
    var.text.toList = (var.qualifier.map fun q => q.keyword.toList ++ [' ']).getD [] ++
      (var.ty.text.toList ++ ' ' :: (var.name.toList ++ initChars var.init)) := by
  rcases var with ⟨id, qualifier, ty, name, init⟩
  cases qualifier <;> cases init <;> simp [VarDecl.text, initChars]

/-- What an expression is read as, if it fits. -/
def ReadAs (fits : Expr → Bool) (e e' : Expr) : Prop :=
  fits e = true ∧ e' = e.asRead

def FitToRead (fits : Expr → Bool) : Prop :=
  ∀ {e : Expr}, fits e = true → e.Readable

section

variable {fits : Expr → Bool}

theorem optionRel_readAs {e? : Option Expr} (fit : e?.all fits = true) :
    Option.Rel (ReadAs fits) e? (e?.map Expr.asRead) := by
  cases e? with
  | none => exact .none
  | some e => exact .some ⟨fit, rfl⟩

theorem readable_of_all (readable : FitToRead fits) {e? : Option Expr}
    (fit : e?.all fits = true) : ∀ e ∈ e?, e.Readable := by
  rintro e rfl
  exact readable fit

/-- A word that is no keyword is read as the name of a type, and the word behind
it as the name of a variable. -/
theorem typed_eq {α : Type} {ty : Ty} {name : String} {second : Ty → String → Reader α}
    (typed : ty.isPrintable = true) (named : isName name = true)
    (shown : Shows input (ty.text.toList ++ ' ' :: (name.toList ++ rest)))
    (ends : goesOn rest = false) :
    (do
      let ty ← typeName
      let name ← identifier
      second ty name) input = second ty name rest := by
  have shownName : Shows (' ' :: (name.toList ++ rest)) (name.toList ++ rest) :=
    shows_space_iff.mpr (shows_word (isWord_of_isName named))
  rw [Reader.bind_eq_of_ok (typeName_eq typed shown rfl),
    Reader.bind_eq_of_ok (identifier_eq named shownName ends)]

theorem goesOn_initChars (init : Option Expr) (rest : List Char) :
    goesOn (initChars init ++ rest) = false := by
  cases init <;> rfl

theorem declStmt_eq (readable : FitToRead fits) {var : VarDecl}
    (printable : var.isPrintableLocal fits = true) (count : var.text.toList.length < fuel)
    (shown : Shows input (var.text.toList ++ rest)) :
    ∃ var', declStmt fuel input = .ok (.decl .unnumbered var', rest) ∧
      var.Alike (ReadAs fits) var' := by
  rcases var with ⟨id, qualifier, ty, name, init⟩
  simp only [VarDecl.isPrintableLocal, VarDecl.isPrintable, Bool.and_eq_true, Bool.or_eq_true,
    beq_iff_eq, Option.isNone_iff_eq_none] at printable
  rcases printable with ⟨⟨⟨typed, named⟩, fit⟩, isLocal⟩
  rw [toList_varText] at count shown
  have short : (initChars init).length < fuel := by
    simp only [List.length_append, List.length_cons] at count
    omega
  have behind : variableRest fuel qualifier ty name (initChars init ++ rest) = _ :=
    variableRest_eq (readable_of_all readable fit) short
  refine ⟨⟨.unnumbered, qualifier, ty, name, init.map Expr.asRead⟩, ?_, rfl, rfl, rfl,
    optionRel_readAs fit⟩
  unfold declStmt
  rcases isLocal with rfl | rfl
  · have shown : Shows input (ty.text.toList ++ ' ' :: (name.toList ++ (initChars init ++ rest))) := by
      simpa using shown
    have noConst : behindKeyword? "const"
        (ty.text.toList ++ ' ' :: (name.toList ++ (initChars init ++ rest))) = none := by
      refine behindKeyword?_eq_none_of_ne rfl (Ty.isWord_text typed) ?_ rfl
      intro same
      have isReserved := Ty.isReserved_text typed
      rw [same] at isReserved
      cases isReserved
    rw [Reader.bind_eq_of_ok shown.gap_eq, Reader.bind_eq_of_ok (atKeyword_eq_false noConst)]
    show (pure none >>= _ : Reader Stmt) _ = _
    rw [Reader.pure_bind]
    refine (typed_eq typed named shown.self (goesOn_initChars _ _)).trans ?_
    exact Reader.bind_eq_of_ok behind
  · have shown : Shows input ("const".toList ++
        ' ' :: (ty.text.toList ++ ' ' :: (name.toList ++ (initChars init ++ rest)))) := by
      simpa [Qualifier.keyword] using shown
    have shownType : Shows (' ' :: (ty.text.toList ++ ' ' :: (name.toList ++ (initChars init ++ rest))))
        (ty.text.toList ++ ' ' :: (name.toList ++ (initChars init ++ rest))) :=
      shows_space_iff.mpr (shows_word (Ty.isWord_text typed))
    rw [Reader.bind_eq_of_ok shown.gap_eq, Reader.bind_eq_of_ok (atKeyword_eq_true rfl)]
    show (keyword "const" >>= _ : Reader Stmt) _ = _
    rw [Reader.bind_eq_of_ok (shown.self.keyword_eq rfl), Reader.pure_bind]
    refine (typed_eq typed named shownType (goesOn_initChars _ _)).trans ?_
    exact Reader.bind_eq_of_ok behind

end

/-- No second word follows the first word of the text, if it begins with one. -/
def NoSecondWord (input : List Char) : Prop :=
  (∀ c ∈ input.head?, isWordStart c = false) ∨
    ∃ name rest next, input = name.toList ++ rest ∧ isWord name = true ∧ goesOn rest = false ∧
      Shows rest next ∧ ∀ c ∈ next.head?, isWordStart c = false

theorem noSecondWord_word {name : String} (word : isWord name = true) (ends : goesOn rest = false)
    (behind : Shows rest next) (noWord : ∀ c ∈ next.head?, isWordStart c = false) :
    NoSecondWord (name.toList ++ rest) :=
  .inr ⟨name, rest, next, rfl, word, ends, behind, noWord⟩

theorem noSecondWord_cons {c : Char} (noWord : isWordStart c = false) : NoSecondWord (c :: rest) := by
  refine .inl ?_
  rintro other ⟨⟩
  exact noWord

theorem noSecondWord_chars {e : Expr} (plain : e.Plain) (ends : goesOn rest = false)
    (behind : Shows rest next) (noWord : ∀ c ∈ next.head?, isWordStart c = false) :
    NoSecondWord (e.chars ++ rest) := by
  have operator : ∀ {c : Char} {rest : List Char}, isWordStart c = false →
      ∀ other ∈ (c :: rest).head?, isWordStart other = false := by
    rintro c rest noWord other ⟨⟩
    exact noWord
  induction plain generalizing rest next with
  | @int value nonneg fits =>
      rcases exists_toDigits_eq_cons value.toNat with ⟨c, tail, split, isDigit⟩
      rw [Expr.chars, Expr.bareText, toList_toString_of_nonneg nonneg, split]
      exact noSecondWord_cons (not_isWordStart_of_isDigit isDigit)
  | @float value nonneg _ _ _ finite =>
      rcases Binary64.exists_text_eq_cons nonneg finite with ⟨c, tail, split, isDigit⟩
      rw [Expr.chars, Expr.bareText, split]
      exact noSecondWord_cons (not_isWordStart_of_isDigit isDigit)
  | @bool value =>
      cases value with
      | true => exact noSecondWord_word (rfl : isWord "true" = true) ends behind noWord
      | false => exact noSecondWord_word (rfl : isWord "false" = true) ends behind noWord
  | var named => exact noSecondWord_word (isWord_of_isName named) ends behind noWord
  | @front op operand inFront inner tight apart _ =>
      rw [Expr.chars_front inFront tight apart]
      cases op with
      | negate | not | preIncrement | preDecrement => exact noSecondWord_cons (by decide)
      | postIncrement | postDecrement => cases inFront
  | @behind op operand isBehind inner tight inductionHypothesis =>
      rw [Expr.chars_behind isBehind tight, List.append_assoc]
      cases op with
      | postIncrement | postDecrement =>
          exact inductionHypothesis rfl (shows_cons rfl (by decide)) (operator (by decide))
      | negate | not | preIncrement | preDecrement => cases isBehind
  | @binary op lhs rhs left right tightLeft tightRight inductionHypothesis _ =>
      rw [Expr.chars_binary tightLeft tightRight, List.append_assoc]
      simp only [List.cons_append, List.append_assoc]
      refine inductionHypothesis rfl (shows_space_iff.mpr (shows_symbol op _)) ?_
      cases op <;> exact operator (by decide)
  | @assign op target value written read tight inductionHypothesis _ =>
      rw [Expr.chars_assign tight, List.append_assoc]
      simp only [List.cons_append, List.append_assoc]
      refine inductionHypothesis rfl (shows_space_iff.mpr (shows_assignSymbol op _)) ?_
      cases op <;> exact operator (by decide)
  | ternary tested first second tightCond tightFalse inductionHypothesis _ _ =>
      rw [Expr.chars_ternary tightCond tightFalse, List.append_assoc]
      exact inductionHypothesis rfl (shows_space_iff.mpr (shows_cons rfl (by decide)))
        (operator (by decide))
  | call called passed _ =>
      rw [Expr.chars_call, List.append_assoc]
      exact noSecondWord_word (isWord_of_isCallee called) rfl (shows_cons rfl (by decide))
        (operator (by decide))
  | member inner tight notInt selected inductionHypothesis =>
      rw [Expr.chars_member tight, List.append_assoc]
      exact inductionHypothesis rfl (shows_cons rfl (by decide)) (operator (by decide))
  | index inner position tight inductionHypothesis _ =>
      rw [Expr.chars_index tight, List.append_assoc]
      exact inductionHypothesis rfl (shows_cons rfl (by decide)) (operator (by decide))
  | paren enclosed _ =>
      rw [Expr.chars_paren]
      exact noSecondWord_cons (by decide)

/-- Without a second word there is no declaration. -/
theorem exists_declStmt_eq_error (fuel : Nat) {chars : List Char} (shown : Shows input chars)
    (noConst : behindKeyword? "const" chars = none) (single : NoSecondWord chars) :
    ∃ stop, declStmt fuel input = .error stop := by
  unfold declStmt
  rw [Reader.bind_eq_of_ok shown.gap_eq, Reader.bind_eq_of_ok (atKeyword_eq_false noConst)]
  show ∃ stop, (pure none >>= _ : Reader Stmt) _ = .error stop
  rw [Reader.pure_bind]
  rcases single with noWord | ⟨name, rest, next, rfl, isName, ends, behind, noWord⟩
  · refine ⟨_, Reader.bind_eq_of_error (?_ : _ = Except.error ⟨.unexpected, chars⟩)⟩
    unfold typeName
    rw [Reader.get_bind]
    exact Reader.bind_eq_of_error (shown.self.word_eq_error noWord)
  · have isWordEq := shown.self.word_eq isName ends
    cases isKeyword : isReserved name with
    | true =>
        refine ⟨_, Reader.bind_eq_of_error (?_ : _ = Except.error ⟨.unexpected, name.toList ++ rest⟩)⟩
        unfold typeName
        rw [Reader.get_bind, Reader.bind_eq_of_ok isWordEq, isKeyword]
        rfl
    | false =>
        have isType : typeName (name.toList ++ rest) = .ok (Ty.ofName name, rest) := by
          unfold typeName
          rw [Reader.get_bind, Reader.bind_eq_of_ok isWordEq, isKeyword]
          rfl
        have noName : identifier rest = .error ⟨.unexpected, next⟩ := by
          unfold identifier
          rw [Reader.get_bind]
          exact Reader.bind_eq_of_error (behind.word_eq_error noWord)
        dsimp only
        rw [Reader.bind_eq_of_ok isType, Reader.bind_eq_of_error noName]
        exact ⟨_, rfl⟩

theorem exprStmt_eq {e : Expr} (readable : e.Readable) (count : e.text.toList.length < fuel)
    (shown : Shows input (e.text.toList ++ ';' :: rest)) :
    exprStmt fuel input = .ok (.expr .unnumbered e.asRead, rest) := by
  have shownEnd : Shows (';' :: rest) (';' :: rest) := shows_mark (by decide)
  unfold exprStmt
  rw [Reader.bind_eq_of_ok (expression_eq readable count shown rfl shownEnd rfl),
    Reader.bind_eq_of_ok token_semicolon]
  rfl

theorem text_eq_chars (e : Expr) : e.text.toList = e.asRead.chars := by
  rw [Expr.chars, Expr.bareText_asRead, ← Expr.text_eq_bareText]

/-- Apart from the two truth values, no keyword is the first word of the text of
an expression. -/
theorem behindKeyword?_text {e : Expr} (readable : e.Readable) (name : String)
    (listed : name ∈ reserved) (notTrue : name ≠ "true") (notFalse : name ≠ "false")
    (ends : goesOn rest = false) : behindKeyword? name (e.text.toList ++ rest) = none := by
  have notCalled : isCallee name = false := by
    have isKeyword : isReserved name = true := List.contains_iff_mem.mpr listed
    rw [isCallee, isKeyword, Bool.not_true, Bool.and_false, Bool.false_and]
  rw [text_eq_chars]
  exact readable.plain_asRead.behindKeyword?_eq_none (isWord_of_mem_reserved listed) notTrue notFalse
    notCalled ends

theorem simpleStmt_expr_eq {e : Expr} (readable : e.Readable)
    (count : e.text.toList.length < fuel) (shown : Shows input (e.text.toList ++ ';' :: rest)) :
    simpleStmt fuel input = .ok (.expr .unnumbered e.asRead, rest) := by
  have single : NoSecondWord (e.text.toList ++ ';' :: rest) := by
    have shownEnd : Shows (';' :: rest) (';' :: rest) := shows_cons rfl (by decide)
    rw [text_eq_chars]
    refine noSecondWord_chars readable.plain_asRead rfl shownEnd ?_
    rintro c ⟨⟩
    decide
  have noConst : behindKeyword? "const" (e.text.toList ++ ';' :: rest) = none :=
    behindKeyword?_text readable "const" (by decide) (by decide) (by decide) rfl
  rcases exists_declStmt_eq_error fuel shown noConst single with ⟨stop, fails⟩
  exact (Reader.either_eq_second fails).trans (exprStmt_eq readable count shown)

theorem simpleStmt_decl_eq {fits : Expr → Bool} (readable : FitToRead fits) {var : VarDecl}
    (printable : var.isPrintableLocal fits = true) (count : var.text.toList.length < fuel)
    (shown : Shows input (var.text.toList ++ rest)) :
    ∃ var', simpleStmt fuel input = .ok (.decl .unnumbered var', rest) ∧
      var.Alike (ReadAs fits) var' := by
  rcases declStmt_eq readable printable count shown with ⟨var', isRead, alike⟩
  exact ⟨var', Reader.either_eq_first isRead, alike⟩

end Parse
end Whittle
