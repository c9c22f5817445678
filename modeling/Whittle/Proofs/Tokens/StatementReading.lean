import Whittle.Proofs.Tokens.ExpressionReading

namespace Whittle
namespace Parse

/-!
# What statements and declarations are read from

Every statement begins where nothing stands in front that an operator could stand behind, and
leaves such a place behind.  So the readers of statements pass on what they read whatever
statements stand in front.
-/

variable {input chars rest : List Char} {p : Progress} {fuel : Nat}

theorem text_ofName (name : String) : (Ty.ofName name).text = name := by
  unfold Ty.ofName
  cases isKeyword : Ty.ofKeyword? name with
  | none => rfl
  | some ty =>
      have named := List.find?_some isKeyword
      exact beq_iff_eq.mp named

/-- The name of a type is said, unless it is the only thing between parentheses. -/
theorem spells_typeName (notPoint : p.scan.front ≠ .point) :
    SpellsIf (fun _ rest => (tokens rest).head? ≠ some (.mark ")")) p typeName fun ty =>
      p.say [ty.text] .operand := by
  intro input rest ty isRead notClosed
  rcases readsWord_of_typeName isRead with ⟨name, read, free, rfl⟩
  have notIn : name ≠ "in" := by
    rintro rfl
    cases free
  have said : p.scan.isIdle (.word name) (tokens rest).head? = false := by
    rw [TokenScan.isIdle, beq_false_of_ne notIn, beq_false_of_ne notClosed, Bool.and_false]
    rfl
  rw [read.total_eq said, behind_word name notPoint, frontBehind_of_isReserved free]
  dsimp only
  rw [text_ofName]

/-- A type and a name behind it are said, and so is what is behind them. -/
theorem spells_typed {α : Type} {second : Ty → String → Reader α} {p' : α → Progress}
    (notPoint : p.scan.front ≠ .point)
    (behind : ∀ ty name, Spells (p.say [ty.text, name] .operand) (second ty name) p') :
    Spells p (do
      let ty ← typeName
      let name ← identifier
      second ty name) p' := by
  refine (spells_typeName notPoint).bind ?_ fun ty =>
    (spells_identifier (by simp)).bind fun name => ?_
  · intro ty input rest b isRead
    rcases Reader.bind_eq_ok_iff.mp isRead with ⟨name, left, isName, _⟩
    rw [(readsWord_of_identifier isName).1.tokens_eq]
    simp
  · rw [Progress.say_say]
    exact behind ty name

/-- An equals sign in front of an expression is a mark of its own. -/
theorem spells_equals : SpellsIf (fun _ rest => rest.head? ≠ some '=') p (token "=") fun _ =>
    p.say ["="] .start := by
  intro input rest a isRead apart
  have found : firstToken? ('=' :: rest) = some (.mark "=", rest) := by
    refine firstToken?_lone rfl fun d isHead => ?_
    have noEquals : d ≠ '=' := by
      rintro rfl
      exact apart isHead
    exact isPair_eq_false noEquals noEquals
  exact Progress.total_of_token (tokens_of_token_eq (c := '=') rfl found isRead) (.inr rfl)

theorem spells_variableRest (qualifier : Option Qualifier) (ty : Ty) (name : String)
    {words : List String} (said : words = (qualifier.map Qualifier.keyword).toList ++ [ty.text, name]) :
    Spells (p.say words .operand) (variableRest fuel qualifier ty name) fun var =>
      p.say var.words .start := by
  have behind : ∀ (init : Option Expr) (front : Front),
      Spells (p.say (words ++ Expr.wordsOfInit init) front) (do
        token ";"
        return ⟨.unnumbered, qualifier, ty, name, init⟩ : Reader VarDecl) fun var =>
          p.say var.words .start := by
    intro init front
    refine (spells_token (c := ';') rfl (by decide)).bind fun _ => .pure ?_
    have semicolon : (p.say (words ++ Expr.wordsOfInit init) front).behind (.mark ";") =
        (p.say (words ++ Expr.wordsOfInit init) front).say [";"] .start := rfl
    rw [semicolon, Progress.say_say, VarDecl.words, said]
    simp
  refine (spells_atToken "=").bind fun isInit => .ite (fun _ => ?_) fun _ => .pure_bind ?_
  · refine spells_equals.bind ?_ fun _ => (spells_expression fuel rfl).bind fun e => .pure_bind ?_
    · intro _ input rest var isRead
      rcases Reader.bind_eq_ok_iff.mp isRead with ⟨_, _, isValue, _⟩
      exact head?_ne_of_expression isValue
    · rw [Progress.say_say, Progress.say_say]
      exact behind (some e) _
  · have none := behind none .operand
    rwa [Expr.wordsOfInit, List.append_nil] at none

/-- What a declaration statement says.  It may begin a statement or the header of a loop. -/
theorem spells_declStmt {p' : Stmt → Progress} (awaits : p.scan.front.awaits = true)
    (same : ∀ var, p' (.decl .unnumbered var) = p.say var.words .start) :
    Spells p (declStmt fuel) p' := by
  have notPoint : p.scan.front ≠ .point := Front.ne_of_awaits awaits rfl
  have behind : ∀ (qualifier : Option Qualifier) (q : Progress), q.scan.front ≠ .point →
      (∀ words, q.say words .operand =
        p.say ((qualifier.map Qualifier.keyword).toList ++ words) .operand) →
      Spells q (do
        let ty ← typeName
        let name ← identifier
        let var ← variableRest fuel qualifier ty name
        return Stmt.decl .unnumbered var) p' := by
    intro qualifier q notPoint said
    refine spells_typed notPoint fun ty name => ?_
    rw [said]
    exact (spells_variableRest qualifier ty name rfl).bind fun var => .pure (same var).symm
  refine spells_gap.bind fun _ => (spells_atKeyword _).bind fun _ => .ite (fun _ => ?_) fun _ => ?_
  · refine (spells_keyword rfl (.inl ⟨by decide, by decide⟩) notPoint).bind fun _ =>
      .pure_bind (behind (some .const) _ ?_ fun words => Progress.say_say _ _ _ _)
    rw [Progress.front_say]
    decide
  · exact .pure_bind (behind none p notPoint fun _ => rfl)

/-- What a declaration or an expression says with its semicolon. -/
theorem spells_simpleStmt {p' : Stmt → Progress} (awaits : p.scan.front.awaits = true)
    (ofDecl : ∀ var, p' (.decl .unnumbered var) = p.say var.words .start)
    (ofExpr : ∀ e, p' (.expr .unnumbered e) = p.say (e.words ++ [";"]) .start) :
    Spells p (simpleStmt fuel) p' := by
  refine .either (spells_declStmt awaits ofDecl) ((spells_expression fuel awaits).bind fun e =>
    (spells_token (c := ';') rfl (by decide)).bind fun _ => .pure ?_)
  rw [ofExpr, ← Progress.say_say]
  rfl

theorem spells_expressionUnless (closing : String) (awaits : p.scan.front.awaits = true) :
    Spells p (expressionUnless closing fuel) p.sayOption :=
  (spells_atToken closing).bind fun _ => .ite (fun _ => .pure rfl) fun _ =>
    (spells_expression fuel awaits).bind fun _ => .pure rfl

/-- An expression that may be missing is said with the semicolon behind it. -/
theorem spells_semicolon (e? : Option Expr) :
    Spells (p.sayOption e?) (token ";") fun _ => p.say (Stmt.wordsOfOption e? ++ [";"]) .start := by
  rcases p.exists_sayOption_eq e? with ⟨front, same⟩
  have said : Spells (p.sayOption e?) (token ";") fun _ => (p.sayOption e?).say [";"] .start :=
    spells_token (c := ';') rfl (by decide)
  rw [same, Progress.say_say] at said
  rwa [same]

theorem spells_loopInit (awaits : p.scan.front.awaits = true) :
    Spells p (loopInit fuel) fun init => p.say (Stmt.wordsOfInit init) .start := by
  refine (spells_atToken ";").bind fun _ => .ite (fun _ => ?_) fun _ => ?_
  · exact (spells_token (c := ';') rfl (by decide)).bind fun _ => .pure rfl
  · have simple : Spells p (simpleStmt fuel) fun s => p.say (Stmt.wordsOfInit (some s)) .start :=
      spells_simpleStmt awaits (fun _ => rfl) fun _ => rfl
    exact simple.bind fun s => .pure rfl

/-- The word of a statement and the expression in its header, behind which nothing stands. -/
theorem spells_header {α : Type} {name : String} (isHeader : name ∈ ["if", "while", "switch"])
    {second : Expr → Reader α} {p' : α → Progress} (here : p.scan.front = .start)
    (behind : ∀ e, Spells (p.say (name :: e.words) .start) (second e) p') :
    Spells p (do
      keyword name
      token "("
      let e ← expression fuel
      token ")"
      second e) p' := by
  have isWord : ∀ name ∈ ["if", "while", "switch"], isWord name = true ∧
      (name ≠ "in" ∧ name ≠ "void") ∧ TokenScan.frontBehind name = .header := by
    decide
  rcases isWord name isHeader with ⟨isName, said, isFront⟩
  refine (spells_keyword isName (.inl said) (by rw [here]; decide)).bind fun _ => ?_
  refine (spells_token (c := '(') rfl (by decide)).bind fun _ => ?_
  rw [isFront, Progress.behind_openParen]
  refine (spells_expression fuel rfl).bind fun e => (spells_token (c := ')') rfl (by decide)).bind
    fun _ => ?_
  rw [Progress.behind_closeParen, Progress.front_say, if_pos rfl, Progress.say_say]
  exact behind e

/-- What a text begins with is shown, if it belongs to no blank or comment. -/
theorem head?_ne_of_shows {c : Char} (notBlank : Text.isTokenBlank c = false) (notSlash : c ≠ '/')
    (shown : Shows input chars) (differ : chars.head? ≠ some c) : input.head? ≠ some c := by
  rcases input with _ | ⟨first, tail⟩
  · nofun
  · rintro ⟨⟩
    rw [← (shows_cons notBlank notSlash).unique shown] at differ
    exact differ rfl

/-- Digits do not begin a float literal if a colon follows them. -/
theorem floatText?_eq_none_of_colon {digits tail : List Char}
    (areDigits : digits? chars = some (digits, rest)) (behind : Shows rest (':' :: tail)) :
    floatText? chars = none := by
  have differ : ∀ c ∈ ['.', 'e', 'E'], rest.head? ≠ some c := by
    intro c listed
    simp only [List.mem_cons, List.not_mem_nil, or_false] at listed
    rcases listed with rfl | rfl | rfl <;> exact head?_ne_of_shows rfl (by decide) behind (by simp)
  refine floatText?_eq_none areDigits (differ '.' (by decide)) ?_
  cases rest with
  | nil => rfl
  | cons c left =>
      have noMark : ¬(c == 'e' || c == 'E') = true := by
        rw [Bool.or_eq_true, beq_iff_eq, beq_iff_eq]
        rintro (rfl | rfl)
        · exact differ 'e' (by decide) rfl
        · exact differ 'E' (by decide) rfl
      exact exponent?_of_not noMark left

theorem tokens_of_minusSign {negative : Bool} (isRead : minusSign input = .ok (negative, rest))
    {digits left : List Char} (shown : Shows rest chars)
    (areDigits : digits? chars = some (digits, left)) :
    tokens input = if negative then .mark "-" :: tokens rest else tokens rest := by
  rcases Reader.bind_eq_ok_iff.mp isRead with ⟨_, between, isGap, isRead⟩
  have shownSign := shows_of_gap_eq isGap
  rw [Reader.get_bind] at isRead
  split at isRead
  · cases isRead
    rcases head?_of_digits? areDigits with ⟨first, tail, rfl, isDigit⟩
    have differ : ∀ c : Char, c.isDigit = false → chars.head? ≠ some c := by
      rintro c notDigit same
      rw [eq_append_of_digits? areDigits] at same
      cases same
      rw [isDigit] at notDigit
      cases notDigit
    have noMinus : rest.head? ≠ some '-' := head?_ne_of_shows rfl (by decide) shown (differ '-' rfl)
    have noEquals : rest.head? ≠ some '=' := head?_ne_of_shows rfl (by decide) shown (differ '=' rfl)
    refine tokens_eq_cons shownSign (firstToken?_lone rfl fun d isHead => isPair_eq_false ?_ ?_)
    · rintro rfl
      exact noEquals isHead
    · rintro rfl
      exact noMinus isHead
  · cases isRead
    exact shownSign.tokens_eq

/-- The number of a label is said with its sign. -/
theorem spells_labelNumber (here : p.scan.front = .label) :
    SpellsIf (fun _ rest => ∃ tail, Shows rest (':' :: tail)) p labelNumber fun number =>
      p.say [toString number] .operand := by
  rintro input rest number isRead ⟨tail, behind⟩
  rcases Reader.bind_eq_ok_iff.mp isRead with ⟨negative, between, isSign, isRead⟩
  rcases Reader.bind_eq_ok_iff.mp isRead with ⟨_, chars, isGap, isRead⟩
  have shown := shows_of_gap_eq isGap
  rw [Reader.get_bind] at isRead
  cases areDigits : digits? chars with
  | none =>
      rw [areDigits] at isRead
      cases isRead
  | some read =>
      rcases read with ⟨digits, left⟩
      rw [areDigits] at isRead
      dsimp only at isRead
      rw [Reader.set_bind] at isRead
      split at isRead
      · rcases Reader.pure_eq_ok_iff.mp isRead with ⟨isNumber, rfl⟩
        have ofDigits : ∀ q : Progress,
            q.total true between = (q.behind (.int digits)).total true left :=
          fun q => Progress.total_of_token (tokens_eq_cons shown
            (firstToken?_int (floatText?_eq_none_of_colon areDigits behind) areDigits)) (.inr rfl)
        have areTokens := tokens_of_minusSign isSign shown areDigits
        rw [← isNumber]
        cases negative with
        | true =>
            rw [Progress.total_of_token (p := p) areTokens (.inr (not_isIdle_mark (by rw [here]; rfl))),
              ofDigits]
            simp [Progress.behind, Progress.say, TokenScan.behind, TokenScan.spell, here]
        | false =>
            have same : p.total true input = p.total true between := by
              rw [Progress.total, Progress.total, areTokens]
              rfl
            rw [same, ofDigits]
            simp [Progress.behind, Progress.say, TokenScan.behind, TokenScan.spell, here]
      · cases isRead

theorem spells_caseLabel (here : p.scan.front = .start) :
    Spells p caseLabel fun label => p.say label.words .start := by
  have notPoint : p.scan.front ≠ .point := by rw [here]; decide
  refine spells_gap.bind fun _ => (spells_atKeyword _).bind fun _ => .ite (fun _ => ?_) fun _ => ?_
  · refine (spells_keyword rfl (.inl ⟨by decide, by decide⟩) notPoint).bind fun _ => .pure_bind ?_
    refine (spells_token (c := ':') rfl (by decide)).bind fun _ => .pure ?_
    exact Progress.say_say _ _ _ _
  · refine (spells_keyword rfl (.inl ⟨by decide, by decide⟩) notPoint).bind fun _ =>
      (spells_labelNumber rfl).bind ?_ fun number => .pure_bind ?_
    · intro number input rest label isRead
      rw [Reader.pure_bind] at isRead
      rcases Reader.bind_eq_ok_iff.mp isRead with ⟨_, left, isToken, _⟩
      exact ⟨left, shows_of_token_eq isToken⟩
    · refine (spells_token (c := ':') rfl (by decide)).bind fun _ => .pure ?_
      rw [Progress.say_say]
      exact Progress.say_say _ _ _ _

theorem spells_atCaseEnd : Spells p atCaseEnd fun _ => p := by
  refine .behindGap fun chars rest ends shown isRead => ?_
  split at isRead
  · cases isRead
    rfl
  · cases isRead
    rfl
  · have ofLabel : Spells p (do return (← atKeyword "case") || (← atKeyword "default")) fun _ => p :=
      (spells_atKeyword _).bind fun _ => (spells_atKeyword _).bind fun _ => .pure rfl
    exact ofLabel isRead

/-! ## Statements -/

section

variable {inner : Reader Stmt} (spellsInner : ∀ {p : Progress}, p.scan.front = .start →
  Spells p inner fun s => p.say s.words .start)
include spellsInner

theorem spells_stmts {closed : Reader Bool} (quiet : ∀ p, Spells p closed fun _ => p)
    (here : p.scan.front = .start) :
    Spells p (Reader.manyUntil closed inner fuel) fun stmts =>
      p.say (Stmt.wordsOfList stmts) .start := by
  simp only [Stmt.wordsOfList_eq_flatMap]
  exact .manyUntil quiet (fun _ here => spellsInner here) fuel here

theorem spells_braced : Spells p (braced inner fuel) fun stmts =>
    p.say ("\x7b" :: (Stmt.wordsOfList stmts ++ ["\x7d"])) .start := by
  refine (spells_token (c := '\x7b') rfl (by decide)).bind fun _ =>
    (spells_stmts spellsInner (fun p => spells_atToken _) rfl).bind fun stmts =>
      (spells_token (c := '\x7d') rfl (by decide)).bind fun _ => .pure ?_
  have opens : p.behind (.mark "\x7b") = p.say ["\x7b"] .start := rfl
  rw [opens, Progress.say_say]
  exact Progress.say_say _ _ _ _

section

variable (here : p.scan.front = .start)
include here

theorem spells_branchStmt : Spells p (branchStmt inner fuel) fun s => p.say s.words .start := by
  refine spells_header (by decide) here fun cond => (spellsInner rfl).bind fun whenTrue =>
    spells_gap.bind fun _ => (spells_atKeyword _).bind fun _ => .ite (fun _ => ?_) fun _ => .pure ?_
  · refine (spells_keyword rfl (.inl ⟨by decide, by decide⟩) (by simp)).bind fun _ =>
      (spellsInner rfl).bind fun whenFalse => .pure ?_
    simp [Stmt.words, Stmt.wordsOfElse]
  · simp [Stmt.words, Stmt.wordsOfElse]

theorem spells_forStmt : Spells p (forStmt inner fuel) fun s => p.say s.words .start := by
  refine (spells_keyword rfl (.inl ⟨by decide, by decide⟩) (by rw [here]; decide)).bind fun _ =>
    (spells_token (c := '(') rfl (by decide)).bind fun _ => ?_
  rw [Progress.behind_openParen]
  refine (spells_loopInit rfl).bind fun init => (spells_expressionUnless _ rfl).bind fun cond =>
    (spells_semicolon cond).bind fun _ => (spells_expressionUnless _ rfl).bind fun step => ?_
  rw [Progress.say_say]
  rcases Progress.exists_sayOption_eq (p.say ["for"] .header |>.opening.say
    (Stmt.wordsOfInit init ++ (Stmt.wordsOfOption cond ++ [";"])) .start) step with ⟨front, same⟩
  refine (spells_token (c := ')') rfl (by decide)).bind fun _ => ?_
  rw [show TokenScan.frontBehind "for" = .header from rfl, same, Progress.say_say,
    Progress.behind_closeParen, Progress.front_say, if_pos rfl, Progress.say_say]
  refine (spellsInner rfl).bind fun body => .pure ?_
  simp [Stmt.words]

theorem spells_whileStmt : Spells p (whileStmt inner fuel) fun s => p.say s.words .start := by
  refine spells_header (by decide) here fun cond => (spellsInner rfl).bind fun body => .pure ?_
  simp [Stmt.words]

theorem spells_switchCase : Spells p (switchCase inner fuel) fun one => p.say one.words .start :=
  (spells_caseLabel here).bind fun _ =>
    (spells_stmts spellsInner (fun _ => spells_atCaseEnd) rfl).bind fun _ =>
      .pure (Progress.say_say _ _ _ _)

theorem spells_switchStmt : Spells p (switchStmt inner fuel) fun s => p.say s.words .start := by
  refine spells_header (by decide) here fun selector =>
    (spells_token (c := '\x7b') rfl (by decide)).bind fun _ =>
      (Spells.manyUntil (fun p => spells_atToken _) (fun _ here => spells_switchCase spellsInner here)
        fuel rfl).bind fun cases => (spells_token (c := '\x7d') rfl (by decide)).bind fun _ => .pure ?_
  have opens : ∀ q : Progress, q.behind (.mark "\x7b") = q.say ["\x7b"] .start := fun _ => rfl
  have closes : ∀ q : Progress, q.behind (.mark "\x7d") = q.say ["\x7d"] .start := fun _ => rfl
  rw [opens, closes]
  simp [Stmt.words, Stmt.wordsOfCases_eq_flatMap]

omit spellsInner in
theorem spells_returnStmt : Spells p (returnStmt fuel) fun s => p.say s.words .start := by
  refine (spells_keyword rfl (.inl ⟨by decide, by decide⟩) (by rw [here]; decide)).bind fun _ =>
    (spells_expressionUnless _ rfl).bind fun value => (spells_semicolon value).bind fun _ => .pure ?_
  exact Progress.say_say _ _ _ _

omit spellsInner in
theorem spells_wordStmt {name : String} (listed : name ∈ ["break", "continue", "discard"]) {s : Stmt}
    (same : s.words = [name, ";"]) : Spells p (wordStmt name s) fun s => p.say s.words .start := by
  have isWord : ∀ name ∈ ["break", "continue", "discard"], isWord name = true ∧
      name ≠ "in" ∧ name ≠ "void" := by
    decide
  rcases isWord name listed with ⟨isName, said⟩
  refine (spells_keyword isName (.inl said) (by rw [here]; decide)).bind fun _ =>
    (spells_token (c := ';') rfl (by decide)).bind fun _ => .pure ?_
  rw [same]
  exact Progress.say_say _ _ _ _

theorem spells_wordedStmt : Spells p (wordedStmt inner fuel) fun s => p.say s.words .start := by
  have awaits : p.scan.front.awaits = true := by rw [here]; rfl
  refine (spells_atKeyword _).bind fun _ =>
    .ite (fun _ => spells_branchStmt spellsInner here) fun _ => ?_
  refine (spells_atKeyword _).bind fun _ => .ite (fun _ => spells_forStmt spellsInner here) fun _ => ?_
  refine (spells_atKeyword _).bind fun _ =>
    .ite (fun _ => spells_whileStmt spellsInner here) fun _ => ?_
  refine (spells_atKeyword _).bind fun _ =>
    .ite (fun _ => spells_switchStmt spellsInner here) fun _ => ?_
  refine (spells_atKeyword _).bind fun _ => .ite (fun _ => spells_returnStmt here) fun _ => ?_
  refine (spells_atKeyword _).bind fun _ =>
    .ite (fun _ => spells_wordStmt here (by decide) rfl) fun _ => ?_
  refine (spells_atKeyword _).bind fun _ =>
    .ite (fun _ => spells_wordStmt here (by decide) rfl) fun _ => ?_
  exact (spells_atKeyword _).bind fun _ => .ite (fun _ => spells_wordStmt here (by decide) rfl) fun _ =>
    spells_simpleStmt awaits (fun _ => rfl) fun _ => rfl

theorem spells_statementWith : Spells p (statementWith inner fuel) fun s => p.say s.words .start := by
  refine .behindGap fun chars rest s shown isRead => ?_
  split at isRead
  · have ofBlock : Spells p (do
        let stmts ← braced inner fuel
        return Stmt.block .unnumbered .unnumbered stmts) fun s => p.say s.words .start :=
      (spells_braced spellsInner).bind fun stmts => .pure rfl
    exact ofBlock isRead
  · cases isRead
    exact Progress.total_of_token
      (tokens_eq_cons shown (firstToken?_of_mem_loneMarks (by decide))) (.inr rfl)
  · exact spells_wordedStmt spellsInner here isRead

end

end

/-- A statement says what it was read from. -/
theorem spells_statement (fuel : Nat) {p : Progress} (here : p.scan.front = .start) :
    Spells p (statement fuel) fun s => p.say s.words .start := by
  induction fuel generalizing p with
  | zero => exact .fail _
  | succ fuel inductionHypothesis => exact spells_statementWith inductionHypothesis here

/-!
## Declarations

What the reader passes over in declarations stands in front of parameters or between the
parentheses of none.
-/

/-- The name of a type with a semicolon behind it. -/
theorem spells_typeOnly {α : Type} {result : Ty → α} {p' : α → Progress}
    (notPoint : p.scan.front ≠ .point) (same : ∀ ty, p' (result ty) = p.say [ty.text, ";"] .start) :
    Spells p (do
      let ty ← typeName
      token ";"
      return result ty) p' := by
  refine (spells_typeName notPoint).bind ?_ fun ty =>
    (spells_token (c := ';') rfl (by decide)).bind fun _ => .pure ?_
  · intro ty input rest a isRead
    rcases Reader.bind_eq_ok_iff.mp isRead with ⟨_, left, isToken, _⟩
    rw [tokens_of_token_eq (c := ';') rfl (firstToken?_of_mem_loneMarks (by decide)) isToken]
    simp
  · rw [same]
    exact Progress.say_say _ _ _ _

theorem spells_precisionDecl (here : p.scan.front = .start) :
    Spells p precisionDecl fun decl => p.say decl.words .start := by
  have behind : ∀ precision : Precision,
      Spells ((p.say ["precision"] .operand).say [precision.keyword] .operand) (do
        let ty ← typeName
        token ";"
        return Decl.precision ⟨.unnumbered, precision, ty⟩) fun decl => p.say decl.words .start := by
    intro precision
    refine spells_typeOnly (by simp) fun ty => ?_
    rw [Progress.say_say, Progress.say_say]
    rfl
  have word : ∀ (q : Progress) (precision : Precision), q.scan.front = .operand →
      Spells q (keyword precision.keyword) fun _ => q.say [precision.keyword] .operand := by
    intro q precision here
    have notPoint : q.scan.front ≠ .point := by rw [here]; decide
    cases precision <;> exact spells_keyword rfl (.inl ⟨by decide, by decide⟩) notPoint
  refine (spells_keyword rfl (.inl ⟨by decide, by decide⟩) (by rw [here]; decide)).bind fun _ =>
    spells_gap.bind fun _ => (spells_atKeyword _).bind fun _ => (spells_atKeyword _).bind fun _ => ?_
  refine .ite (fun _ => ?_) fun _ => .ite (fun _ => ?_) fun _ => ?_
  · exact (word _ .low rfl).bind fun _ => .pure_bind (behind .low)
  · exact (word _ .medium rfl).bind fun _ => .pure_bind (behind .medium)
  · exact (word _ .high rfl).bind fun _ => .pure_bind (behind .high)

theorem spells_structField (here : p.scan.front = .start) :
    Spells p structField fun field => p.say field.words .start := by
  refine spells_typed (by rw [here]; decide) fun ty name =>
    (spells_token (c := ';') rfl (by decide)).bind fun _ => .pure ?_
  exact Progress.say_say _ _ _ _

theorem spells_structDecl (here : p.scan.front = .start) :
    Spells p (structDecl fuel) fun decl => p.say decl.words .start := by
  refine (spells_keyword rfl (.inl ⟨by decide, by decide⟩) (by rw [here]; decide)).bind fun _ =>
    (spells_identifier (by rw [Progress.front_say]; decide)).bind fun name =>
      (spells_token (c := '\x7b') rfl (by decide)).bind fun _ =>
        (Spells.manyUntil (fun p => spells_atToken _) (fun _ here => spells_structField here) fuel
          rfl).bind fun fields => (spells_token (c := '\x7d') rfl (by decide)).bind fun _ =>
            (spells_token (c := ';') rfl (by decide)).bind fun _ => .pure ?_
  have mark : ∀ (q : Progress) (text : String), text ∈ ["\x7b", "\x7d", ";"] →
      q.behind (.mark text) = q.say [text] .start := by
    intro q text listed
    simp only [List.mem_cons, List.not_mem_nil, or_false] at listed
    rcases listed with rfl | rfl | rfl <;> rfl
  rw [mark _ _ (by decide), mark _ _ (by decide), mark _ _ (by decide)]
  simp [Decl.words]

/-- The word `in` in front of a parameter is passed over. -/
theorem spells_parameter (here : p.scan.front = .opening ∨ p.scan.front = .comma) :
    Spells p parameter fun param => p.say param.words .operand := by
  have notPoint : p.scan.front ≠ .point := by rcases here with here | here <;> rw [here] <;> decide
  have typed : Spells p (do
      let ty ← typeName
      let name ← identifier
      return (⟨.unnumbered, ty, name⟩ : Param)) fun param => p.say param.words .operand :=
    spells_typed notPoint fun ty name => .pure rfl
  have passed : Spells p (keyword "in") fun _ => p := by
    intro input rest a isRead
    refine Progress.total_of_idle (readsWord_of_keyword rfl isRead).tokens_eq ?_
    rcases here with here | here <;> rw [TokenScan.isIdle, here] <;> rfl
  refine spells_gap.bind fun _ => (spells_atKeyword _).bind fun _ => .ite (fun _ => ?_) fun _ => ?_
  · exact passed.bind fun _ => typed
  · exact .pure_bind typed

/-- The body of a function behind its parameters. -/
theorem spells_body (returnTy : Ty) (name : String) (params : List Param) :
    Spells ((p.say [returnTy.text, name] .operand).opening.sayItems Param.words params) (do
      token ")"
      let stmts ← braced (statement fuel) fuel
      return Decl.function ⟨.unnumbered, returnTy, name, params, ⟨.unnumbered, stmts⟩⟩) fun decl =>
        p.say decl.words .start := by
  refine (spells_token (c := ')') rfl (by decide)).bind fun _ => ?_
  rw [Progress.behind_closeParen_sayItems (by simp)]
  refine (spells_braced (spells_statement fuel)).bind fun stmts => .pure ?_
  rw [Progress.say_say, Progress.say_say]
  rfl

theorem spells_functionRest (returnTy : Ty) (name : String) :
    Spells (p.say [returnTy.text, name] .operand) (functionRest fuel returnTy name) fun decl =>
      p.say decl.words .start := by
  generalize inside : (p.say [returnTy.text, name] .operand).opening = q
  have opens : q.scan.front = .opening := by rw [← inside]; rfl
  have body := @spells_body p fuel returnTy name
  rw [inside] at body
  have listed : Spells q (Reader.either (parameterList fuel) (pure [])) (q.sayItems Param.words) :=
    .either (spells_items (spells_parameter (.inl opens))
      (fun _ here => spells_parameter (.inr here)) fuel) (.pure rfl)
  have none : SpellsIf (fun _ rest => (tokens rest).head? = some (.mark ")")) q (keyword "void")
      fun _ => q := by
    intro input rest a isRead closes
    refine Progress.total_of_idle (readsWord_of_keyword rfl isRead).tokens_eq ?_
    rw [TokenScan.isIdle, opens, closes]
    rfl
  refine (spells_token (c := '(') rfl (by decide)).bind fun _ => ?_
  rw [Progress.behind_openParen, inside]
  refine spells_gap.bind fun _ => (spells_atKeyword _).bind fun _ => .ite (fun _ => ?_) fun _ => ?_
  · refine none.bind ?_ fun _ => .pure_bind (body [])
    intro _ input rest decl isRead
    rw [Reader.pure_bind] at isRead
    rcases Reader.bind_eq_ok_iff.mp isRead with ⟨_, left, isToken, _⟩
    rw [tokens_of_token_eq (c := ')') rfl (firstToken?_of_mem_loneMarks (by decide)) isToken]
    rfl
  · exact listed.bind body

def sayQualifier (p : Progress) : Option Qualifier → Progress
  | some storage => p.say [storage.keyword] .operand
  | none => p

theorem spells_qualifier (here : p.scan.front = .start) : Spells p qualifier (sayQualifier p) := by
  have word : ∀ storage : Qualifier, Spells p (do keyword storage.keyword; return some storage)
      (sayQualifier p) := by
    intro storage
    have notPoint : p.scan.front ≠ .point := by rw [here]; decide
    have said : p.scan.front ≠ .opening ∧ p.scan.front ≠ .comma := by rw [here]; decide
    cases storage <;> exact (spells_keyword rfl (.inr said) notPoint).bind fun _ => .pure rfl
  refine spells_gap.bind fun _ => ?_
  refine (spells_atKeyword _).bind fun _ => .ite (fun _ => word .const) fun _ => ?_
  refine (spells_atKeyword _).bind fun _ => .ite (fun _ => word .uniform) fun _ => ?_
  refine (spells_atKeyword _).bind fun _ => .ite (fun _ => word .input) fun _ => ?_
  exact (spells_atKeyword _).bind fun _ => .ite (fun _ => word .output) fun _ => .pure rfl

/-- A declaration says what it was read from. -/
theorem spells_declaration (here : p.scan.front = .start) :
    Spells p (declaration fuel) fun decl => p.say decl.words .start := by
  refine spells_gap.bind fun _ => (spells_atKeyword _).bind fun _ =>
    .ite (fun _ => spells_precisionDecl here) fun _ => ?_
  refine (spells_atKeyword _).bind fun _ => .ite (fun _ => spells_structDecl here) fun _ => ?_
  refine (spells_qualifier here).bind fun storage => ?_
  have notPoint : (sayQualifier p storage).scan.front ≠ .point := by
    cases storage with
    | none => rw [sayQualifier, here]; decide
    | some storage => rw [sayQualifier, Progress.front_say]; decide
  refine spells_typed notPoint fun ty name => ?_
  have typed : (sayQualifier p storage).say [ty.text, name] .operand =
      p.say ((storage.map Qualifier.keyword).toList ++ [ty.text, name]) .operand := by
    cases storage with
    | none => rfl
    | some storage => exact Progress.say_say _ _ _ _
  rw [typed]
  have ofVariable : Spells
      (p.say ((storage.map Qualifier.keyword).toList ++ [ty.text, name]) .operand) (do
      let var ← variableRest fuel storage ty name
      return Decl.global var) fun decl => p.say decl.words .start :=
    (spells_variableRest storage ty name rfl).bind fun var => .pure rfl
  cases storage with
  | none =>
      exact (spells_atToken _).bind fun isFunction =>
        .ite (fun _ => spells_functionRest ty name) fun _ => ofVariable
  | some storage => exact .pure_bind ofVariable

end Parse
end Whittle
