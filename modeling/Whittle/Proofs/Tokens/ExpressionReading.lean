import Whittle.Proofs.Tokens.Words

namespace Whittle
namespace Parse

/-!
# What expressions are read from

A reader makes a tree of the tokens that it consumes.  The tree says what they say, apart
from those that have no meaning: nothing is lost and nothing is added, whatever the layout
of the text is.

The readers of every strength pass on what they read: the operand that is there already is
what has been said, and the operator behind it and the operand behind that are said next.
-/

variable {input chars rest : List Char} {p : Progress}

/-- The tokens that the reader consumes lead from the progress `p` to `p'`. -/
def Spells {α : Type} (p : Progress) (reader : Reader α) (p' : α → Progress) : Prop :=
  ∀ ⦃input rest : List Char⦄ ⦃a : α⦄, reader input = .ok (a, rest) →
    p.total true input = (p' a).total true rest

/-- They do so if what has been read and what is left are as `Q` says. -/
def SpellsIf {α : Type} (Q : α → List Char → Prop) (p : Progress) (reader : Reader α)
    (p' : α → Progress) : Prop :=
  ∀ ⦃input rest : List Char⦄ ⦃a : α⦄, reader input = .ok (a, rest) → Q a rest →
    p.total true input = (p' a).total true rest

theorem SpellsIf.bind {α β : Type} {Q : α → List Char → Prop} {reader : Reader α}
    {second : α → Reader β} {between : α → Progress} {p' : β → Progress}
    (first : SpellsIf Q p reader between)
    (ensures : ∀ ⦃a input rest b⦄, second a input = .ok (b, rest) → Q a input)
    (behind : ∀ a, Spells (between a) (second a) p') : Spells p (reader >>= second) p' := by
  intro input rest b isRead
  rcases Reader.bind_eq_ok_iff.mp isRead with ⟨a, left, isFirst, isSecond⟩
  exact (first isFirst (ensures isSecond)).trans (behind a isSecond)

namespace Spells

variable {α β : Type} {p' : α → Progress}

theorem bind {reader : Reader α} {second : α → Reader β} {p'' : β → Progress}
    (first : Spells p reader p') (behind : ∀ a, Spells (p' a) (second a) p'') :
    Spells p (reader >>= second) p'' := by
  intro input rest b isRead
  rcases Reader.bind_eq_ok_iff.mp isRead with ⟨a, left, isFirst, isSecond⟩
  exact (first isFirst).trans (behind a isSecond)

theorem pure {a : α} (same : p = p' a) : Spells p (pure a) p' := by
  intro input rest b isRead
  rcases Reader.pure_eq_ok_iff.mp isRead with ⟨rfl, rfl⟩
  rw [same]

theorem pure_bind {second : α → Reader β} {p'' : β → Progress} {a : α}
    (behind : Spells p (second a) p'') : Spells p (Pure.pure a >>= second) p'' :=
  behind

theorem fail (cause : Cause) : Spells p (Reader.fail cause) p' :=
  fun _ _ _ isRead => nomatch isRead

theorem failAt (left : List Char) : Spells p (Reader.failAt left) p' :=
  fun _ _ _ isRead => nomatch isRead

theorem ite {yes no : Reader α} {test : Bool} (ofYes : test = true → Spells p yes p')
    (ofNo : test = false → Spells p no p') : Spells p (if test = true then yes else no) p' := by
  cases test with
  | true => exact ofYes rfl
  | false => exact ofNo rfl

theorem either {first second : Reader α} (ofFirst : Spells p first p') (ofSecond : Spells p second p') :
    Spells p (Reader.either first second) p' := by
  intro input rest a isRead
  unfold Reader.either at isRead
  split at isRead
  · rename_i isFirst
    cases isRead
    exact ofFirst isFirst
  · exact ofSecond isRead

/-- Where a reader starts matters for its failures alone. -/
theorem get {second : List Char → Reader α} (behind : ∀ start, Spells p (second start) p') :
    Spells p (MonadState.get >>= second) p' :=
  fun input _ _ isRead => behind input isRead

/-- A reader that skips a gap and looks at the text behind it.  It may go back. -/
theorem startGap {body : List Char → List Char → Reader α}
    (behind : ∀ input chars rest a, Shows input chars → body input chars chars = .ok (a, rest) →
      p.total true input = (p' a).total true rest) :
    Spells p (do
      let start ← MonadState.get
      gap
      body start (← MonadState.get)) p' := by
  intro input rest a isRead
  rw [Reader.get_bind] at isRead
  rcases Reader.bind_eq_ok_iff.mp isRead with ⟨_, chars, isGap, isRead⟩
  exact behind input chars rest a (shows_of_gap_eq isGap) isRead

/-- The same for a reader that does not go back. -/
theorem behindGap {body : List Char → Reader α}
    (behind : ∀ chars rest a, Shows chars chars → body chars chars = .ok (a, rest) →
      p.total true chars = (p' a).total true rest) :
    Spells p (do gap; body (← MonadState.get)) p' :=
  @startGap p α p' (fun _ => body) fun _ chars rest a shown isRead =>
    (Progress.total_of_shows shown).trans (behind chars rest a shown.self isRead)

/-- The items up to the end of a list are said one by one. -/
theorem manyUntil {closed : Reader Bool} {item : Reader α} {words : α → List String} {front : Front}
    (quiet : ∀ p, Spells p closed fun _ => p)
    (each : ∀ p : Progress, p.scan.front = front → Spells p item fun a => p.say (words a) front)
    (fuel : Nat) (here : p.scan.front = front) :
    Spells p (Reader.manyUntil closed item fuel) fun all => p.say (all.flatMap words) front := by
  induction fuel generalizing p with
  | zero => exact fail _
  | succ fuel inductionHypothesis =>
      rw [Reader.manyUntil]
      refine (quiet p).bind fun isClosed => ite (fun _ => pure (Progress.say_nil here).symm) fun _ => ?_
      refine (each p here).bind fun first => (inductionHypothesis rfl).bind fun others => pure ?_
      rw [Progress.say_say, List.flatMap_cons]

end Spells

theorem spells_gap : Spells p gap fun _ => p :=
  fun _ _ _ isRead => Progress.total_of_shows (shows_of_gap_eq isRead)

theorem spells_atToken (text : String) : Spells p (atToken text) fun _ => p :=
  fun _ _ _ isRead => Progress.total_of_shows (shows_of_atToken_eq isRead).1

theorem spells_atKeyword (name : String) : Spells p (atKeyword name) fun _ => p := by
  intro input rest found isRead
  rw [atKeyword_eq] at isRead
  cases isRead
  rfl

/-- The marks that begin no longer ones. -/
def loneMarks : List Char :=
  ['(', ')', '[', ']', '\x7b', '\x7d', ';', ':', ',', '?']

theorem firstToken?_of_mem_loneMarks {c : Char} (listed : c ∈ loneMarks) :
    firstToken? (c :: rest) = some (.mark (String.ofList [c]), rest) := by
  have isLone : ∀ c ∈ loneMarks, isMarkStart c = true ∧
      ['=', '!', '<', '>', '+', '-', '*', '/'].contains c = false ∧
      ['|', '^', '&', '+', '-'].contains c = false := by
    simp [loneMarks, isMarkStart, isWordStart]
  rcases isLone c listed with ⟨isMark, noAssign, noDouble⟩
  refine firstToken?_lone isMark fun d _ => ?_
  rw [isPair, noAssign, noDouble, Bool.and_false, Bool.and_false]
  rfl

theorem tokens_of_token_eq {text : String} {c : Char} (isMark : text.toList = [c]) {u : Unit}
    (found : firstToken? (c :: rest) = some (.mark (String.ofList [c]), rest))
    (isRead : token text input = .ok (u, rest)) : tokens input = .mark text :: tokens rest := by
  have shown := shows_of_token_eq isRead
  rw [isMark] at shown
  rw [tokens_eq_cons shown found, ← isMark, String.ofList_toList]

theorem spells_token {text : String} {c : Char} (isMark : text.toList = [c]) (listed : c ∈ loneMarks) :
    Spells p (token text) fun _ => p.behind (.mark text) := by
  intro input rest a isRead
  refine Progress.total_of_token
    (tokens_of_token_eq isMark (firstToken?_of_mem_loneMarks listed) isRead) (.inr ?_)
  have notPlus : text ≠ "+" := by
    rintro rfl
    cases isMark
    revert listed
    decide
  rw [TokenScan.isIdle, beq_false_of_ne notPlus, Bool.false_and]

/-- A word is said unless it is passed over. -/
theorem ReadsWord.total_eq {name : String} (read : ReadsWord input name rest)
    (said : p.scan.isIdle (.word name) (tokens rest).head? = false) :
    p.total true input = (p.behind (.word name)).total true rest :=
  Progress.total_of_token read.tokens_eq (.inr said)

/-- Two words may be passed over, and only behind a parenthesis or a comma. -/
theorem not_isIdle_word {name : String} (next? : Option Token)
    (said : name ≠ "in" ∧ name ≠ "void" ∨ p.scan.front ≠ .opening ∧ p.scan.front ≠ .comma) :
    p.scan.isIdle (.word name) next? = false := by
  rcases said with ⟨notIn, notVoid⟩ | ⟨notOpening, notComma⟩
  · rw [TokenScan.isIdle, beq_false_of_ne notIn, beq_false_of_ne notVoid]
    rfl
  · rw [TokenScan.isIdle, beq_false_of_ne notOpening, beq_false_of_ne notComma]
    simp

theorem behind_word (name : String) (notPoint : p.scan.front ≠ .point) :
    p.behind (.word name) = p.say [name] (TokenScan.frontBehind name) := by
  rw [Progress.behind, TokenScan.behind, beq_false_of_ne notPoint]
  rfl

/-- What has no meaning of its own is an operand or a name. -/
theorem frontBehind_of_isReserved {name : String} (free : isReserved name = false) :
    TokenScan.frontBehind name = .operand := by
  have notListed : ∀ listed : List String, (∀ word ∈ listed, isReserved word = true) →
      listed.contains name = false := by
    intro listed areReserved
    rw [← Bool.not_eq_true, List.contains_iff_mem]
    intro isListed
    rw [areReserved name isListed] at free
    cases free
  have notCase : (name == "case") = false := by
    rw [beq_eq_false_iff_ne]
    rintro rfl
    cases free
  rw [TokenScan.frontBehind, notListed _ (by decide), notListed _ (by decide), notCase]
  rfl

theorem spells_keyword {name : String} (isName : isWord name = true)
    (said : name ≠ "in" ∧ name ≠ "void" ∨ p.scan.front ≠ .opening ∧ p.scan.front ≠ .comma)
    (notPoint : p.scan.front ≠ .point) :
    Spells p (keyword name) fun _ => p.say [name] (TokenScan.frontBehind name) := by
  intro input rest a isRead
  rw [(readsWord_of_keyword isName isRead).total_eq (not_isIdle_word _ said), behind_word name notPoint]

theorem spells_identifier (notPoint : p.scan.front ≠ .point) :
    Spells p identifier fun name => p.say [name] .operand := by
  intro input rest name isRead
  rcases readsWord_of_identifier isRead with ⟨read, named⟩
  have notIn : name ≠ "in" := by
    rintro rfl
    revert named
    decide
  have notVoid : name ≠ "void" := by
    rintro rfl
    revert named
    decide
  rw [read.total_eq (not_isIdle_word _ (.inl ⟨notIn, notVoid⟩)), behind_word name notPoint,
    frontBehind_of_isReserved (isReserved_of_isName named)]

/-- Further items are said one by one, each behind a comma. -/
theorem spells_manyBehind {α : Type} {item : Reader α} {words : α → List String}
    (each : ∀ p : Progress, p.scan.front = .comma → Spells p item fun a => p.say (words a) .operand)
    (fuel : Nat) (here : p.scan.front = .operand) :
    Spells p (Reader.manyBehind (token ",") item fuel) fun all =>
      p.say (all.flatMap fun a => "," :: words a) .operand := by
  induction fuel generalizing p with
  | zero => exact .pure (Progress.say_nil here).symm
  | succ fuel inductionHypothesis =>
      intro input rest all isRead
      simp only [Reader.manyBehind] at isRead
      split at isRead
      · cases isRead
        show _ = (p.say [] .operand).total true input
        rw [Progress.say_nil here]
      · rename_i first left isFirst
        cases isBehind : Reader.manyBehind (token ",") item fuel left with
        | error stop =>
            rw [isBehind] at isRead
            cases isRead
        | ok read =>
            rcases read with ⟨others, left'⟩
            rw [isBehind] at isRead
            cases isRead
            have spellsFirst : Spells p (do token ","; item) fun a =>
                p.say ("," :: words a) .operand := by
              refine (spells_token (c := ',') rfl (by decide)).bind fun _ => ?_
              have said := each (p.say [","] .comma) rfl
              simp only [Progress.say_say] at said
              exact said
            refine ((spellsFirst isFirst).trans (inductionHypothesis rfl isBehind)).trans ?_
            dsimp only
            rw [Progress.say_say, List.flatMap_cons]

/-- At least one item, and what has been said behind it. -/
theorem spells_items {α : Type} {item : Reader α} {words : α → List String}
    (first : Spells p item fun a => p.say (words a) .operand)
    (each : ∀ p : Progress, p.scan.front = .comma → Spells p item fun a => p.say (words a) .operand)
    (fuel : Nat) :
    Spells p (do
      let first ← item
      let others ← Reader.manyBehind (token ",") item fuel
      return first :: others) (p.sayItems words) := by
  refine first.bind fun a => (spells_manyBehind each fuel rfl).bind fun others => .pure ?_
  rw [Progress.say_say]
  rfl

theorem spells_number (awaits : p.scan.front.awaits = true) :
    Spells p number fun e => p.say e.words .operand := by
  intro input rest e isRead
  rcases exists_cons_of_number isRead with ⟨c, tail, rfl, begins⟩
  have shown := shows_of_beginsNumber begins tail
  rcases number_eq_ok_iff.mp isRead with ⟨text, value, isFloat, isValue, rfl⟩ |
    ⟨noFloat, digits, areDigits, _, rfl⟩
  · rw [Progress.total_of_token (tokens_eq_cons shown (firstToken?_float isFloat)) (.inr rfl)]
    simp [Progress.behind, Progress.say, TokenScan.spell, TokenScan.behind, isValue, Expr.words]
  · have notMinus : p.scan.front ≠ .minus := by
      intro same
      rw [same] at awaits
      cases awaits
    rw [Progress.total_of_token (tokens_eq_cons shown (firstToken?_int noFloat areDigits)) (.inr rfl)]
    simp [Progress.behind, Progress.say, TokenScan.spell, TokenScan.behind, notMinus, Expr.words]

theorem firstToken?_of_binaryOp? {op : BinaryOp} (found : binaryOp? chars = some (op, rest)) :
    firstToken? chars = some (.mark op.symbol, rest) := by
  unfold binaryOp? at found
  split at found
  case h_8 c tail _ _ _ _ _ _ _ =>
    split at found
    · cases found
    · rename_i apart
      have lone : ∀ d ∈ tail.head?, isPair c d = false := by
        intro d isHead
        rw [Option.mem_def.mp isHead] at apart
        simp only [beq_iff_eq, Option.some.injEq, Bool.or_eq_true, not_or] at apart
        exact isPair_eq_false apart.1 apart.2
      split at found
      case h_8 => cases found
      all_goals
        cases found
        exact firstToken?_lone rfl lone
  case h_9 => cases found
  all_goals
    cases found
    exact firstToken?_pair rfl rfl

theorem firstToken?_of_assignOp? {op : AssignOp} (found : assignOp? chars = some (op, rest)) :
    firstToken? chars = some (.mark op.symbol, rest) := by
  unfold assignOp? at found
  split at found
  case h_5 tail =>
    split at found
    · cases found
    · rename_i apart
      cases found
      refine firstToken?_lone rfl fun d isHead => ?_
      rw [Option.mem_def.mp isHead] at apart
      have noEquals : d ≠ '=' := by simpa using apart
      exact isPair_eq_false noEquals noEquals
  case h_6 => cases found
  all_goals
    cases found
    exact firstToken?_pair rfl rfl

/-- How a prefix operator is written.  The one that means nothing is a plus sign. -/
def prefixSymbol : Option UnaryOp → String
  | some op => op.symbol
  | none => "+"

/-- An operand does not begin with an equals sign, so a prefix operator is a mark of its own. -/
theorem firstToken?_of_prefixOp? {op? : Option UnaryOp} (found : prefixOp? chars = some (op?, rest))
    (apart : rest.head? ≠ some '=') : firstToken? chars = some (.mark (prefixSymbol op?), rest) := by
  have lone : ∀ {c : Char} {tail : List Char}, tail.head? ≠ some '=' → (∀ tail', tail ≠ c :: tail') →
      ∀ d ∈ tail.head?, isPair c d = false := by
    intro c tail noEquals differ d isHead
    cases tail with
    | nil => cases isHead
    | cons first tail =>
        cases isHead
        exact isPair_eq_false (fun same => noEquals (congrArg some same))
          fun same => differ tail (by rw [same])
  unfold prefixOp? at found
  split at found
  · cases found
    exact firstToken?_pair rfl rfl
  · cases found
    exact firstToken?_pair rfl rfl
  · rename_i notTwice
    cases found
    exact firstToken?_lone rfl (lone apart fun tail same => notTwice tail same)
  · cases found
    refine firstToken?_lone rfl fun d isHead => ?_
    have noEquals : d ≠ '=' := by
      rintro rfl
      exact apart isHead
    simp [isPair, noEquals]
  · rename_i notTwice
    cases found
    exact firstToken?_lone rfl (lone apart fun tail same => notTwice tail same)
  · cases found

/-- How something behind an operand begins. -/
def Suffix.symbol : Suffix → String
  | .member => "."
  | .index => "["
  | .step op => op.symbol

theorem firstToken?_of_suffix? {suffix : Suffix} (found : suffix? chars = some (suffix, rest)) :
    firstToken? chars = some (.mark suffix.symbol, rest) ∧
      ∀ op, suffix = .step op → op.followsOperand = true := by
  unfold suffix? at found
  split at found
  · split at found
    · rename_i starts
      cases found
      exact ⟨firstToken?_point starts, nofun⟩
    · cases found
  · cases found
    exact ⟨firstToken?_of_mem_loneMarks (by decide), nofun⟩
  · cases found
    refine ⟨firstToken?_pair rfl rfl, ?_⟩
    rintro op ⟨⟩
    rfl
  · cases found
    refine ⟨firstToken?_pair rfl rfl, ?_⟩
    rintro op ⟨⟩
    rfl
  · cases found

/-- No expression begins with an equals sign. -/
theorem head?_ne_of_prefixed {inner : Reader Expr} {fuel : Nat} {e : Expr}
    (isRead : prefixed inner fuel input = .ok (e, rest)) : input.head? ≠ some '=' := by
  intro same
  rcases input with _ | ⟨c, tail⟩
  · cases same
  cases same
  cases fuel with
  | zero => cases isRead
  | succ fuel =>
      have shown : Shows ('=' :: tail) ('=' :: tail) := shows_cons rfl (by decide)
      rw [prefixed, Reader.bind_eq_of_ok shown.gap_eq] at isRead
      have isOperand : (primary inner (fuel + 1) >>= suffixes inner (fuel + 1)) ('=' :: tail) =
          .ok (e, rest) := isRead
      rcases Reader.bind_eq_ok_iff.mp isOperand with ⟨_, left, isPrimary, _⟩
      cases isPrimary

theorem head?_ne_of_expression {fuel : Nat} {e : Expr} (isRead : expression fuel input = .ok (e, rest)) :
    input.head? ≠ some '=' := by
  cases fuel with
  | zero => cases isRead
  | succ fuel =>
      rcases Reader.bind_eq_ok_iff.mp isRead with ⟨_, _, isTernary, _⟩
      rcases Reader.bind_eq_ok_iff.mp isTernary with ⟨_, _, isBinary, _⟩
      rcases Reader.bind_eq_ok_iff.mp isBinary with ⟨_, _, isPrefixed, _⟩
      exact head?_ne_of_prefixed isPrefixed

/-! ## What operators are said behind -/

theorem not_isIdle_mark {text : String} {next? : Option Token} (closed : p.scan.front.awaits = false) :
    p.scan.isIdle (.mark text) next? = false := by
  rw [TokenScan.isIdle, closed, Bool.and_false]

theorem total_of_binaryOp? {op : BinaryOp} (here : p.scan.front = .operand) (shown : Shows chars chars)
    (found : binaryOp? chars = some (op, rest)) :
    p.total true chars = (p.say [op.symbol] .start).total true rest := by
  rw [Progress.total_of_token (tokens_eq_cons shown (firstToken?_of_binaryOp? found))
    (.inr (not_isIdle_mark (by rw [here]; rfl))), Progress.behind_binarySymbol here]

theorem total_of_assignOp? {op : AssignOp} (here : p.scan.front = .operand) (shown : Shows chars chars)
    (found : assignOp? chars = some (op, rest)) :
    p.total true chars = (p.say [op.symbol] .start).total true rest := by
  rw [Progress.total_of_token (tokens_eq_cons shown (firstToken?_of_assignOp? found))
    (.inr (not_isIdle_mark (by rw [here]; rfl))), Progress.behind_assignSymbol]

/-- A plus sign in front of an operand is passed over. -/
theorem total_of_prefixOp?_none (awaits : p.scan.front.awaits = true) (shown : Shows chars chars)
    (found : prefixOp? chars = some (none, rest)) (apart : rest.head? ≠ some '=') :
    p.total true chars = p.total true rest := by
  refine Progress.total_of_idle (tokens_eq_cons shown (firstToken?_of_prefixOp? found apart)) ?_
  rw [prefixSymbol, TokenScan.isIdle, awaits]
  rfl

theorem followsOperand_of_prefixOp? {op : UnaryOp} (found : prefixOp? chars = some (some op, rest)) :
    op.followsOperand = false := by
  unfold prefixOp? at found
  split at found <;> cases found <;> rfl

theorem total_of_prefixOp?_some {op : UnaryOp} (awaits : p.scan.front.awaits = true)
    (shown : Shows chars chars) (found : prefixOp? chars = some (some op, rest))
    (apart : rest.head? ≠ some '=') :
    p.total true chars = (p.say [op.symbol] .start).total true rest := by
  have notPlus : op.symbol ≠ "+" := by cases op <;> decide
  have said : p.scan.isIdle (.mark op.symbol) (tokens rest).head? = false := by
    rw [TokenScan.isIdle, beq_false_of_ne notPlus, Bool.false_and]
  rw [Progress.total_of_token (tokens_eq_cons shown (firstToken?_of_prefixOp? found apart)) (.inr said)]
  exact congrArg (Progress.total true · rest)
    (Progress.behind_prefixSymbol awaits (followsOperand_of_prefixOp? found))

section

variable {inner : Reader Expr} (spellsInner : ∀ {p : Progress}, p.scan.front.awaits = true →
  Spells p inner fun e => p.say e.words .operand) (fuel : Nat)
include spellsInner

theorem spells_arguments (opens : p.scan.front = .opening) :
    SpellsIf (fun _ rest => (tokens rest).head? = some (.mark ")")) p (arguments inner fuel)
      (p.sayItems Expr.words) := by
  have awaits : p.scan.front.awaits = true := by rw [opens]; rfl
  intro input rest args isRead closes
  rcases Reader.bind_eq_ok_iff.mp isRead with ⟨_, chars, isGap, isRead⟩
  rcases Reader.bind_eq_ok_iff.mp isRead with ⟨closed, left, isTest, isRead⟩
  rw [spells_gap isGap, spells_atToken _ isTest]
  split at isRead
  · cases isRead
    rfl
  · rcases Reader.bind_eq_ok_iff.mp isRead with ⟨isVoid, left', isTest, isRead⟩
    rw [spells_atKeyword _ isTest]
    split at isRead
    · rcases Reader.bind_eq_ok_iff.mp isRead with ⟨_, left'', isKeyword, isRead⟩
      cases isRead
      refine Progress.total_of_idle (readsWord_of_keyword rfl isKeyword).tokens_eq ?_
      rw [TokenScan.isIdle, opens, closes]
      rfl
    · exact spells_items (spellsInner awaits)
        (fun p isComma => spellsInner (by rw [isComma]; rfl)) fuel isRead

/-- The word of a call or a variable is not passed over: a parenthesis is opened behind it, or it
names no type. -/
theorem spells_named (awaits : p.scan.front.awaits = true) :
    Spells p (named inner fuel) fun e => p.say e.words .operand := by
  have notPoint : p.scan.front ≠ .point := Front.ne_of_awaits awaits rfl
  have notHeader : p.scan.front ≠ .header := Front.ne_of_awaits awaits rfl
  have spellsWord : SpellsIf (fun name rest => p.scan.isIdle (.word name) (tokens rest).head? = false) p
      word fun name => p.behind (.word name) :=
    fun _ _ _ isRead said => (readsWord_of_word isRead).total_eq said
  refine .get fun start => spellsWord.bind ?_ fun name => ?_
  · intro name input rest e isRead
    rcases Reader.bind_eq_ok_iff.mp isRead with ⟨isCall, left, isTest, isRead⟩
    have shown := shows_of_atToken_eq isTest
    have notIn : isReserved name = false → name ≠ "in" := by
      rintro free rfl
      cases free
    split at isRead
    · rename_i opens
      split at isRead
      · cases isRead
      · rename_i free
        rw [opens] at shown
        rcases List.isPrefixOf_iff_prefix.mp shown.2.symm with ⟨tail, rfl⟩
        have next : (tokens input).head? = some (.mark "(") := by
          rw [tokens_eq_cons shown.1 (firstToken?_of_mem_loneMarks (c := '(') (by decide))]
          rfl
        rw [TokenScan.isIdle, next, beq_false_of_ne (notIn (Bool.eq_false_iff.mpr free))]
        exact Bool.and_false _
    · split at isRead
      · cases isRead
      · rename_i chosen
        simp only [Bool.or_eq_true, not_or, Bool.not_eq_true] at chosen
        refine not_isIdle_word _ (.inl ⟨notIn chosen.1, ?_⟩)
        rintro rfl
        revert chosen
        decide
  · cases free : isReserved name with
    | true =>
        exact (spells_atToken "(").bind fun _ => .ite (fun _ => .failAt _) fun _ => .failAt _
    | false =>
        rw [behind_word name notPoint, frontBehind_of_isReserved free]
        refine (spells_atToken "(").bind fun isCall => .ite (fun _ => ?_) fun _ =>
          .ite (fun _ => .failAt _) fun _ => .pure rfl
        refine .ite (fun _ => .failAt _) fun _ => ?_
        refine (spells_token (c := '(') rfl (by decide)).bind fun _ => ?_
        rw [Progress.behind_openParen]
        refine (spells_arguments spellsInner fuel rfl).bind ?_ fun args =>
          (spells_token (c := ')') rfl (by decide)).bind fun _ => .pure ?_
        · intro args input rest e isRead
          rcases Reader.bind_eq_ok_iff.mp isRead with ⟨_, left, isToken, _⟩
          rw [tokens_of_token_eq (c := ')') rfl (firstToken?_of_mem_loneMarks (by decide)) isToken]
          rfl
        · rw [Progress.behind_closeParen_sayItems (by simp), Progress.say_say, Expr.words,
            Expr.wordsOfArgs_eq_separated]
          rfl

theorem spells_primary (awaits : p.scan.front.awaits = true) :
    Spells p (primary inner fuel) fun e => p.say e.words .operand := by
  have notPoint : p.scan.front ≠ .point := Front.ne_of_awaits awaits rfl
  have notHeader : p.scan.front ≠ .header := Front.ne_of_awaits awaits rfl
  refine .behindGap fun chars rest e shown isRead => ?_
  split at isRead
  · rename_i tail
    have opens : p.total true ('(' :: tail) = p.opening.total true tail := by
      rw [← Progress.behind_openParen]
      exact Progress.total_of_token
        (tokens_eq_cons shown (firstToken?_of_mem_loneMarks (by decide))) (.inr rfl)
    have enclosed : Spells p.opening (do
        let e ← inner
        token ")"
        return Expr.paren .unnumbered e) fun e => p.say e.words .operand := by
      refine (spellsInner rfl).bind fun e =>
        (spells_token (c := ')') rfl (by decide)).bind fun _ => .pure ?_
      rw [Progress.behind_closeParen, if_neg notHeader, Expr.words]
    rw [opens]
    exact enclosed isRead
  · have ofWord : ∀ value : Bool, Spells p (do
        keyword (if value then "true" else "false")
        return Expr.bool .unnumbered value) fun e => p.say e.words .operand := by
      intro value
      cases value <;>
      exact (spells_keyword rfl (.inl ⟨by decide, by decide⟩) notPoint).bind fun _ => .pure rfl
    have unenclosed : ∀ isNumber : Bool, Spells p (if isNumber then number
        else do
          if ← atKeyword "true" then
            keyword "true"
            return Expr.bool .unnumbered true
          else if ← atKeyword "false" then
            keyword "false"
            return Expr.bool .unnumbered false
          else named inner fuel) fun e => p.say e.words .operand := fun isNumber =>
      .ite (fun _ => spells_number awaits) fun _ => .bind (spells_atKeyword _) fun _ =>
        .ite (fun _ => ofWord true) fun _ => .bind (spells_atKeyword _) fun _ =>
          .ite (fun _ => ofWord false) fun _ => spells_named spellsInner fuel awaits
    exact unenclosed _ isRead

/-- What is behind an operand is said behind it. -/
theorem spells_suffixes (e : Expr) :
    Spells (p.say e.words .operand) (suffixes inner fuel e) fun e => p.say e.words .operand := by
  induction fuel generalizing e with
  | zero => exact .fail _
  | succ fuel inductionHypothesis =>
      rw [suffixes_succ]
      refine .startGap fun input chars rest e' shown isRead => ?_
      cases found : suffix? chars with
      | none =>
          rw [found] at isRead
          cases isRead
          rfl
      | some read =>
          rcases read with ⟨suffix, left⟩
          rw [found] at isRead
          rcases firstToken?_of_suffix? found with ⟨isFirst, isBehind⟩
          rw [Progress.total_of_shows shown, Progress.total_of_token (p := p.say e.words .operand)
            (tokens_eq_cons shown.self isFirst) (.inr (not_isIdle_mark rfl))]
          cases suffix with
          | member =>
              have ofMember : Spells (p.say (e.words ++ ["."]) .point) (do
                  let field ← word
                  suffixes inner fuel (.member .unnumbered e field)) fun e =>
                    p.say e.words .operand := by
                have spellsField : Spells (p.say (e.words ++ ["."]) .point) word fun field =>
                    p.say (Expr.member .unnumbered e field).words .operand := by
                  intro input rest field isRead
                  rw [(readsWord_of_word isRead).total_eq
                    (not_isIdle_word _ (.inr ⟨by simp, by simp⟩))]
                  simp [Progress.behind, Progress.say, TokenScan.behind, TokenScan.spell, Expr.words]
                exact spellsField.bind fun field => inductionHypothesis _
              rw [← ofMember isRead, ← Progress.say_say]
              rfl
          | index =>
              have ofIndex : Spells (p.say (e.words ++ ["["]) .start) (do
                  let position ← inner
                  token "]"
                  suffixes inner fuel (.index .unnumbered e position)) fun e =>
                    p.say e.words .operand := by
                refine (spellsInner rfl).bind fun position =>
                  (spells_token (c := ']') rfl (by decide)).bind fun _ => ?_
                have said := inductionHypothesis (.index .unnumbered e position)
                simpa [Progress.behind, Progress.say, TokenScan.behind, TokenScan.spell, Expr.words]
                  using said
              rw [← ofIndex isRead, ← Progress.say_say]
              rfl
          | step op =>
              have said := inductionHypothesis (.unary .unnumbered op e) isRead
              have follows := isBehind op rfl
              rw [← said, Expr.words, if_pos follows]
              show ((p.say e.words .operand).behind (.mark op.symbol)).total true left = _
              rw [Progress.behind_suffixSymbol rfl follows, Progress.say_say]

theorem spells_prefixed (awaits : p.scan.front.awaits = true) :
    Spells p (prefixed inner fuel) fun e => p.say e.words .operand := by
  induction fuel generalizing p with
  | zero => exact .fail _
  | succ fuel inductionHypothesis =>
      rw [prefixed]
      refine .behindGap fun chars rest e shown isRead => ?_
      cases found : prefixOp? chars with
      | none =>
          rw [found] at isRead
          exact ((spells_primary spellsInner (fuel + 1) awaits).bind fun e =>
            spells_suffixes spellsInner (fuel + 1) e) isRead
      | some read =>
          rcases read with ⟨op?, left⟩
          rw [found] at isRead
          rcases Reader.bind_eq_ok_iff.mp isRead with ⟨_, left', isSet, isRead⟩
          cases isSet
          rcases Reader.bind_eq_ok_iff.mp isRead with ⟨operand, left', isOperand, isRead⟩
          cases isRead
          have apart := head?_ne_of_prefixed isOperand
          cases op? with
          | none =>
              rw [total_of_prefixOp?_none awaits shown found apart]
              exact inductionHypothesis awaits isOperand
          | some op =>
              have inFront := followsOperand_of_prefixOp? found
              rw [total_of_prefixOp?_some awaits shown found apart, inductionHypothesis rfl isOperand]
              simp [Expr.words, inFront]

end

/-- The operators behind an operand, and their operands, are said behind it. -/
theorem spells_climb {operand : Reader Expr} (spellsOperand : ∀ {p : Progress},
      p.scan.front.awaits = true → Spells p operand fun e => p.say e.words .operand)
    (fuel least : Nat) (lhs : Expr) :
    Spells (p.say lhs.words .operand) (climb operand fuel least lhs) fun e =>
      p.say e.words .operand := by
  induction fuel generalizing p least lhs with
  | zero => exact .fail _
  | succ fuel inductionHypothesis =>
      rw [climb]
      refine .startGap fun input chars rest e shown isRead => ?_
      cases found : binaryOp? chars with
      | none =>
          rw [found] at isRead
          cases isRead
          rfl
      | some read =>
          rcases read with ⟨op, left⟩
          rw [found] at isRead
          dsimp only at isRead
          split at isRead
          · have ofRight : Spells (p.say (lhs.words ++ [op.symbol]) .start) (do
                let first ← operand
                let rhs ← climb operand fuel (op.precedence + 1) first
                climb operand fuel least (.binary .unnumbered op lhs rhs)) fun e =>
                  p.say e.words .operand := by
              refine (spellsOperand rfl).bind fun first =>
                (inductionHypothesis _ first).bind fun rhs => ?_
              have said := inductionHypothesis (p := p) least (.binary .unnumbered op lhs rhs)
              simpa [Expr.words] using said
            rw [Progress.total_of_shows shown, total_of_binaryOp? rfl shown.self found, Progress.say_say]
            exact ofRight isRead
          · cases isRead
            rfl

section

variable {inner : Reader Expr} (spellsInner : ∀ {p : Progress}, p.scan.front.awaits = true →
  Spells p inner fun e => p.say e.words .operand) (fuel : Nat) (awaits : p.scan.front.awaits = true)
include spellsInner awaits

theorem spells_ternary : Spells p (ternary inner fuel) fun e => p.say e.words .operand := by
  refine .bind (.bind (spells_prefixed spellsInner fuel awaits) fun first => spells_climb
    (spells_prefixed spellsInner fuel) fuel 0 first) fun cond => (spells_atToken "?").bind fun _ =>
      .ite (fun _ => ?_) fun _ => .pure rfl
  refine (spells_token (c := '?') rfl (by decide)).bind fun _ =>
    (spellsInner rfl).bind fun whenTrue => ?_
  refine (spells_token (c := ':') rfl (by decide)).bind fun _ => (spellsInner rfl).bind fun whenFalse =>
    .pure ?_
  simp [Progress.behind, Progress.say, TokenScan.behind, TokenScan.spell, Expr.words]

theorem spells_assignment : Spells p (assignment inner fuel) fun e => p.say e.words .operand := by
  refine (spells_ternary spellsInner fuel awaits).bind fun target => .behindGap ?_
  intro chars rest e shown isRead
  cases found : assignOp? chars with
  | none =>
      rw [found] at isRead
      cases isRead
      rfl
  | some read =>
      rcases read with ⟨op, left⟩
      rw [found] at isRead
      have ofValue : Spells (p.say (target.words ++ [op.symbol]) .start) (do
          let value ← inner
          return Expr.assign .unnumbered op target value) fun e => p.say e.words .operand :=
        (spellsInner rfl).bind fun value => .pure (by simp [Expr.words])
      rw [total_of_assignOp? rfl shown found, Progress.say_say]
      exact ofValue isRead

end

/-- An expression says what it was read from. -/
theorem spells_expression (fuel : Nat) {p : Progress} (awaits : p.scan.front.awaits = true) :
    Spells p (expression fuel) fun e => p.say e.words .operand := by
  induction fuel generalizing p with
  | zero => exact .fail _
  | succ fuel inductionHypothesis => exact spells_assignment inductionHypothesis _ awaits

end Parse
end Whittle
