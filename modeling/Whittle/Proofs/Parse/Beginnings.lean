import Whittle.Proofs.Parse.ExpressionExtension

namespace Whittle
namespace Parse

/-!
# How a text begins that can be read

What a reader makes of a text tells how the text begins.  So a text that can be read as an
expression, up to something that is no word, does not begin with two words.  Hence it is no
declaration, and the order in which the two are tried does not matter.
-/

variable {input chars rest : List Char}

theorem goesOn_dropWhile (input : List Char) : goesOn (input.dropWhile isWordChar) = false := by
  cases behind : input.dropWhile isWordChar with
  | nil => rfl
  | cons c tail =>
      have stops := List.head?_dropWhile_not isWordChar input
      rw [behind] at stops
      exact stops

/-- What has been read as a word is shown, and it ends there. -/
structure ReadsWord (input : List Char) (name : String) (rest : List Char) : Prop where
  shown : Shows input (name.toList ++ rest)
  isWord : isWord name = true
  ends : goesOn rest = false

theorem readsWord_of_word {name : String} (isRead : word input = .ok (name, rest)) :
    ReadsWord input name rest := by
  have isName := yields_word isRead
  rcases Reader.bind_eq_ok_iff.mp isRead with ⟨_, chars, isGap, isRead⟩
  rw [Reader.get_bind] at isRead
  cases chars with
  | nil => cases isRead
  | cons c tail =>
      dsimp only at isRead
      split at isRead
      · cases isRead
        refine ⟨?_, isName, goesOn_dropWhile tail⟩
        rw [String.toList_ofList, List.cons_append, List.takeWhile_append_dropWhile]
        exact shows_of_gap_eq isGap
      · cases isRead

theorem readsWord_of_keyword {name : String} (isName : isWord name = true) {u : Unit}
    (isRead : keyword name input = .ok (u, rest)) : ReadsWord input name rest := by
  rcases Reader.bind_eq_ok_iff.mp isRead with ⟨_, chars, isGap, isRead⟩
  rw [Reader.get_bind] at isRead
  cases isBehind : behindKeyword? name chars with
  | none =>
      rw [isBehind] at isRead
      cases isRead
  | some left =>
      rw [isBehind] at isRead
      cases isRead
      rw [behindKeyword?, Option.filter_eq_some_iff] at isBehind
      refine ⟨?_, isName, by simpa using isBehind.2⟩
      rw [List.isPrefixOf?_eq_some_iff_append_eq.mp isBehind.1]
      exact shows_of_gap_eq isGap

theorem readsWord_of_identifier {name : String} (isRead : identifier input = .ok (name, rest)) :
    ReadsWord input name rest ∧ isName name = true := by
  refine ⟨?_, yields_identifier isRead⟩
  unfold identifier at isRead
  rw [Reader.get_bind] at isRead
  rcases Reader.bind_eq_ok_iff.mp isRead with ⟨name', between, isWord, isRead⟩
  split at isRead
  · cases isRead
  · cases isRead
    exact readsWord_of_word isWord

theorem readsWord_of_typeName {ty : Ty} (isRead : typeName input = .ok (ty, rest)) :
    ∃ name, ReadsWord input name rest ∧ isReserved name = false ∧ ty = Ty.ofName name := by
  unfold typeName at isRead
  rw [Reader.get_bind] at isRead
  rcases Reader.bind_eq_ok_iff.mp isRead with ⟨name, between, isWord, isRead⟩
  split at isRead
  · cases isRead
  · rename_i notReserved
    cases isRead
    exact ⟨name, readsWord_of_word isWord, Bool.eq_false_iff.mpr notReserved, rfl⟩

theorem shows_of_atToken_eq {text : String} {found : Bool} (isRead : atToken text input = .ok (found, rest)) :
    Shows input rest ∧ found = text.toList.isPrefixOf rest := by
  rcases Reader.bind_eq_ok_iff.mp isRead with ⟨_, chars, isGap, isTest⟩
  rcases Reader.pure_eq_ok_iff.mp isTest with ⟨rfl, rfl⟩
  exact ⟨shows_of_gap_eq isGap, rfl⟩

/-- Items were read up to where they end: none, or a first one and the others behind it. -/
theorem Reader.manyUntil_succ_eq_ok {α : Type} {closed : Reader Bool} {item : Reader α} {fuel : Nat}
    {all : List α} (isRead : Reader.manyUntil closed item (fuel + 1) input = .ok (all, rest)) :
    (closed input = .ok (true, rest) ∧ all = []) ∨
      ∃ between first left others, closed input = .ok (false, between) ∧
        item between = .ok (first, left) ∧ manyUntil closed item fuel left = .ok (others, rest) ∧
        all = first :: others := by
  unfold manyUntil at isRead
  rcases Reader.bind_eq_ok_iff.mp isRead with ⟨isClosed, between, isTest, isRead⟩
  cases isClosed with
  | true =>
      rcases Reader.pure_eq_ok_iff.mp isRead with ⟨rfl, rfl⟩
      exact .inl ⟨isTest, rfl⟩
  | false =>
      rcases Reader.bind_eq_ok_iff.mp isRead with ⟨first, left, isFirst, isRead⟩
      rcases Reader.bind_eq_ok_iff.mp isRead with ⟨others, _, areOthers, isRead⟩
      rcases Reader.pure_eq_ok_iff.mp isRead with ⟨rfl, rfl⟩
      exact .inr ⟨between, first, left, others, isTest, isFirst, areOthers, rfl⟩

/-- If what the reader leaves has the property `Q`, the text that it reads has the property
`P`. -/
def Traces {α : Type} (P Q : List Char → Prop) (reader : Reader α) : Prop :=
  ∀ ⦃input rest : List Char⦄ ⦃a : α⦄, reader input = .ok (a, rest) → Q rest → P input

namespace Traces

variable {α β : Type} {P Q R : List Char → Prop}

theorem bind {first : Reader α} {second : α → Reader β} (traces : Traces P Q first)
    (behind : ∀ a, Traces Q R (second a)) : Traces P R (first >>= second) := by
  intro input rest b isRead holds
  rcases Reader.bind_eq_ok_iff.mp isRead with ⟨a, between, isFirst, isSecond⟩
  exact traces isFirst (behind a isSecond holds)

theorem ite {test : Bool} {yes no : Reader α} (ofYes : test = true → Traces P Q yes)
    (ofNo : test = false → Traces P Q no) : Traces P Q (if test = true then yes else no) := by
  cases test with
  | true => exact ofYes rfl
  | false => exact ofNo rfl

end Traces

/-- No word comes next. -/
def Wordless (input : List Char) : Prop :=
  ∃ chars, Shows input chars ∧ ∀ c ∈ chars.head?, isWordStart c = false

/-- A text that begins no declaration: no `const`, and no second word behind a first one. -/
def Single (input : List Char) : Prop :=
  ∃ chars, Shows input chars ∧ behindKeyword? "const" chars = none ∧ NoSecondWord chars

theorem wordless_of_shows_cons {c : Char} (shown : Shows input (c :: rest)) (noWord : isWordStart c = false) :
    Wordless input := by
  refine ⟨c :: rest, shown, ?_⟩
  rintro other ⟨⟩
  exact noWord

theorem Shows.wordless (shown : Shows input chars) (wordless : Wordless chars) : Wordless input := by
  rcases wordless with ⟨chars', shown', noWord⟩
  exact ⟨chars', shown'.unique shown.self ▸ shown, noWord⟩

theorem Shows.single (shown : Shows input chars) (single : Single chars) : Single input := by
  rcases single with ⟨chars', shown', single⟩
  exact ⟨chars', shown'.unique shown.self ▸ shown, single⟩

theorem Wordless.single (wordless : Wordless input) : Single input := by
  rcases wordless with ⟨chars, shown, noWord⟩
  exact ⟨chars, shown, behindKeyword?_eq_none_of_head rfl noWord, .inl noWord⟩

/-- A word that is no `const` begins no declaration where no word follows. -/
theorem ReadsWord.single {name : String} (read : ReadsWord input name rest) (differ : name ≠ "const")
    (wordless : Wordless rest) : Single input := by
  rcases wordless with ⟨next, shown, noWord⟩
  exact ⟨_, read.shown, behindKeyword?_eq_none_of_ne rfl read.isWord differ read.ends,
    noSecondWord_word read.isWord read.ends shown noWord⟩

/-- What is found at the beginning of a text begins with no word. -/
structure FindsMarks {α : Type} (find? : List Char → Option (α × List Char)) : Prop where
  noWord : ∀ {c tail read}, find? (c :: tail) = some read → isWordStart c = false
  notNil : find? [] = none

theorem FindsMarks.wordless {α : Type} {find? : List Char → Option (α × List Char)}
    (marks : FindsMarks find?) {read : α × List Char} (found : find? chars = some read)
    (shown : Shows input chars) : Wordless input := by
  cases chars with
  | nil =>
      rw [marks.notNil] at found
      cases found
  | cons c tail => exact wordless_of_shows_cons shown (marks.noWord found)

theorem findsMarks_suffix? : FindsMarks suffix? where
  noWord {c tail read} found := by
    unfold suffix? at found
    split at found
    case h_5 => cases found
    all_goals
      rename_i split
      cases split
      rfl
  notNil := rfl

theorem findsMarks_assignOp? : FindsMarks assignOp? where
  noWord {c tail read} found := by
    unfold assignOp? at found
    split at found
    case h_6 => cases found
    all_goals
      rename_i split
      cases split
      rfl
  notNil := rfl

theorem findsMarks_prefixOp? : FindsMarks prefixOp? where
  noWord {c tail read} found := by
    unfold prefixOp? at found
    split at found
    case h_6 => cases found
    all_goals
      rename_i split
      cases split
      rfl
  notNil := rfl

theorem findsMarks_binaryOp? : FindsMarks binaryOp? where
  noWord {c tail read} found := by
    unfold binaryOp? at found
    split at found
    case h_8 split =>
      cases split
      split at found
      · cases found
      · split at found
        case h_8 => cases found
        all_goals rfl
    case h_9 split => cases split
    all_goals
      rename_i split
      cases split
      rfl
  notNil := rfl

theorem traces_named (inner : Reader Expr) (fuel : Nat) : Traces Single Wordless (named inner fuel) := by
  intro input rest e isRead wordless
  unfold named at isRead
  rw [Reader.get_bind] at isRead
  rcases Reader.bind_eq_ok_iff.mp isRead with ⟨name, between, isWord, isRead⟩
  rcases Reader.bind_eq_ok_iff.mp isRead with ⟨isCall, left, isTest, isRead⟩
  have read := readsWord_of_word isWord
  have shown := shows_of_atToken_eq isTest
  -- Neither a variable nor a call has the name of a keyword.
  have ofName : isReserved name = false → Wordless left → Single input := fun notReserved behind =>
    read.single (by rintro rfl; cases notReserved) (shown.1.wordless behind)
  split at isRead
  · rename_i opens
    rw [opens] at shown
    split at isRead
    · cases isRead
    · rename_i notReserved
      have isParen := List.isPrefixOf_iff_prefix.mp shown.2.symm
      rcases isParen with ⟨tail, rfl⟩
      exact ofName (Bool.eq_false_iff.mpr notReserved) (wordless_of_shows_cons shown.1.self rfl)
  · split at isRead
    · cases isRead
    · rename_i chosen
      cases isRead
      rw [Bool.or_eq_true, not_or, Bool.not_eq_true] at chosen
      exact ofName chosen.1 wordless

theorem traces_primary (inner : Reader Expr) (fuel : Nat) :
    Traces Single Wordless (primary inner fuel) := by
  intro input rest e isRead wordless
  rcases Reader.bind_eq_ok_iff.mp isRead with ⟨_, chars, isGap, isRead⟩
  have shown := shows_of_gap_eq isGap
  rw [Reader.get_bind] at isRead
  split at isRead
  · exact (wordless_of_shows_cons shown rfl).single
  · split at isRead
    · rcases exists_cons_of_number isRead with ⟨c, tail, rfl, begins⟩
      refine (wordless_of_shows_cons shown ?_).single
      rw [Bool.or_eq_true, beq_iff_eq] at begins
      rcases begins with isDigit | rfl
      · exact not_isWordStart_of_isDigit isDigit
      · rfl
    · have ofLiteral : ∀ {name : String} {e : Expr}, isWord name = true → name ≠ "const" →
          Traces Single Wordless (do keyword name; return e) := by
        intro name e isName differ input rest e' isRead wordless
        rcases Reader.bind_eq_ok_iff.mp isRead with ⟨_, left, isKeyword, isRead⟩
        cases isRead
        exact (readsWord_of_keyword isName isKeyword).single differ wordless
      rcases Reader.bind_eq_ok_iff.mp isRead with ⟨isTrue, left, isTest, isRead⟩
      cases isTest
      refine shown.single (Traces.ite (fun _ => ofLiteral rfl (by decide)) (fun _ => ?_) isRead wordless)
      intro input rest e isRead wordless
      rcases Reader.bind_eq_ok_iff.mp isRead with ⟨isFalse, left, isTest, isRead⟩
      cases isTest
      exact Traces.ite (fun _ => ofLiteral rfl (by decide)) (fun _ => traces_named inner fuel) isRead
        wordless

theorem traces_suffixes (inner : Reader Expr) (fuel : Nat) (e : Expr) :
    Traces Wordless Wordless (suffixes inner fuel e) := by
  intro input rest e' isRead wordless
  cases fuel with
  | zero => cases isRead
  | succ fuel =>
      rw [suffixes_succ, Reader.get_bind] at isRead
      rcases Reader.bind_eq_ok_iff.mp isRead with ⟨_, chars, isGap, isRead⟩
      rw [Reader.get_bind] at isRead
      cases found : suffix? chars with
      | none =>
          rw [found] at isRead
          cases isRead
          exact wordless
      | some read => exact findsMarks_suffix?.wordless found (shows_of_gap_eq isGap)

theorem traces_prefixed (inner : Reader Expr) (fuel : Nat) :
    Traces Single Wordless (prefixed inner fuel) := by
  intro input rest e isRead wordless
  cases fuel with
  | zero => cases isRead
  | succ fuel =>
      rw [prefixed] at isRead
      rcases Reader.bind_eq_ok_iff.mp isRead with ⟨_, chars, isGap, isRead⟩
      rw [Reader.get_bind] at isRead
      cases found : prefixOp? chars with
      | none =>
          rw [found] at isRead
          exact (shows_of_gap_eq isGap).single (((traces_primary inner (fuel + 1)).bind fun e =>
            traces_suffixes inner (fuel + 1) e) isRead wordless)
      | some read => exact (findsMarks_prefixOp?.wordless found (shows_of_gap_eq isGap)).single

theorem traces_climb (operand : Reader Expr) (fuel least : Nat) (lhs : Expr) :
    Traces Wordless Wordless (climb operand fuel least lhs) := by
  intro input rest e isRead wordless
  cases fuel with
  | zero => cases isRead
  | succ fuel =>
      rw [climb, Reader.get_bind] at isRead
      rcases Reader.bind_eq_ok_iff.mp isRead with ⟨_, chars, isGap, isRead⟩
      rw [Reader.get_bind] at isRead
      cases found : binaryOp? chars with
      | none =>
          rw [found] at isRead
          cases isRead
          exact wordless
      | some read => exact findsMarks_binaryOp?.wordless found (shows_of_gap_eq isGap)

theorem traces_ternary (inner : Reader Expr) (fuel : Nat) :
    Traces Single Wordless (ternary inner fuel) := by
  refine .bind (.bind (traces_prefixed _ _) fun first => traces_climb _ _ _ _) fun cond => ?_
  intro input rest e isRead wordless
  rcases Reader.bind_eq_ok_iff.mp isRead with ⟨isChoice, left, isTest, isRead⟩
  have shown := shows_of_atToken_eq isTest
  split at isRead
  · rename_i isMark
    rw [isMark] at shown
    rcases List.isPrefixOf_iff_prefix.mp shown.2.symm with ⟨tail, rfl⟩
    exact wordless_of_shows_cons shown.1 rfl
  · cases isRead
    exact shown.1.wordless wordless

theorem traces_assignment (inner : Reader Expr) (fuel : Nat) :
    Traces Single Wordless (assignment inner fuel) := by
  refine (traces_ternary inner fuel).bind fun target => ?_
  intro input rest e isRead wordless
  rcases Reader.bind_eq_ok_iff.mp isRead with ⟨_, chars, isGap, isRead⟩
  rw [Reader.get_bind] at isRead
  cases found : assignOp? chars with
  | none =>
      rw [found] at isRead
      cases isRead
      exact (shows_of_gap_eq isGap).wordless wordless
  | some read => exact findsMarks_assignOp?.wordless found (shows_of_gap_eq isGap)

theorem traces_expression (fuel : Nat) : Traces Single Wordless (expression fuel) := by
  cases fuel with
  | zero => exact fun _ _ _ isRead => nomatch isRead
  | succ fuel => exact traces_assignment (expression fuel) (fuel + 1)

/-- What can be read as an expression with its semicolon is no declaration. -/
theorem exists_declStmt_eq_error_of_exprStmt {fuel : Nat} {s : Stmt}
    (isRead : exprStmt fuel input = .ok (s, rest)) (fuel' : Nat) :
    ∃ stop, declStmt fuel' input = .error stop := by
  rcases Reader.bind_eq_ok_iff.mp isRead with ⟨e, left, isExpr, isRead⟩
  rcases Reader.bind_eq_ok_iff.mp isRead with ⟨_, _, isToken, _⟩
  rcases traces_expression fuel isExpr (wordless_of_shows_cons (shows_of_token_eq isToken) rfl) with
    ⟨chars, shown, noConst, single⟩
  exact exists_declStmt_eq_error fuel' shown noConst single

end Parse
end Whittle
