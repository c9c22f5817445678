import Whittle.Proofs.Parse.Yields
import Whittle.Proofs.Tokens.ExpressionReading

namespace Whittle

/-!
# What the texts of expressions say

The text of an expression says what the expression says, and nothing that the reader would
pass over.  The one exception is a member of an integer literal, whose point would be read as
a part of the number.
-/

open Parse (Shows goesOn isWord)

namespace Progress

variable {p : Progress} {chars rest : List Char}

theorem total_of_firstToken? {token : Token} (shown : Shows chars chars)
    (found : Parse.firstToken? chars = some (token, rest)) :
    p.total false chars = (p.behind token).total false rest :=
  total_of_token (Parse.tokens_eq_cons shown found) (.inl rfl)

theorem total_word {name : String} (isName : isWord name = true) (ends : goesOn rest = false) :
    p.total false (name.toList ++ rest) = (p.behind (.word name)).total false rest :=
  total_of_firstToken? (Parse.shows_word isName) (Parse.firstToken?_word isName ends)

/-- A word that has no meaning of its own is an operand or a name. -/
theorem total_name {name : String} (isName : isWord name = true) (free : Parse.isReserved name = false)
    (notPoint : p.scan.front ≠ .point) (ends : goesOn rest = false) :
    p.total false (name.toList ++ rest) = (p.say [name] .operand).total false rest := by
  rw [total_word isName ends, Parse.behind_word name notPoint, Parse.frontBehind_of_isReserved free]

theorem total_lone {c : Char} (listed : c ∈ Parse.loneMarks) :
    p.total false (c :: rest) = (p.behind (.mark (String.ofList [c]))).total false rest := by
  have isLone : ∀ c ∈ Parse.loneMarks, Text.isTokenBlank c = false ∧ c ≠ '/' := by
    simp [Parse.loneMarks, Text.isTokenBlank]
  rcases isLone c listed with ⟨notBlank, notSlash⟩
  exact total_of_firstToken? (Parse.shows_cons notBlank notSlash)
    (Parse.firstToken?_of_mem_loneMarks listed)

/-- A mark that neither groups nor ends an operand leaves nothing that an operator could stand
behind. -/
theorem total_mark {c : Char} (listed : c ∈ ['[', '\x7b', '\x7d', ';', ':', '?']) :
    p.total false (c :: rest) = (p.say [String.ofList [c]] .start).total false rest := by
  have areLone : ∀ c ∈ ['[', '\x7b', '\x7d', ';', ':', '?'], c ∈ Parse.loneMarks := by
    simp [Parse.loneMarks]
  rw [total_lone (areLone c listed)]
  refine congrArg (total false · rest) ?_
  simp only [List.mem_cons, List.not_mem_nil, or_false] at listed
  rcases listed with rfl | rfl | rfl | rfl | rfl | rfl <;> rfl

theorem total_openParen : p.total false ('(' :: rest) = p.opening.total false rest := by
  rw [total_lone (by decide), ← behind_openParen]

/-- What stands in parentheses is said without them. -/
theorem total_parens {words : List String} {front : Front}
    (inside : p.opening.total false (chars ++ ')' :: rest) =
      (p.opening.say words front).total false (')' :: rest)) :
    p.total false ('(' :: (chars ++ ')' :: rest)) =
      (p.say words (if p.scan.front = .header then .start else .operand)).total false rest := by
  rw [total_openParen, inside, total_lone (by decide), ← behind_closeParen words front]

theorem total_binarySymbol (here : p.scan.front = .operand) (op : BinaryOp) :
    p.total false (op.symbol.toList ++ ' ' :: rest) =
      (p.say [op.symbol] .start).total false (' ' :: rest) := by
  rw [total_of_firstToken? (Parse.shows_symbol op rest)
    (Parse.firstToken?_of_binaryOp? (Parse.binaryOp?_symbol op rest)), behind_binarySymbol here]

theorem total_assignSymbol (op : AssignOp) :
    p.total false (op.symbol.toList ++ ' ' :: rest) =
      (p.say [op.symbol] .start).total false (' ' :: rest) := by
  have found : Parse.assignOp? (op.symbol.toList ++ ' ' :: rest) = some (op, ' ' :: rest) := by
    cases op <;> rfl
  rw [total_of_firstToken? (Parse.shows_assignSymbol op rest) (Parse.firstToken?_of_assignOp? found),
    behind_assignSymbol]

theorem total_suffixSymbol (here : p.scan.front = .operand) {op : UnaryOp}
    (isBehind : op.followsOperand = true) :
    p.total false (op.symbol.toList ++ rest) = (p.say [op.symbol] .operand).total false rest := by
  rw [← behind_suffixSymbol here isBehind]
  cases op with
  | postIncrement | postDecrement =>
      exact total_of_firstToken? (Parse.shows_cons rfl (by decide)) (Parse.firstToken?_pair rfl rfl)
  | negate | not | preIncrement | preDecrement => cases isBehind

/-- A prefix operator is a mark of its own in front of what does not begin with a minus or an
equals sign. -/
theorem total_prefixSymbol (awaits : p.scan.front.awaits = true) {op : UnaryOp}
    (inFront : op.followsOperand = false) (noEquals : chars.head? ≠ some '=')
    (apart : op.symbol.toList.getLast? = some '-' → chars.head? ≠ some '-') :
    p.total false (op.symbol.toList ++ chars) = (p.say [op.symbol] .start).total false chars := by
  have found : Parse.prefixOp? (op.symbol.toList ++ chars) = some (some op, chars) := by
    cases op with
    | negate =>
        cases chars with
        | nil => rfl
        | cons c tail =>
            have noMinus : c ≠ '-' := fun same => apart rfl (congrArg some same)
            show Parse.prefixOp? ('-' :: c :: tail) = _
            unfold Parse.prefixOp?
            split
            · rename_i split
              cases split
            · rename_i split
              cases split
              exact absurd rfl noMinus
            · rename_i split
              cases split
              rfl
            · rename_i split
              cases split
            · rename_i split
              cases split
            · rename_i noMatch _ _
              exact absurd rfl (noMatch _)
    | not | preIncrement | preDecrement => rfl
    | postIncrement | postDecrement => cases inFront
  have shown : Shows (op.symbol.toList ++ chars) (op.symbol.toList ++ chars) := by
    cases op <;> exact Parse.shows_cons rfl (by decide)
  rw [total_of_firstToken? shown (Parse.firstToken?_of_prefixOp? found noEquals)]
  exact congrArg (total false · chars) (behind_prefixSymbol awaits inFront)

/-- A word behind a point is the name of a member. -/
theorem total_member {field : String} (isName : isWord field = true) (ends : goesOn rest = false) :
    p.total false ('.' :: (field.toList ++ rest)) = (p.say [".", field] .operand).total false rest := by
  rcases Parse.exists_cons_of_isWord isName with ⟨c, tail, split, starts, _⟩
  have found : Parse.firstToken? ('.' :: (field.toList ++ rest)) =
      some (.mark ".", field.toList ++ rest) := by
    rw [split]
    exact Parse.firstToken?_point starts
  have point : p.behind (.mark ".") = p.say ["."] .point := rfl
  have word : (p.say ["."] .point).behind (.word field) =
      (p.say ["."] .point).say [field] .operand := rfl
  rw [total_of_firstToken? (Parse.shows_cons rfl (by decide)) found, point, total_word isName ends,
    word, say_say]
  rfl

end Progress

namespace Progress

variable {α : Type} {text : α → List Char} {words : α → List String} {p : Progress} {rest : List Char}

/-- The items of a list with commas between them. -/
def itemChars (text : α → List Char) : List α → List Char
  | [] => []
  | a :: others => text a ++ others.flatMap fun a => ',' :: ' ' :: text a

theorem ends_moreItems (text : α → List Char) (items : List α) (rest : List Char) :
    goesOn (items.flatMap (fun a => ',' :: ' ' :: text a) ++ ')' :: rest) = false ∧
      (items.flatMap (fun a => ',' :: ' ' :: text a) ++ ')' :: rest).head? ≠ some '.' := by
  cases items <;> exact ⟨rfl, by simp⟩

/-- Wherever an operand may stand and nothing goes on with it, the text says the words. -/
def Spoken (chars : List Char) (words : List String) : Prop :=
  ∀ ⦃q : Progress⦄ ⦃rest : List Char⦄, q.scan.front.awaits = true → goesOn rest = false →
    rest.head? ≠ some '.' → q.total false (chars ++ rest) = (q.say words .operand).total false rest

theorem total_moreItems {items : List α} (spoken : ∀ a ∈ items, Spoken (text a) (words a))
    (here : p.scan.front = .operand) :
    p.total false (items.flatMap (fun a => ',' :: ' ' :: text a) ++ ')' :: rest) =
      (p.say (items.flatMap fun a => "," :: words a) .operand).total false (')' :: rest) := by
  induction items generalizing p with
  | nil => exact congrArg (total false · (')' :: rest)) (say_nil here).symm
  | cons a items inductionHypothesis =>
      have comma : p.behind (.mark (String.ofList [','])) = p.say [","] .comma := rfl
      have ends := ends_moreItems text items rest
      simp only [List.flatMap_cons, List.cons_append, List.append_assoc]
      rw [total_lone (by decide), comma, total_space, spoken a List.mem_cons_self rfl ends.1 ends.2,
        inductionHypothesis (fun a listed => spoken a (List.mem_cons_of_mem _ listed)) rfl, say_say,
        say_say]
      rfl

/-- Items in parentheses of their own are said without the parentheses. -/
theorem total_itemChars {items : List α} (spoken : ∀ a ∈ items, Spoken (text a) (words a))
    (notHeader : p.scan.front ≠ .header) :
    p.opening.total false (itemChars text items ++ ')' :: rest) =
      (p.say (separated words items) .operand).total false rest := by
  rw [← behind_closeParen_sayItems notHeader]
  have closes : ∀ q : Progress, q.total false (')' :: rest) = (q.behind (.mark ")")).total false rest :=
    fun q => total_lone (by decide)
  cases items with
  | nil => exact closes _
  | cons a items =>
      have ends := ends_moreItems text items rest
      rw [itemChars, List.append_assoc, spoken a List.mem_cons_self rfl ends.1 ends.2,
        total_moreItems (fun a listed => spoken a (List.mem_cons_of_mem _ listed)) rfl, closes, say_say]
      rfl

end Progress

theorem Binary64.isFinite_or_isWord {x : Binary64} (nonneg : x.isNegative = false) :
    (∃ significand exponent isPower, x.magnitude = .finite significand exponent isPower) ∨
      isWord x.text = true ∧ Parse.isReserved x.text = false := by
  cases isMagnitude : x.magnitude with
  | finite significand exponent isPower => exact .inl ⟨significand, exponent, isPower, rfl⟩
  | infinite =>
      have written : x.text = "inf" := by
        rw [text, isMagnitude, nonneg]
        rfl
      rw [written]
      exact .inr (by decide)
  | notANumber =>
      have written : x.text = "NaN" := by rw [text, isMagnitude]
      rw [written]
      exact .inr (by decide)

namespace Progress

variable {p : Progress} {rest : List Char}

theorem total_digits (number : Nat) (ends : goesOn rest = false) (noPoint : rest.head? ≠ some '.') :
    p.total false (Nat.toDigits 10 number ++ rest) =
      (p.behind (.int (Nat.toDigits 10 number))).total false rest := by
  rcases Parse.exists_toDigits_eq_cons number with ⟨c, tail, split, isDigit⟩
  have areDigits : Parse.digits? (Nat.toDigits 10 number ++ rest) =
      some (Nat.toDigits 10 number, rest) :=
    Parse.digits?_append Nat.toDigits_ne_nil Parse.isDigit_of_mem_toDigits (Parse.not_isDigit_head ends)
  have noFloat : Parse.floatText? (Nat.toDigits 10 number ++ rest) = none :=
    Parse.floatText?_eq_none areDigits noPoint (Parse.exponent?_eq_none ends)
  have shown : Shows (Nat.toDigits 10 number ++ rest) (Nat.toDigits 10 number ++ rest) := by
    rw [split]
    exact Parse.shows_of_beginsNumber (by rw [isDigit, Bool.true_or]) _
  rw [total_of_firstToken? shown (Parse.firstToken?_int noFloat areDigits)]

theorem total_int {value : Int} (nonneg : 0 ≤ value) (notMinus : p.scan.front ≠ .minus)
    (ends : goesOn rest = false) (noPoint : rest.head? ≠ some '.') :
    p.total false ((toString value).toList ++ rest) =
      (p.say [toString value] .operand).total false rest := by
  have same : ((value.toNat : Nat) : Int) = value := Int.toNat_of_nonneg nonneg
  rw [Parse.toList_toString_of_nonneg nonneg, total_digits value.toNat ends noPoint]
  simp [behind, say, TokenScan.behind, TokenScan.spell, notMinus, Parse.digitsValue_toDigits, same]

theorem total_float {value : Binary64} (nonneg : value.isNegative = false)
    (notPoint : p.scan.front ≠ .point) (ends : goesOn rest = false) :
    p.total false (value.text.toList ++ rest) = (p.say [value.text] .operand).total false rest := by
  rcases value.isFinite_or_isWord nonneg with ⟨significand, exponent, isPower, finite⟩ | ⟨isName, free⟩
  · have isFloat := Binary64.floatText?_text nonneg finite ends
    rcases Binary64.exists_text_eq_cons nonneg finite with ⟨c, tail, split, isDigit⟩
    have shown : Shows (value.text.toList ++ rest) (value.text.toList ++ rest) := by
      rw [split]
      exact Parse.shows_of_beginsNumber (by rw [isDigit, Bool.true_or]) _
    rw [total_of_firstToken? shown (Parse.firstToken?_float isFloat)]
    simp [behind, say, TokenScan.behind, TokenScan.spell, Binary64.ofText?_text nonneg finite]
  · exact total_name isName free notPoint ends

end Progress

/-! ## Expressions -/

namespace Expr

/-- Whether a node selects a member of an integer literal, whose text would run into the point. -/
def isIntMember : Expr → Bool
  | .member _ base _ => base.isInt
  | _ => false

/-- Whether the text of an expression says what the expression says: all its nodes could have come
from a text, and no point runs into an integer. -/
def isWritable (e : Expr) : Bool :=
  e.subexprs.all fun part => part.isSpelled && !part.isIntMember

theorem isWritable_iff {e : Expr} :
    e.isWritable = true ↔ (e.isSpelled = true ∧ e.isIntMember = false) ∧
      ∀ child ∈ e.children, child.isWritable = true := by
  simp only [isWritable, List.all_eq_true]
  rw [subexprs_eq_cons, List.forall_mem_cons, List.forall_mem_flatMap, Bool.and_eq_true,
    Bool.not_eq_true']

/-- A text that does not begin with an equals sign. -/
def BeginsApart (text : List Char) : Prop :=
  ∃ c tail, text = c :: tail ∧ c ≠ '='

theorem BeginsApart.append {text : List Char} (begins : BeginsApart text) (rest : List Char) :
    BeginsApart (text ++ rest) := by
  rcases begins with ⟨c, tail, rfl, differ⟩
  exact ⟨c, tail ++ rest, rfl, differ⟩

theorem BeginsApart.head?_ne {text : List Char} (begins : BeginsApart text) :
    text.head? ≠ some '=' := by
  rcases begins with ⟨c, tail, rfl, differ⟩
  exact fun same => differ (Option.some.inj same)

theorem beginsApart_word {name : String} (isName : isWord name = true) : BeginsApart name.toList := by
  rcases Parse.exists_cons_of_isWord isName with ⟨c, tail, split, starts, _⟩
  refine ⟨c, tail, split, ?_⟩
  rintro rfl
  cases starts

theorem beginsApart_digit {c : Char} (isDigit : c.isDigit = true) (tail : List Char) :
    BeginsApart (c :: tail) := by
  refine ⟨c, tail, rfl, ?_⟩
  rintro rfl
  cases isDigit

theorem toList_enclosed (least : Nat) (e : Expr) :
    (e.enclosed least e.bareText).toList =
      if e.precedence < least then '(' :: (e.bareText.toList ++ [')']) else e.bareText.toList := by
  rw [enclosed]
  split
  · simp
  · rfl

theorem beginsApart_enclosed {e : Expr} (begins : BeginsApart e.bareText.toList) (least : Nat) :
    BeginsApart (e.enclosed least e.bareText).toList := by
  rw [toList_enclosed]
  split
  · exact ⟨_, _, rfl, by decide⟩
  · exact begins

/-- No expression is written with an equals sign in front. -/
theorem beginsApart_bareText {e : Expr} (writable : e.isWritable = true) :
    BeginsApart e.bareText.toList := by
  induction e using children_induction with
  | step e inductionHypothesis =>
      rcases isWritable_iff.mp writable with ⟨⟨spelled, _⟩, operands⟩
      have ofChild : ∀ child ∈ e.children, ∀ least,
          BeginsApart (child.enclosed least child.bareText).toList := fun child listed least =>
        beginsApart_enclosed (inductionHypothesis child listed (operands child listed)) least
      cases e with
      | int id value =>
          rw [isSpelled, Bool.and_eq_true, decide_eq_true_eq] at spelled
          rcases Parse.exists_toDigits_eq_cons value.toNat with ⟨c, tail, split, isDigit⟩
          rw [bareText, Parse.toList_toString_of_nonneg spelled.1, split]
          exact beginsApart_digit isDigit tail
      | float id value =>
          rw [isSpelled, Bool.not_eq_true'] at spelled
          rcases value.isFinite_or_isWord spelled with ⟨_, _, _, finite⟩ | ⟨isName, _⟩
          · rcases Binary64.exists_text_eq_cons spelled finite with ⟨c, tail, split, isDigit⟩
            rw [bareText, split]
            exact beginsApart_digit isDigit tail
          · exact beginsApart_word isName
      | bool id value =>
          cases value with
          | false => exact beginsApart_word (by decide : isWord "false" = true)
          | true => exact beginsApart_word (by decide : isWord "true" = true)
      | var id name => exact beginsApart_word (Parse.isWord_of_isName spelled)
      | unary id op operand =>
          rw [bareText]
          split
          · rw [String.toList_append]
            exact (ofChild operand List.mem_cons_self _).append _
          · rw [prefixedText_eq]
            split <;> simp only [String.toList_append, List.append_assoc] <;>
            exact BeginsApart.append (by cases op <;> exact ⟨_, _, rfl, by decide⟩) _
      | binary id op lhs rhs =>
          simp only [bareText, String.toList_append, List.append_assoc]
          exact (ofChild lhs List.mem_cons_self _).append _
      | assign id op target value =>
          simp only [bareText, String.toList_append, List.append_assoc]
          exact (ofChild target List.mem_cons_self _).append _
      | ternary id cond whenTrue whenFalse =>
          simp only [bareText, String.toList_append, List.append_assoc]
          exact (ofChild cond List.mem_cons_self _).append _
      | call id callee args =>
          rw [isSpelled, Bool.and_eq_true] at spelled
          simp only [bareText, String.toList_append, List.append_assoc]
          exact (beginsApart_word spelled.1).append _
      | member id base field =>
          simp only [bareText, String.toList_append, List.append_assoc]
          exact (ofChild base List.mem_cons_self _).append _
      | index id base position =>
          simp only [bareText, String.toList_append, List.append_assoc]
          exact (ofChild base List.mem_cons_self _).append _
      | paren id inner =>
          simp only [bareText, String.toList_append, List.append_assoc]
          exact ⟨_, _, rfl, by decide⟩

/-- Wherever an operand may stand, the text of the expression says what the expression says.  A
point may follow only what binds tightly and is no integer. -/
def Says (e : Expr) : Prop :=
  ∀ ⦃p : Progress⦄ ⦃rest : List Char⦄, p.scan.front.awaits = true → goesOn rest = false →
    (rest.head? = some '.' → Precedence.suffixed ≤ e.precedence ∧ e.isInt = false) →
      p.total false (e.bareText.toList ++ rest) = (p.say e.words .operand).total false rest

section

variable {p : Progress} {rest : List Char}

/-- In parentheses anything may follow. -/
theorem Says.total_enclosed {e : Expr} (spoken : e.Says) {least : Nat}
    (awaits : p.scan.front.awaits = true) (ends : goesOn rest = false)
    (noPoint : rest.head? = some '.' → Precedence.suffixed ≤ least ∧ e.isInt = false) :
    p.total false ((e.enclosed least e.bareText).toList ++ rest) =
      (p.say e.words .operand).total false rest := by
  rw [toList_enclosed]
  split
  · simp only [List.cons_append, List.append_assoc, List.nil_append]
    rw [Progress.total_parens (spoken rfl rfl (by simp)), if_neg (Front.ne_of_awaits awaits rfl)]
  · rename_i tight
    exact spoken awaits ends fun isPoint =>
      ⟨Nat.le_trans (noPoint isPoint).1 (Nat.le_of_not_lt tight), (noPoint isPoint).2⟩

/-- Whatever is not a point may follow an expression on its own. -/
theorem Says.text {e : Expr} (spoken : e.Says) : Progress.Spoken e.text.toList e.words := by
  intro p rest awaits ends noPoint
  rw [text_eq_bareText]
  exact spoken awaits ends fun isPoint => absurd isPoint noPoint

theorem total_argsText {args : List Expr} (spoken : ∀ e ∈ args, e.Says)
    (notHeader : p.scan.front ≠ .header) :
    p.opening.total false ((argsText args).toList ++ ')' :: rest) =
      (p.say (wordsOfArgs args) .operand).total false rest := by
  have split : (argsText args).toList = Progress.itemChars chars args := by
    cases args with
    | nil => rfl
    | cons e es => exact toList_argsText_cons e es
  rw [split, wordsOfArgs_eq_separated]
  refine Progress.total_itemChars (fun e listed => ?_) notHeader
  have text := (spoken e listed).text
  rwa [text_eq_bareText] at text

theorem says_int {id : NodeId} {value : Int} (nonneg : 0 ≤ value) : (int id value).Says := by
  intro p rest awaits ends noPoint
  exact Progress.total_int nonneg (Front.ne_of_awaits awaits rfl) ends
    fun isPoint => Bool.noConfusion (noPoint isPoint).2

theorem says_float {id : NodeId} {value : Binary64} (nonneg : value.isNegative = false) :
    (float id value).Says :=
  fun _ _ awaits ends _ => Progress.total_float nonneg (Front.ne_of_awaits awaits rfl) ends

theorem says_bool {id : NodeId} {value : Bool} : (bool id value).Says := by
  intro p rest awaits ends _
  have isName : isWord (if value then "true" else "false") = true := by cases value <;> decide
  have front : TokenScan.frontBehind (if value then "true" else "false") = .operand := by
    cases value <;> decide
  rw [bareText, Progress.total_word isName ends,
    Parse.behind_word _ (Front.ne_of_awaits awaits rfl), front, words]

theorem says_var {id : NodeId} {name : String} (isName : Parse.isName name = true) :
    (var id name).Says :=
  fun _ _ awaits ends _ => Progress.total_name (Parse.isWord_of_isName isName)
    (Parse.isReserved_of_isName isName) (Front.ne_of_awaits awaits rfl) ends

theorem says_unary {id : NodeId} {op : UnaryOp} {operand : Expr} (spoken : operand.Says)
    (begins : BeginsApart operand.bareText.toList) : (unary id op operand).Says := by
  intro p rest awaits ends noPoint
  by_cases isBehind : op.followsOperand = true
  · have text : (unary id op operand).bareText.toList ++ rest =
        (operand.enclosed Precedence.suffixed operand.bareText).toList ++
          (op.symbol.toList ++ rest) := by
      simp [bareText, isBehind]
    have apart : goesOn (op.symbol.toList ++ rest) = false ∧
        (op.symbol.toList ++ rest).head? ≠ some '.' := by
      cases op <;> exact ⟨rfl, by simp [UnaryOp.symbol]⟩
    rw [text, spoken.total_enclosed awaits apart.1 fun isPoint => absurd isPoint apart.2,
      Progress.total_suffixSymbol rfl isBehind, Progress.say_say, words, if_pos isBehind]
  · rw [Bool.not_eq_true] at isBehind
    have loose : (unary id op operand).precedence < Precedence.suffixed := by
      rw [precedence, isBehind]
      decide
    have noPoint : rest.head? ≠ some '.' := fun isPoint =>
      Nat.not_le_of_lt loose (noPoint isPoint).1
    rw [bareText, words, isBehind, if_neg Bool.false_ne_true, if_neg Bool.false_ne_true,
      prefixedText_eq]
    by_cases joined : joins op (operand.enclosed Precedence.prefixed operand.bareText) = true
    · rw [if_pos joined]
      simp only [String.toList_append, List.append_assoc]
      rw [Progress.total_prefixSymbol awaits isBehind (by simp) (by simp)]
      show Progress.total false _
        ('(' :: ((operand.enclosed Precedence.prefixed operand.bareText).toList ++ ')' :: rest)) = _
      rw [Progress.total_parens (spoken.total_enclosed rfl rfl (by simp)), if_neg (by simp),
        Progress.say_say]
      rfl
    · rw [if_neg joined, String.toList_append, List.append_assoc]
      have apart : op.symbol.toList.getLast? = some '-' →
          ((operand.enclosed Precedence.prefixed operand.bareText).toList ++ rest).head? ≠
            some '-' := by
        intro isMinus
        rcases beginsApart_enclosed begins Precedence.prefixed with ⟨c, tail, split, _⟩
        rw [joins, isMinus, split] at joined
        rw [split]
        simpa using joined
      rw [Progress.total_prefixSymbol awaits isBehind
          ((beginsApart_enclosed begins _).append rest).head?_ne apart,
        spoken.total_enclosed rfl ends fun isPoint => absurd isPoint noPoint, Progress.say_say]
      rfl

/-- No expression that binds looser than its suffixes has a point behind it. -/
theorem noPoint_of_loose {e : Expr} (loose : e.precedence < Precedence.suffixed)
    (noPoint : rest.head? = some '.' → Precedence.suffixed ≤ e.precedence ∧ e.isInt = false) :
    rest.head? ≠ some '.' :=
  fun isPoint => Nat.not_le_of_lt loose (noPoint isPoint).1

theorem says_binary {id : NodeId} {op : BinaryOp} {lhs rhs : Expr} (left : lhs.Says)
    (right : rhs.Says) : (binary id op lhs rhs).Says := by
  intro p rest awaits ends noPoint
  have loose : op.precedence < Precedence.suffixed := by cases op <;> decide
  have noPoint := noPoint_of_loose (e := binary id op lhs rhs) loose noPoint
  have text : (binary id op lhs rhs).bareText.toList ++ rest =
      (lhs.enclosed op.precedence lhs.bareText).toList ++ ' ' :: (op.symbol.toList ++
        ' ' :: ((rhs.enclosed (op.precedence + 1) rhs.bareText).toList ++ rest)) := by
    simp [bareText]
  rw [text, left.total_enclosed awaits rfl (by simp), Progress.total_space,
    Progress.total_binarySymbol rfl, Progress.total_space,
    right.total_enclosed rfl ends fun isPoint => absurd isPoint noPoint, Progress.say_say,
    Progress.say_say, words]
  rfl

theorem says_assign {id : NodeId} {op : AssignOp} {target value : Expr} (written : target.Says)
    (spoken : value.Says) : (assign id op target value).Says := by
  intro p rest awaits ends noPoint
  have noPoint := noPoint_of_loose (e := assign id op target value)
    (by decide : Precedence.assignment < Precedence.suffixed) noPoint
  have text : (assign id op target value).bareText.toList ++ rest =
      (target.enclosed Precedence.prefixed target.bareText).toList ++ ' ' :: (op.symbol.toList ++
        ' ' :: ((value.enclosed Precedence.assignment value.bareText).toList ++ rest)) := by
    simp [bareText]
  rw [text, written.total_enclosed awaits rfl (by simp), Progress.total_space,
    Progress.total_assignSymbol, Progress.total_space,
    spoken.total_enclosed rfl ends fun isPoint => absurd isPoint noPoint, Progress.say_say,
    Progress.say_say, words]
  rfl

theorem says_ternary {id : NodeId} {cond whenTrue whenFalse : Expr} (tested : cond.Says)
    (first : whenTrue.Says) (second : whenFalse.Says) :
    (ternary id cond whenTrue whenFalse).Says := by
  intro p rest awaits ends noPoint
  have noPoint := noPoint_of_loose (e := ternary id cond whenTrue whenFalse)
    (by decide : Precedence.choice < Precedence.suffixed) noPoint
  have text : (ternary id cond whenTrue whenFalse).bareText.toList ++ rest =
      (cond.enclosed Precedence.disjunction cond.bareText).toList ++ ' ' :: '?' :: ' ' ::
        ((whenTrue.enclosed Precedence.assignment whenTrue.bareText).toList ++ ' ' :: ':' :: ' ' ::
          ((whenFalse.enclosed Precedence.choice whenFalse.bareText).toList ++ rest)) := by
    simp [bareText]
  rw [text, tested.total_enclosed awaits rfl (by simp), Progress.total_space,
    Progress.total_mark (by decide), Progress.total_space,
    first.total_enclosed rfl rfl (by simp), Progress.total_space,
    Progress.total_mark (by decide), Progress.total_space,
    second.total_enclosed rfl ends fun isPoint => absurd isPoint noPoint, words]
  simp

theorem says_call {id : NodeId} {callee : String} {args : List Expr} (isName : isWord callee = true)
    (free : Parse.isReserved callee = false) (spoken : ∀ e ∈ args, e.Says) :
    (call id callee args).Says := by
  intro p rest awaits ends _
  have text : (call id callee args).bareText.toList ++ rest =
      callee.toList ++ '(' :: ((argsText args).toList ++ ')' :: rest) := by
    simp [bareText]
  rw [text, Progress.total_name isName free (Front.ne_of_awaits awaits rfl) rfl,
    Progress.total_openParen, total_argsText spoken (by simp), Progress.say_say, words]
  rfl

theorem says_member {id : NodeId} {base : Expr} {field : String} (spoken : base.Says)
    (notInt : base.isInt = false) (isName : isWord field = true) : (member id base field).Says := by
  intro p rest awaits ends _
  have text : (member id base field).bareText.toList ++ rest =
      (base.enclosed Precedence.suffixed base.bareText).toList ++ '.' :: (field.toList ++ rest) := by
    simp [bareText]
  rw [text, spoken.total_enclosed awaits rfl fun _ => ⟨Nat.le_refl _, notInt⟩,
    Progress.total_member isName ends, Progress.say_say, words]

theorem says_index {id : NodeId} {base position : Expr} (spoken : base.Says)
    (placed : position.Says) : (index id base position).Says := by
  intro p rest awaits ends _
  have text : (index id base position).bareText.toList ++ rest =
      (base.enclosed Precedence.suffixed base.bareText).toList ++ '[' ::
        ((position.enclosed Precedence.assignment position.bareText).toList ++ ']' :: rest) := by
    simp [bareText]
  have behind : ∀ q : Progress, q.behind (.mark "]") = q.say ["]"] .operand := fun _ => rfl
  rw [text, spoken.total_enclosed awaits rfl (by simp),
    Progress.total_mark (by decide), placed.total_enclosed rfl rfl (by simp),
    Progress.total_lone (by decide), show String.ofList [']'] = "]" from rfl, behind, words]
  simp

theorem says_paren {id : NodeId} {inner : Expr} (spoken : inner.Says) : (paren id inner).Says := by
  intro p rest awaits ends _
  have text : (paren id inner).bareText.toList ++ rest =
      '(' :: (inner.bareText.toList ++ ')' :: rest) := by
    simp [bareText_paren]
  rw [text, Progress.total_parens (spoken rfl rfl (by simp)),
    if_neg (Front.ne_of_awaits awaits rfl), words]

end

/-- The text of a writable expression says what the expression says. -/
theorem says_of_isWritable {e : Expr} (writable : e.isWritable = true) : e.Says := by
  induction e using children_induction with
  | step e inductionHypothesis =>
      rcases isWritable_iff.mp writable with ⟨⟨spelled, noIntMember⟩, operands⟩
      have spoken : ∀ child ∈ e.children, child.Says := fun child listed =>
        inductionHypothesis child listed (operands child listed)
      cases e with
      | int id value =>
          rw [isSpelled, Bool.and_eq_true, decide_eq_true_eq] at spelled
          exact says_int spelled.1
      | float id value =>
          rw [isSpelled, Bool.not_eq_true'] at spelled
          exact says_float spelled
      | bool id value => exact says_bool
      | var id name => exact says_var spelled
      | unary id op operand =>
          exact says_unary (spoken _ List.mem_cons_self)
            (beginsApart_bareText (operands _ List.mem_cons_self))
      | binary id op lhs rhs =>
          exact says_binary (spoken lhs List.mem_cons_self)
            (spoken rhs (List.mem_cons_of_mem _ List.mem_cons_self))
      | assign id op target value =>
          exact says_assign (spoken target List.mem_cons_self)
            (spoken value (List.mem_cons_of_mem _ List.mem_cons_self))
      | ternary id cond whenTrue whenFalse =>
          exact says_ternary (spoken cond List.mem_cons_self)
            (spoken whenTrue (List.mem_cons_of_mem _ List.mem_cons_self))
            (spoken whenFalse (List.mem_cons_of_mem _ (List.mem_cons_of_mem _ List.mem_cons_self)))
      | call id callee args =>
          rw [isSpelled, Bool.and_eq_true, Bool.not_eq_true'] at spelled
          exact says_call spelled.1 spelled.2 spoken
      | member id base field =>
          exact says_member (spoken base List.mem_cons_self) noIntMember spelled
      | index id base position =>
          exact says_index (spoken base List.mem_cons_self)
            (spoken position (List.mem_cons_of_mem _ List.mem_cons_self))
      | paren id inner => exact says_paren (spoken inner List.mem_cons_self)

end Expr
end Whittle
