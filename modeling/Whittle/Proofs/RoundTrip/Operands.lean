import Whittle.Proofs.Number.Literals
import Whittle.Proofs.RoundTrip.Plain

namespace Whittle

/-!
# Reading operands

What a reader of operands makes of the text of a plain operand depends on the
text behind it: a word must not go on, an integer must not be followed by a
point, and a name must not be followed by a parenthesis.  With that, names,
literals, calls and everything in parentheses are read as what they are, and so
is whatever is written behind them or in front of them.

Readers leave the gap behind an operand either in place or skipped, so the text
they leave is known only by what it shows.
-/

namespace Expr

def chars (e : Expr) : List Char :=
  e.bareText.toList

section

variable {id : NodeId}

theorem chars_front {op : UnaryOp} {operand : Expr} (inFront : op.followsOperand = false)
    (tight : Precedence.prefixed ≤ operand.precedence)
    (apart : joins op operand.bareText = false) :
    (unary id op operand).chars = op.symbol.toList ++ operand.chars := by
  have notBehind : ¬op.followsOperand = true := ne_true_of_eq_false inFront
  rw [chars, bareText, if_neg notBehind, enclosed_of_le tight, prefixedText_eq, apart,
    if_neg Bool.false_ne_true, String.toList_append]
  rfl

theorem chars_behind {op : UnaryOp} {operand : Expr} (isBehind : op.followsOperand = true)
    (tight : Precedence.suffixed ≤ operand.precedence) :
    (unary id op operand).chars = operand.chars ++ op.symbol.toList := by
  rw [chars, bareText, if_pos isBehind, enclosed_of_le tight, String.toList_append]
  rfl

theorem chars_binary {op : BinaryOp} {lhs rhs : Expr} (tightLeft : op.precedence ≤ lhs.precedence)
    (tightRight : op.precedence + 1 ≤ rhs.precedence) :
    (binary id op lhs rhs).chars =
      lhs.chars ++ ' ' :: (op.symbol.toList ++ ' ' :: rhs.chars) := by
  rw [chars, bareText, enclosed_of_le tightLeft, enclosed_of_le tightRight]
  simp [chars]

theorem chars_assign {op : AssignOp} {target value : Expr}
    (tight : Precedence.prefixed ≤ target.precedence) :
    (assign id op target value).chars =
      target.chars ++ ' ' :: (op.symbol.toList ++ ' ' :: value.chars) := by
  rw [chars, bareText, enclosed_of_le tight, enclosed_assignment]
  simp [chars]

theorem chars_ternary {cond whenTrue whenFalse : Expr}
    (tightCond : Precedence.disjunction ≤ cond.precedence)
    (tightFalse : Precedence.choice ≤ whenFalse.precedence) :
    (ternary id cond whenTrue whenFalse).chars =
      cond.chars ++ ' ' :: '?' :: ' ' :: (whenTrue.chars ++
        ' ' :: ':' :: ' ' :: whenFalse.chars) := by
  rw [chars, bareText, enclosed_of_le tightCond, enclosed_of_le tightFalse, enclosed_assignment]
  simp [chars]

theorem chars_member {base : Expr} {field : String}
    (tight : Precedence.suffixed ≤ base.precedence) :
    (member id base field).chars = base.chars ++ '.' :: field.toList := by
  rw [chars, bareText, enclosed_of_le tight]
  simp [chars]

theorem chars_index {base position : Expr} (tight : Precedence.suffixed ≤ base.precedence) :
    (index id base position).chars = base.chars ++ '[' :: (position.chars ++ [']']) := by
  rw [chars, bareText, enclosed_of_le tight, enclosed_assignment]
  simp [chars]

theorem chars_paren (inner : Expr) : (paren id inner).chars = '(' :: (inner.chars ++ [')']) := by
  rw [chars, bareText_paren]
  simp [chars]

def moreArgs (es : List Expr) : List Char :=
  es.flatMap fun e => ',' :: ' ' :: e.chars

theorem toList_argsText_cons (e : Expr) (rest : List Expr) :
    (argsText (e :: rest)).toList = e.chars ++ moreArgs rest := by
  induction rest generalizing e with
  | nil =>
      rw [argsText, enclosed_assignment]
      exact (List.append_nil _).symm
  | cons next rest inductionHypothesis =>
      rw [argsText, enclosed_assignment, String.toList_append, inductionHypothesis]
      simp [chars, moreArgs]

theorem chars_call (callee : String) (args : List Expr) :
    (call id callee args).chars = callee.toList ++ '(' :: ((argsText args).toList ++ [')']) := by
  rw [chars, bareText]
  simp

end

/-- Whether an operand without operators in front of it may begin with the
character. -/
def beginsOperand (c : Char) : Bool :=
  Parse.isWordStart c || c.isDigit || c == '('

def beginsExpr (c : Char) : Bool :=
  beginsOperand c || c == '-' || c == '!' || c == '+'

theorem beginsExpr_of_beginsOperand {c : Char} (begins : beginsOperand c = true) :
    beginsExpr c = true := by
  simp [beginsExpr, begins]

theorem isTokenBlank_of_beginsExpr {c : Char} (begins : beginsExpr c = true) :
    Text.isTokenBlank c = false := by
  by_contra blank
  simp only [Text.isTokenBlank, Bool.not_eq_false, Bool.or_eq_true, beq_iff_eq] at blank
  rcases blank with (((rfl | rfl) | rfl) | rfl) | rfl <;> revert begins <;> decide

theorem ne_of_beginsExpr {c other : Char} (begins : beginsExpr c = true)
    (isOther : beginsExpr other = false) : c ≠ other := by
  rintro rfl
  rw [begins] at isOther
  cases isOther

theorem ne_of_beginsOperand {c other : Char} (begins : beginsOperand c = true)
    (isOther : beginsOperand other = false) : c ≠ other := by
  rintro rfl
  rw [begins] at isOther
  cases isOther

theorem Plain.exists_chars_eq_cons {e : Expr} (plain : e.Plain) :
    ∃ c tail, e.chars = c :: tail ∧ beginsExpr c = true ∧
      (Precedence.suffixed ≤ e.precedence → beginsOperand c = true) := by
  induction plain with
  | @int value nonneg fits =>
      rcases Parse.exists_toDigits_eq_cons value.toNat with ⟨c, tail, split, isDigit⟩
      have begins : beginsOperand c = true := by simp [beginsOperand, isDigit]
      refine ⟨c, tail, ?_, beginsExpr_of_beginsOperand begins, fun _ => begins⟩
      rw [chars, bareText, Parse.toList_toString_of_nonneg nonneg, split]
  | @float value nonneg _ _ _ finite =>
      rcases Binary64.exists_text_eq_cons nonneg finite with ⟨c, tail, split, isDigit⟩
      have begins : beginsOperand c = true := by simp [beginsOperand, isDigit]
      refine ⟨c, tail, ?_, beginsExpr_of_beginsOperand begins, fun _ => begins⟩
      rw [chars, bareText, split]
  | @bool value =>
      cases value with
      | true => exact ⟨'t', ['r', 'u', 'e'], rfl, by decide, fun _ => by decide⟩
      | false => exact ⟨'f', ['a', 'l', 's', 'e'], rfl, by decide, fun _ => by decide⟩
  | @var name named =>
      rcases Parse.exists_cons_of_isWord (Parse.isWord_of_isName named) with
        ⟨c, tail, split, starts, _⟩
      have begins : beginsOperand c = true := by simp [beginsOperand, starts]
      refine ⟨c, tail, ?_, beginsExpr_of_beginsOperand begins, fun _ => begins⟩
      rw [chars, bareText, split]
  | @front op operand inFront inner tight apart inductionHypothesis =>
      rw [chars_front inFront tight apart]
      have loose : ¬Precedence.suffixed ≤ (Expr.unary .unnumbered op operand).precedence := by
        rw [precedence, inFront, if_neg Bool.false_ne_true]
        decide
      cases op with
      | negate => exact ⟨'-', _, rfl, by decide, fun tight => absurd tight loose⟩
      | not => exact ⟨'!', _, rfl, by decide, fun tight => absurd tight loose⟩
      | preIncrement => exact ⟨'+', _, rfl, by decide, fun tight => absurd tight loose⟩
      | preDecrement => exact ⟨'-', _, rfl, by decide, fun tight => absurd tight loose⟩
      | postIncrement => cases inFront
      | postDecrement => cases inFront
  | behind isBehind inner tight inductionHypothesis =>
      rw [chars_behind isBehind tight]
      rcases inductionHypothesis with ⟨c, tail, split, begins, asOperand⟩
      exact ⟨c, _, by rw [split]; rfl, begins, fun _ => asOperand tight⟩
  | @binary op lhs rhs left right tightLeft tightRight inductionHypothesis _ =>
      rw [chars_binary tightLeft tightRight]
      rcases inductionHypothesis with ⟨c, tail, split, begins, _⟩
      have loose : ¬Precedence.suffixed ≤ op.precedence := by cases op <;> decide
      exact ⟨c, _, by rw [split]; rfl, begins, fun tight => absurd tight loose⟩
  | assign written read tight inductionHypothesis _ =>
      rw [chars_assign tight]
      rcases inductionHypothesis with ⟨c, tail, split, begins, _⟩
      have loose : ¬Precedence.suffixed ≤ Precedence.assignment := by decide
      exact ⟨c, _, by rw [split]; rfl, begins, fun tight => absurd tight loose⟩
  | ternary tested first second tightCond tightFalse inductionHypothesis _ _ =>
      rw [chars_ternary tightCond tightFalse]
      rcases inductionHypothesis with ⟨c, tail, split, begins, _⟩
      have loose : ¬Precedence.suffixed ≤ Precedence.choice := by decide
      exact ⟨c, _, by rw [split]; rfl, begins, fun tight => absurd tight loose⟩
  | @call callee args called passed _ =>
      rcases Parse.exists_cons_of_isWord (Parse.isWord_of_isCallee called) with
        ⟨c, tail, split, starts, _⟩
      have begins : beginsOperand c = true := by simp [beginsOperand, starts]
      rw [chars_call]
      exact ⟨c, _, by rw [split]; rfl, beginsExpr_of_beginsOperand begins, fun _ => begins⟩
  | member inner tight notInt selected inductionHypothesis =>
      rw [chars_member tight]
      rcases inductionHypothesis with ⟨c, tail, split, begins, asOperand⟩
      exact ⟨c, _, by rw [split]; rfl, begins, fun _ => asOperand tight⟩
  | index inner position tight inductionHypothesis _ =>
      rw [chars_index tight]
      rcases inductionHypothesis with ⟨c, tail, split, begins, asOperand⟩
      exact ⟨c, _, by rw [split]; rfl, begins, fun _ => asOperand tight⟩
  | paren enclosed _ =>
      rw [chars_paren]
      exact ⟨'(', _, rfl, by decide, fun _ => by decide⟩

/-- The text of an expression shows at once. -/
theorem Plain.shows {e : Expr} (plain : e.Plain) {rest : List Char} :
    Parse.Shows (e.chars ++ rest) (e.chars ++ rest) := by
  rcases plain.exists_chars_eq_cons with ⟨c, tail, split, begins, _⟩
  rw [split]
  exact Parse.shows_cons (isTokenBlank_of_beginsExpr begins)
    (ne_of_beginsExpr begins (by decide))

theorem Plain.length_chars_pos {e : Expr} (plain : e.Plain) : 0 < e.chars.length := by
  rcases plain.exists_chars_eq_cons with ⟨c, tail, split, _, _⟩
  rw [split]
  exact Nat.succ_pos _

/-- Apart from the two truth values, no keyword is the first word of an
expression. -/
theorem Plain.behindKeyword?_eq_none {e : Expr} (plain : e.Plain) {name : String}
    (isWord : Parse.isWord name = true) (notTrue : name ≠ "true") (notFalse : name ≠ "false")
    (notCalled : Parse.isCallee name = false) {rest : List Char}
    (ends : Parse.goesOn rest = false) :
    Parse.behindKeyword? name (e.chars ++ rest) = none := by
  have noWord : ∀ {c : Char} {tail : List Char}, Parse.isWordStart c = false →
      Parse.behindKeyword? name (c :: tail) = none := by
    intro c tail starts
    refine Parse.behindKeyword?_eq_none_of_head isWord ?_
    rintro other ⟨⟩
    exact starts
  have differ : ∀ {other : String}, Parse.isCallee other = true → other ≠ name := by
    rintro other called rfl
    rw [called] at notCalled
    cases notCalled
  induction plain generalizing rest with
  | @int value nonneg fits =>
      rcases Parse.exists_toDigits_eq_cons value.toNat with ⟨c, tail, split, isDigit⟩
      rw [chars, bareText, Parse.toList_toString_of_nonneg nonneg, split]
      exact noWord (Parse.not_isWordStart_of_isDigit isDigit)
  | @float value nonneg _ _ _ finite =>
      rcases Binary64.exists_text_eq_cons nonneg finite with ⟨c, tail, split, isDigit⟩
      rw [chars, bareText, split]
      exact noWord (Parse.not_isWordStart_of_isDigit isDigit)
  | @bool value =>
      cases value with
      | true => exact Parse.behindKeyword?_eq_none_of_ne isWord rfl (Ne.symm notTrue) ends
      | false => exact Parse.behindKeyword?_eq_none_of_ne isWord rfl (Ne.symm notFalse) ends
  | @var other named =>
      exact Parse.behindKeyword?_eq_none_of_ne isWord (Parse.isWord_of_isName named)
        (differ (Parse.isCallee_of_isName named)) ends
  | @front op operand inFront inner tight apart _ =>
      rw [chars_front inFront tight apart]
      cases op with
      | negate | not | preIncrement | preDecrement => exact noWord (by decide)
      | postIncrement | postDecrement => cases inFront
  | @behind op operand isBehind inner tight inductionHypothesis =>
      rw [chars_behind isBehind tight, List.append_assoc]
      refine inductionHypothesis ?_
      cases op with
      | postIncrement | postDecrement => rfl
      | negate | not | preIncrement | preDecrement => cases isBehind
  | binary left right tightLeft tightRight inductionHypothesis _ =>
      rw [chars_binary tightLeft tightRight, List.append_assoc]
      exact inductionHypothesis rfl
  | assign written read tight inductionHypothesis _ =>
      rw [chars_assign tight, List.append_assoc]
      exact inductionHypothesis rfl
  | ternary tested first second tightCond tightFalse inductionHypothesis _ _ =>
      rw [chars_ternary tightCond tightFalse, List.append_assoc]
      exact inductionHypothesis rfl
  | call called passed _ =>
      rw [chars_call, List.append_assoc]
      exact Parse.behindKeyword?_eq_none_of_ne isWord (Parse.isWord_of_isCallee called)
        (differ called) rfl
  | member inner tight notInt selected inductionHypothesis =>
      rw [chars_member tight, List.append_assoc]
      exact inductionHypothesis rfl
  | index inner position tight inductionHypothesis _ =>
      rw [chars_index tight, List.append_assoc]
      exact inductionHypothesis rfl
  | paren enclosed _ =>
      rw [chars_paren]
      exact noWord (by decide)

end Expr

namespace Parse

/-! ## Names, literals and parentheses -/

section

variable {inner : Reader Expr} {fuel : Nat} {input rest next : List Char}

/-- A parenthesis that opens is read with what it encloses. -/
theorem primary_eq_paren (shown : Shows input ('(' :: rest)) :
    primary inner fuel input =
      (do
        let e ← inner
        token ")"
        return Expr.paren .unnumbered e) rest := by
  unfold primary
  rw [Reader.bind_eq_of_ok shown.gap_eq, Reader.get_bind]
  rfl

theorem primary_eq_of_ne_paren {c : Char} (shown : Shows input (c :: rest)) (notParen : c ≠ '(') :
    primary inner fuel input =
      (if c.isDigit || c == '.' then number
      else do
        if ← atKeyword "true" then
          keyword "true"
          return Expr.bool .unnumbered true
        else if ← atKeyword "false" then
          keyword "false"
          return Expr.bool .unnumbered false
        else named inner fuel) (c :: rest) := by
  unfold primary
  rw [Reader.bind_eq_of_ok shown.gap_eq, Reader.get_bind]
  refine congrFun ?_ (c :: rest)
  split
  · rename_i isParen
    exact absurd (List.cons.inj isParen).1 notParen
  · rfl

/-- What begins with a digit is read as a number. -/
theorem primary_eq_number {c : Char} (shown : Shows input (c :: rest)) (isDigit : c.isDigit = true) :
    primary inner fuel input = number (c :: rest) := by
  have notParen : c ≠ '(' := by
    rintro rfl
    cases isDigit
  rw [primary_eq_of_ne_paren shown notParen, isDigit]
  rfl

/-- What begins with a word is one of the truth values, or it is named. -/
theorem primary_eq_of_isWordStart {c : Char} (shown : Shows input (c :: rest))
    (starts : isWordStart c = true) :
    primary inner fuel input =
      (do
        if ← atKeyword "true" then
          keyword "true"
          return Expr.bool .unnumbered true
        else if ← atKeyword "false" then
          keyword "false"
          return Expr.bool .unnumbered false
        else named inner fuel) (c :: rest) := by
  have notParen : c ≠ '(' := by
    rintro rfl
    revert starts
    decide
  have noNumber : (c.isDigit || c == '.') = false := by
    have notPoint : c ≠ '.' := by
      rintro rfl
      revert starts
      decide
    have notDigit : c.isDigit = false := by
      by_contra isDigit
      rw [not_isWordStart_of_isDigit (eq_true_of_ne_false isDigit)] at starts
      cases starts
    rw [notDigit, beq_false_of_ne notPoint]
    rfl
  rw [primary_eq_of_ne_paren shown notParen, noNumber]
  rfl

theorem primary_eq_true (shown : Shows input ("true".toList ++ rest))
    (ends : goesOn rest = false) :
    primary inner fuel input = .ok (.bool .unnumbered true, rest) := by
  have starts : primary inner fuel input = _ :=
    primary_eq_of_isWordStart shown rfl
  rw [starts]
  show (atKeyword "true" >>= _) ("true".toList ++ rest) = _
  rw [Reader.bind_eq_of_ok (atKeyword_eq_true ends), if_pos rfl,
    Reader.bind_eq_of_ok (shown.self.keyword_eq ends)]
  rfl

theorem primary_eq_false (shown : Shows input ("false".toList ++ rest))
    (ends : goesOn rest = false) :
    primary inner fuel input = .ok (.bool .unnumbered false, rest) := by
  have absent : behindKeyword? "true" ("false".toList ++ rest) = none :=
    behindKeyword?_eq_none_of_ne rfl rfl (by decide) ends
  have starts : primary inner fuel input = _ :=
    primary_eq_of_isWordStart shown rfl
  rw [starts]
  show (atKeyword "true" >>= _) ("false".toList ++ rest) = _
  rw [Reader.bind_eq_of_ok (atKeyword_eq_false absent), if_neg Bool.false_ne_true,
    Reader.bind_eq_of_ok (atKeyword_eq_true ends), if_pos rfl,
    Reader.bind_eq_of_ok (shown.self.keyword_eq ends)]
  rfl

theorem primary_eq_named {name : String} (called : isCallee name = true)
    (shown : Shows input (name.toList ++ rest)) (ends : goesOn rest = false) :
    primary inner fuel input = named inner fuel (name.toList ++ rest) := by
  have isWord := isWord_of_isCallee called
  have absent : ∀ {keyword : String}, keyword ∈ reserved →
      behindKeyword? keyword (name.toList ++ rest) = none := by
    intro keyword listed
    refine behindKeyword?_eq_none_of_ne (isWord_of_mem_reserved listed) isWord ?_ ends
    rintro rfl
    have notReserved := isReserved_of_isCallee called
    rw [isReserved, List.contains_eq_mem, decide_eq_false_iff_not] at notReserved
    exact notReserved listed
  rcases exists_cons_of_isWord isWord with ⟨c, tail, split, starts, _⟩
  have shown' : Shows input (c :: (tail ++ rest)) := by
    rw [split] at shown
    exact shown
  rw [primary_eq_of_isWordStart shown' starts, ← List.cons_append, ← split,
    Reader.bind_eq_of_ok (atKeyword_eq_false (absent (by decide))), if_neg Bool.false_ne_true,
    Reader.bind_eq_of_ok (atKeyword_eq_false (absent (by decide))), if_neg Bool.false_ne_true]

theorem isPrefixOf_paren_eq_false (noParen : next.head? ≠ some '(') :
    "(".toList.isPrefixOf next = false := by
  cases next with
  | nil => rfl
  | cons c next =>
      have differ : ¬c = '(' := fun same => noParen (congrArg some same)
      show ('(' == c && _) = false
      rw [beq_false_of_ne (Ne.symm differ), Bool.false_and]

/-- A name without a parenthesis behind it is a variable. -/
theorem named_eq_var {name : String} (isVar : isName name = true)
    (shown : Shows input (name.toList ++ rest)) (ends : goesOn rest = false)
    (shownBehind : Shows rest next) (noParen : next.head? ≠ some '(') :
    named inner fuel input = .ok (.var .unnumbered name, next) := by
  unfold named
  rw [Reader.get_bind, Reader.bind_eq_of_ok (shown.word_eq (isWord_of_isName isVar) ends),
    Reader.bind_eq_of_ok (shownBehind.atToken_eq "("), isPrefixOf_paren_eq_false noParen,
    if_neg Bool.false_ne_true, isReserved_of_isName isVar, ofKeyword?_of_isName isVar]
  rfl

/-- A name with a parenthesis behind it is a call. -/
theorem named_eq_call {callee : String} (called : isCallee callee = true)
    (shown : Shows input (callee.toList ++ '(' :: rest)) :
    named inner fuel input =
      (do
        let args ← arguments inner fuel
        token ")"
        return Expr.call .unnumbered callee args) rest := by
  have opens : Shows ('(' :: rest) ('(' :: rest) := shows_cons rfl (by decide)
  have opened : token "(" ('(' :: rest) = .ok ((), rest) :=
    opens.token_eq
  have begins : "(".toList.isPrefixOf ('(' :: rest) = true := rfl
  unfold named
  rw [Reader.get_bind, Reader.bind_eq_of_ok (shown.word_eq (isWord_of_isCallee called) rfl),
    Reader.bind_eq_of_ok (opens.atToken_eq "("), begins, if_pos rfl, isReserved_of_isCallee called,
    if_neg Bool.false_ne_true, Reader.bind_eq_of_ok opened]

end

end Parse
end Whittle
