import Whittle.Proofs.RoundTrip.Operands

namespace Whittle
namespace Parse

/-!
# Reading expressions

The readers of every strength are followed through the text of a plain
expression.  Operands with something behind them, and chains of binary
operators, are read from the left with the part that is already there in hand;
so what is shown of both is how far reading has come when the text of the
expression is used up.  A count that is larger than the number of characters is
never used up.
-/

open Whittle.Expr (moreArgs)

/-- Whether the text ends an expression in front of it. -/
def closes : List Char → Bool
  | c :: _ => c == ')' || c == ']' || c == ',' || c == ';' || c == ':'
  | [] => false

/-- The reader takes the text of an expression for that expression wherever the
expression is closed. -/
def ReadBy (inner : Reader Expr) (e : Expr) : Prop :=
  ∀ {input rest next : List Char}, Shows input (e.chars ++ rest) → goesOn rest = false →
    Shows rest next → closes next = true → inner input = .ok (e, next)

/-- The reader does so for all plain expressions with fewer characters. -/
def ReadsBelow (inner : Reader Expr) (length : Nat) : Prop :=
  ∀ e : Expr, e.Plain → e.chars.length < length → ReadBy inner e

variable {inner : Reader Expr} {fuel : Nat} {input rest next : List Char}

theorem Shows.comma_eq_error (shown : Shows input next) (noComma : next.head? ≠ some ',') :
    token "," input = .error ⟨.expected ",", next⟩ := by
  refine shown.token_eq_error ?_
  cases next with
  | nil => rfl
  | cons c next =>
      have differ : ',' ≠ c := fun same => noComma (congrArg some same.symm)
      show (',' == c && _) = false
      rw [beq_false_of_ne differ, Bool.false_and]

theorem manyBehind_eq_args {es : List Expr} (plain : ∀ e ∈ es, e.Plain)
    (reads : ∀ e ∈ es, ReadBy inner e) (count : es.length ≤ fuel)
    (shown : Shows input (moreArgs es ++ ')' :: rest)) :
    ∃ left, Reader.manyBehind (token ",") inner fuel input = .ok (es, left) ∧
      Shows left (')' :: rest) := by
  induction es generalizing fuel input with
  | nil =>
      have noComma : (')' :: rest).head? ≠ some ',' := by simp
      exact ⟨input, Reader.manyBehind_eq_nil (shown.comma_eq_error noComma), shown⟩
  | cons e es inductionHypothesis =>
      cases fuel with
      | zero => cases count
      | succ fuel =>
          have isPlain := plain e List.mem_cons_self
          have shownArg : Shows input
              (",".toList ++ (' ' :: (e.chars ++ (moreArgs es ++ ')' :: rest)))) := by
            simpa [moreArgs] using shown
          have ends : goesOn (moreArgs es ++ ')' :: rest) = false := by
            cases es <;> rfl
          have closed : closes (moreArgs es ++ ')' :: rest) = true := by
            cases es <;> rfl
          have shownBehind : Shows (moreArgs es ++ ')' :: rest) (moreArgs es ++ ')' :: rest) := by
            cases es <;> exact shows_cons rfl (by decide)
          have first : inner (' ' :: (e.chars ++ (moreArgs es ++ ')' :: rest))) =
              .ok (e, moreArgs es ++ ')' :: rest) :=
            reads e List.mem_cons_self (shows_space_iff.mpr isPlain.shows) ends shownBehind closed
          rcases inductionHypothesis (fun e listed => plain e (List.mem_cons_of_mem _ listed))
            (fun e listed => reads e (List.mem_cons_of_mem _ listed))
            (Nat.le_of_succ_le_succ count) shownBehind with ⟨left, others, shownLeft⟩
          exact ⟨left, Reader.manyBehind_eq_cons shownArg.token_eq first others, shownLeft⟩

theorem arguments_eq {args : List Expr} (plain : ∀ e ∈ args, e.Plain)
    (reads : ∀ e ∈ args, ReadBy inner e) (count : args.length ≤ fuel)
    (shown : Shows input ((Expr.argsText args).toList ++ ')' :: rest)) :
    ∃ left, arguments inner fuel input = .ok (args, left) ∧ Shows left (')' :: rest) := by
  unfold arguments
  rw [Reader.bind_eq_of_ok shown.gap_eq, Reader.bind_eq_of_ok (shown.self.atToken_eq ")")]
  cases args with
  | nil => exact ⟨')' :: rest, rfl, shown.self⟩
  | cons e es =>
      have isPlain := plain e List.mem_cons_self
      have ends : goesOn (moreArgs es ++ ')' :: rest) = false := by
        cases es <;> rfl
      have closed : closes (moreArgs es ++ ')' :: rest) = true := by
        cases es <;> rfl
      have shownBehind : Shows (moreArgs es ++ ')' :: rest) (moreArgs es ++ ')' :: rest) := by
        cases es <;> exact shows_cons rfl (by decide)
      rw [Expr.toList_argsText_cons, List.append_assoc] at shown ⊢
      have notClosed :
          ")".toList.isPrefixOf (e.chars ++ (moreArgs es ++ ')' :: rest)) = false := by
        rcases isPlain.exists_chars_eq_cons with ⟨c, tail, split, begins, _⟩
        have differ : ')' ≠ c := (Expr.ne_of_beginsExpr begins (by decide)).symm
        rw [split]
        show (')' == c && _) = false
        rw [beq_false_of_ne differ, Bool.false_and]
      have notVoid : behindKeyword? "void" (e.chars ++ (moreArgs es ++ ')' :: rest)) = none :=
        isPlain.behindKeyword?_eq_none rfl (by decide) (by decide) (by decide) ends
      rw [notClosed, if_neg Bool.false_ne_true, Reader.bind_eq_of_ok (atKeyword_eq_false notVoid),
        if_neg Bool.false_ne_true,
        Reader.bind_eq_of_ok (reads e List.mem_cons_self shown.self ends shownBehind closed)]
      rcases manyBehind_eq_args (fun e listed => plain e (List.mem_cons_of_mem _ listed))
        (fun e listed => reads e (List.mem_cons_of_mem _ listed)) (Nat.le_of_succ_le count)
        shownBehind with ⟨left, others, shownLeft⟩
      rw [Reader.bind_eq_of_ok others]
      exact ⟨left, rfl, shownLeft⟩

/-- Whether the text goes on with something that is written behind an operand. -/
def continues : List Char → Bool
  | '.' :: _ => true
  | '[' :: _ => true
  | '(' :: _ => true
  | '+' :: '+' :: _ => true
  | '-' :: '-' :: _ => true
  | _ => false

theorem suffixes_eq_member {e : Expr} {field : String} (shown : Shows input ('.' :: (field.toList ++ rest)))
    (selected : isWord field = true) (ends : goesOn rest = false) :
    suffixes inner (fuel + 1) e input = suffixes inner fuel (.member .unnumbered e field) rest := by
  rcases exists_cons_of_isWord selected with ⟨c, tail, split, starts, _⟩
  have named : Shows (c :: (tail ++ rest)) (field.toList ++ rest) := by
    rw [split]
    exact shows_cons (not_isTokenBlank_of_isWordStart starts) (ne_slash_of_isWordStart starts)
  have shown : Shows input ('.' :: c :: (tail ++ rest)) := by
    rw [split] at shown
    exact shown
  rw [suffixes, Reader.get_bind, Reader.bind_eq_of_ok shown.gap_eq, Reader.get_bind]
  show (if isWordStart c = true then _ else _ : Reader Expr) _ = _
  rw [if_pos starts, Reader.set_bind, Reader.bind_eq_of_ok (named.word_eq selected ends)]

theorem suffixes_eq_index {e position : Expr} {left : List Char} (shown : Shows input ('[' :: rest))
    (read : inner rest = .ok (position, left)) (closed : Shows left (']' :: next)) :
    suffixes inner (fuel + 1) e input =
      suffixes inner fuel (.index .unnumbered e position) next := by
  have bracket : token "]" left = .ok ((), next) := closed.token_eq
  rw [suffixes, Reader.get_bind, Reader.bind_eq_of_ok shown.gap_eq, Reader.get_bind]
  show (set rest >>= _ : Reader Expr) _ = _
  rw [Reader.set_bind, Reader.bind_eq_of_ok read, Reader.bind_eq_of_ok bracket]

theorem suffixes_eq_behind {e : Expr} {op : UnaryOp} (isBehind : op.followsOperand = true)
    (shown : Shows input (op.symbol.toList ++ rest)) :
    suffixes inner (fuel + 1) e input = suffixes inner fuel (.unary .unnumbered op e) rest := by
  cases op with
  | postIncrement | postDecrement =>
      rw [suffixes, Reader.get_bind, Reader.bind_eq_of_ok shown.gap_eq, Reader.get_bind]
      rfl
  | negate | not | preIncrement | preDecrement => cases isBehind

/-- Where nothing is written behind an operand, reading stops. -/
theorem suffixes_eq_self {e : Expr} (shown : Shows input next) (stops : continues next = false) :
    suffixes inner (fuel + 1) e input = .ok (e, input) := by
  rw [suffixes, Reader.get_bind, Reader.bind_eq_of_ok shown.gap_eq, Reader.get_bind]
  split
  · cases stops
  · cases stops
  · cases stops
  · cases stops
  · rw [Reader.set_bind]
    rfl

theorem ReadsBelow.mono {length least : Nat} (reads : ReadsBelow inner length)
    (less : least ≤ length) : ReadsBelow inner least :=
  fun e plain short => reads e plain (lt_of_lt_of_le short less)

theorem length_le_length_moreArgs (es : List Expr) : es.length ≤ (moreArgs es).length := by
  induction es with
  | nil => exact Nat.le_refl 0
  | cons e es inductionHypothesis =>
      rw [moreArgs, List.flatMap_cons, List.length_append, List.length_cons, ← moreArgs]
      simp only [List.length_cons]
      omega

theorem length_le_length_argsText {args : List Expr} (plain : ∀ e ∈ args, e.Plain) :
    args.length ≤ (Expr.argsText args).toList.length := by
  cases args with
  | nil => exact Nat.zero_le _
  | cons e es =>
      have some? := (plain e List.mem_cons_self).length_chars_pos
      have behind := length_le_length_moreArgs es
      rw [Expr.toList_argsText_cons, List.length_append, List.length_cons]
      omega

theorem length_chars_le_moreArgs {es : List Expr} {e : Expr} (listed : e ∈ es) :
    e.chars.length ≤ (moreArgs es).length := by
  induction es with
  | nil => cases listed
  | cons first es inductionHypothesis =>
      rw [moreArgs, List.flatMap_cons, List.length_append, ← moreArgs]
      simp only [List.length_cons]
      rcases List.mem_cons.mp listed with rfl | behind
      · omega
      · have within := inductionHypothesis behind
        omega

theorem length_chars_le_argsText {args : List Expr} {e : Expr} (listed : e ∈ args) :
    e.chars.length ≤ (Expr.argsText args).toList.length := by
  cases args with
  | nil => cases listed
  | cons first es =>
      rw [Expr.toList_argsText_cons, List.length_append]
      rcases List.mem_cons.mp listed with rfl | behind
      · omega
      · have within := length_chars_le_moreArgs behind
        omega

theorem shows_args {args : List Expr} (plain : ∀ e ∈ args, e.Plain) :
    Shows ((Expr.argsText args).toList ++ ')' :: rest)
      ((Expr.argsText args).toList ++ ')' :: rest) := by
  cases args with
  | nil => exact shows_cons rfl (by decide)
  | cons e es =>
      rw [Expr.toList_argsText_cons, List.append_assoc]
      exact (plain e List.mem_cons_self).shows

theorem primary_eq_int {value : Int} (nonneg : 0 ≤ value) (fits : value ≤ largestInt)
    (shown : Shows input ((Expr.int .unnumbered value).chars ++ rest)) (ends : goesOn rest = false)
    (noPoint : rest.head? ≠ some '.') :
    primary inner fuel input = .ok (.int .unnumbered value, rest) := by
  rcases exists_toDigits_eq_cons value.toNat with ⟨c, tail, split, isDigit⟩
  have written : (Expr.int .unnumbered value).chars = Nat.toDigits 10 value.toNat :=
    toList_toString_of_nonneg nonneg
  have same : ((value.toNat : Nat) : Int) = value := Int.toNat_of_nonneg nonneg
  have fitsNat : value.toNat ≤ largestInt := by omega
  have isRead := number_eq_int fitsNat ends noPoint
  rw [written, split] at shown
  rw [split, same] at isRead
  rw [primary_eq_number shown isDigit]
  exact isRead

theorem primary_eq_float {value : Binary64} (nonneg : value.isNegative = false)
    {significand : Nat} {exponent : Int} {isPower : Bool}
    (finite : value.magnitude = .finite significand exponent isPower)
    (shown : Shows input ((Expr.float .unnumbered value).chars ++ rest))
    (ends : goesOn rest = false) :
    primary inner fuel input = .ok (.float .unnumbered value, rest) := by
  rcases Binary64.exists_text_eq_cons nonneg finite with ⟨c, tail, split, isDigit⟩
  have isRead := number_eq_float (Binary64.floatText?_text nonneg finite ends)
    (Binary64.ofText?_text nonneg finite)
  rw [Expr.chars, Expr.bareText, split] at shown
  rw [split] at isRead
  rw [primary_eq_number shown isDigit]
  exact isRead

theorem primary_eq_call {callee : String} {args : List Expr} (called : isCallee callee = true)
    (passed : ∀ e ∈ args, e.Plain)
    (reads : ReadsBelow inner (Expr.call .unnumbered callee args).chars.length)
    (count : (Expr.call .unnumbered callee args).chars.length ≤ fuel)
    (shown : Shows input ((Expr.call .unnumbered callee args).chars ++ rest)) :
    primary inner fuel input = .ok (.call .unnumbered callee args, rest) := by
  rw [Expr.chars_call] at reads count shown
  simp only [List.length_append, List.length_cons] at reads count
  simp only [List.append_assoc, List.cons_append, List.nil_append] at shown
  have argsRead : ∀ e ∈ args, ReadBy inner e := by
    intro e listed
    have within := length_chars_le_argsText listed
    exact fun {_ _ _} => reads e (passed e listed) (by omega)
  have argsCount : args.length ≤ fuel := by
    have within := length_le_length_argsText passed
    omega
  have shownArgs : Shows ((Expr.argsText args).toList ++ ')' :: rest)
      ((Expr.argsText args).toList ++ ')' :: rest) := shows_args passed
  rcases arguments_eq passed argsRead argsCount shownArgs with ⟨left, areRead, closed⟩
  have closing : token ")" left = .ok ((), rest) := closed.token_eq
  rw [primary_eq_named called shown rfl, named_eq_call called (shows_word (isWord_of_isCallee called)),
    Reader.bind_eq_of_ok areRead, Reader.bind_eq_of_ok closing]
  rfl

theorem primary_eq_enclosed {inside : Expr} (plain : inside.Plain)
    (reads : ReadsBelow inner (Expr.paren .unnumbered inside).chars.length)
    (shown : Shows input ((Expr.paren .unnumbered inside).chars ++ rest)) :
    primary inner fuel input = .ok (.paren .unnumbered inside, rest) := by
  rw [Expr.chars_paren] at reads shown
  simp only [List.length_append, List.length_cons] at reads
  simp only [List.append_assoc, List.cons_append, List.nil_append] at shown
  have shownClose : Shows (')' :: rest) (')' :: rest) := shows_mark (by decide)
  have isRead : inner (inside.chars ++ ')' :: rest) = .ok (inside, ')' :: rest) :=
    reads inside plain (by omega) plain.shows rfl shownClose rfl
  rw [primary_eq_paren shown, Reader.bind_eq_of_ok isRead, Reader.bind_eq_of_ok token_closeParen]
  rfl

/-- Operands are read from the left: behind the characters of one, the reader has
it in hand and looks for what is written behind it. -/
theorem primary_suffixes_eq {e : Expr} (plain : e.Plain) (tight : Precedence.suffixed ≤ e.precedence)
    {more : Nat} (reads : ReadsBelow inner e.chars.length) (count : e.chars.length ≤ fuel)
    (moreCount : e.chars.length < more) (shown : Shows input (e.chars ++ rest))
    (ends : goesOn rest = false) (behind : Shows rest next) (noParen : next.head? ≠ some '(')
    (noPoint : e.isInt = true → rest.head? ≠ some '.') :
    ∃ left fuel', (primary inner fuel >>= suffixes inner more) input = suffixes inner fuel' e left ∧
      more ≤ fuel' + e.chars.length ∧ Shows left next := by
  induction plain generalizing input rest next with
  | int nonneg fits =>
      exact ⟨rest, more, Reader.bind_eq_of_ok (primary_eq_int nonneg fits shown ends (noPoint rfl)),
        by omega, behind⟩
  | float nonneg finite =>
      exact ⟨rest, more, Reader.bind_eq_of_ok (primary_eq_float nonneg finite shown ends),
        by omega, behind⟩
  | @bool value =>
      refine ⟨rest, more, Reader.bind_eq_of_ok ?_, by omega, behind⟩
      cases value with
      | true => exact primary_eq_true shown ends
      | false => exact primary_eq_false shown ends
  | var named =>
      refine ⟨next, more, Reader.bind_eq_of_ok ?_, by omega, behind.self⟩
      rw [primary_eq_named (isCallee_of_isName named) shown ends]
      exact named_eq_var named (shows_word (isWord_of_isName named)) ends behind noParen
  | call called passed _ =>
      exact ⟨rest, more, Reader.bind_eq_of_ok (primary_eq_call called passed reads count shown),
        by omega, behind⟩
  | paren plainEnclosed _ =>
      exact ⟨rest, more, Reader.bind_eq_of_ok (primary_eq_enclosed plainEnclosed reads shown),
        by omega, behind⟩
  | @behind op operand isBehind _ tightOperand inductionHypothesis =>
      rw [Expr.chars_behind isBehind tightOperand] at reads count moreCount shown
      rw [List.append_assoc] at shown
      have symbol : op.symbol.toList.length = 2 ∧ goesOn (op.symbol.toList ++ rest) = false ∧
          Shows (op.symbol.toList ++ rest) (op.symbol.toList ++ rest) ∧
          (op.symbol.toList ++ rest).head? ≠ some '(' ∧
          (op.symbol.toList ++ rest).head? ≠ some '.' := by
        cases op with
        | postIncrement | postDecrement =>
            exact ⟨rfl, rfl, shows_cons rfl (by decide), by simp [UnaryOp.symbol],
              by simp [UnaryOp.symbol]⟩
        | negate | not | preIncrement | preDecrement => cases isBehind
      rw [List.length_append, symbol.1] at reads count moreCount
      rcases inductionHypothesis tightOperand (reads.mono (by omega)) (by omega) (by omega) shown
        symbol.2.1 symbol.2.2.1 symbol.2.2.2.1 (fun _ => symbol.2.2.2.2) with
        ⟨left, fuel', isRead, most, shownLeft⟩
      cases fuel' with
      | zero => omega
      | succ fuel' =>
          refine ⟨rest, fuel', ?_, ?_, behind⟩
          · rw [isRead, suffixes_eq_behind isBehind shownLeft]
          · rw [Expr.chars_behind isBehind tightOperand, List.length_append, symbol.1]
            omega
  | @member base field _ tightBase notInt selected inductionHypothesis =>
      rw [Expr.chars_member tightBase] at reads count moreCount shown
      rw [List.length_append, List.length_cons] at reads count moreCount
      rw [List.append_assoc, List.cons_append] at shown
      have shownPoint : Shows ('.' :: (field.toList ++ rest)) ('.' :: (field.toList ++ rest)) :=
        shows_cons rfl (by decide)
      rcases inductionHypothesis tightBase (reads.mono (by omega)) (by omega) (by omega) shown rfl
        shownPoint (by simp) (fun isInt => by rw [notInt] at isInt; cases isInt) with
        ⟨left, fuel', isRead, most, shownLeft⟩
      cases fuel' with
      | zero => omega
      | succ fuel' =>
          refine ⟨rest, fuel', ?_, ?_, behind⟩
          · rw [isRead, suffixes_eq_member shownLeft selected ends]
          · rw [Expr.chars_member tightBase, List.length_append, List.length_cons]
            omega
  | @index base position _ plainPosition tightBase inductionHypothesis _ =>
      rw [Expr.chars_index tightBase] at reads count moreCount shown
      simp only [List.length_append, List.length_cons, List.length_nil] at reads count moreCount
      simp only [List.append_assoc, List.cons_append, List.nil_append] at shown
      have shownOpen : Shows ('[' :: (position.chars ++ ']' :: rest))
          ('[' :: (position.chars ++ ']' :: rest)) := shows_cons rfl (by decide)
      have shownClose : Shows (']' :: rest) (']' :: rest) := shows_cons rfl (by decide)
      have read : inner (position.chars ++ ']' :: rest) = .ok (position, ']' :: rest) :=
        reads position plainPosition (by omega) plainPosition.shows rfl shownClose rfl
      rcases inductionHypothesis tightBase (reads.mono (by omega)) (by omega) (by omega) shown rfl
        shownOpen (by simp) (fun _ => by simp) with ⟨left, fuel', isRead, most, shownLeft⟩
      cases fuel' with
      | zero => omega
      | succ fuel' =>
          refine ⟨rest, fuel', ?_, ?_, behind⟩
          · rw [isRead, suffixes_eq_index shownLeft read shownClose]
          · rw [Expr.chars_index tightBase]
            simp only [List.length_append, List.length_cons, List.length_nil]
            omega
  | front inFront =>
      rw [Expr.precedence, inFront] at tight
      exact absurd tight (by decide)
  | @binary op =>
      have loose : ¬Precedence.suffixed ≤ op.precedence := by cases op <;> decide
      exact absurd tight loose
  | assign => exact absurd (show Precedence.suffixed ≤ Precedence.assignment from tight) (by decide)
  | ternary => exact absurd (show Precedence.suffixed ≤ Precedence.choice from tight) (by decide)

/-! ## Prefix operators -/

/-- What binds as tightly as a prefix operator is an operand or has one in
front. -/
theorem suffixed_or_front {e : Expr} (plain : e.Plain) (tight : Precedence.prefixed ≤ e.precedence) :
    Precedence.suffixed ≤ e.precedence ∨
      ∃ op operand, e = .unary .unnumbered op operand ∧ op.followsOperand = false ∧
        operand.Plain ∧ Precedence.prefixed ≤ operand.precedence ∧
        Expr.joins op operand.bareText = false := by
  cases plain with
  | @front op operand inFront inner tightOperand apart =>
      exact .inr ⟨op, operand, rfl, inFront, inner, tightOperand, apart⟩
  | @int value nonneg =>
      have notNegative : ¬value < 0 := not_lt.mpr nonneg
      rw [Expr.precedence, if_neg notNegative]
      exact .inl (by decide)
  | float nonneg =>
      rw [Expr.precedence, nonneg]
      exact .inl (by decide)
  | behind isBehind =>
      rw [Expr.precedence, isBehind]
      exact .inl (by decide)
  | @binary op =>
      have loose : ¬Precedence.prefixed ≤ op.precedence := by cases op <;> decide
      exact absurd tight loose
  | assign => exact absurd (show Precedence.prefixed ≤ Precedence.assignment from tight) (by decide)
  | ternary => exact absurd (show Precedence.prefixed ≤ Precedence.choice from tight) (by decide)
  | bool | var | call | member | index | paren => exact .inl (Nat.le_of_ble_eq_true rfl)

theorem prefixOp?_eq_none {e : Expr} (plain : e.Plain) (tight : Precedence.suffixed ≤ e.precedence) :
    prefixOp? (e.chars ++ rest) = none := by
  rcases plain.exists_chars_eq_cons with ⟨c, tail, split, _, begins⟩
  have begins := begins tight
  have notPlus : c ≠ '+' := Expr.ne_of_beginsOperand begins (by decide)
  have notMinus : c ≠ '-' := Expr.ne_of_beginsOperand begins (by decide)
  have notMark : c ≠ '!' := Expr.ne_of_beginsOperand begins (by decide)
  rw [split, List.cons_append]
  unfold prefixOp?
  split
  · rename_i same
    exact absurd (List.cons.inj same).1 notPlus
  · rename_i same
    exact absurd (List.cons.inj same).1 notMinus
  · rename_i same
    exact absurd (List.cons.inj same).1 notMinus
  · rename_i same
    exact absurd (List.cons.inj same).1 notMark
  · rename_i same
    exact absurd (List.cons.inj same).1 notPlus
  · rfl

theorem prefixOp?_eq_some {op : UnaryOp} {operand : Expr} (inFront : op.followsOperand = false)
    (plain : operand.Plain) (apart : Expr.joins op operand.bareText = false) :
    prefixOp? (op.symbol.toList ++ (operand.chars ++ rest)) =
      some (some op, operand.chars ++ rest) := by
  cases op with
  | negate =>
      rcases plain.exists_chars_eq_cons with ⟨c, tail, split, _, _⟩
      have notMinus : c ≠ '-' := by
        rintro rfl
        have joined : Expr.joins .negate operand.bareText = true := by
          have head : operand.bareText.toList = '-' :: tail := split
          rw [Expr.joins, head]
          rfl
        rw [joined] at apart
        cases apart
      rw [split]
      show prefixOp? ('-' :: c :: (tail ++ rest)) = some (some .negate, c :: (tail ++ rest))
      unfold prefixOp?
      split
      · rename_i same
        cases same
      · rename_i same
        exact absurd (List.cons.inj (List.cons.inj same).2).1 notMinus
      · rename_i same
        cases same
        rfl
      · rename_i same
        cases same
      · rename_i same
        cases same
      · rename_i other _ _
        exact absurd rfl (other _)
  | not | preIncrement | preDecrement => rfl
  | postIncrement | postDecrement => cases inFront

theorem head_ne_of_continues (stops : continues next = false) :
    next.head? ≠ some '(' ∧ next.head? ≠ some '.' := by
  cases next with
  | nil => exact ⟨by simp, by simp⟩
  | cons c next =>
      constructor
      · rintro ⟨⟩
        cases stops
      · rintro ⟨⟩
        cases stops

/-- A point shows at once. -/
theorem Shows.head_ne_point (behind : Shows rest next) (noPoint : next.head? ≠ some '.') :
    rest.head? ≠ some '.' := by
  intro point
  cases rest with
  | nil => cases point
  | cons c rest =>
      cases point
      exact noPoint (congrArg List.head? (behind.unique (shows_cons rfl (by decide))))

/-- Operands are read with the operators in front of them. -/
theorem prefixed_eq {e : Expr} (plain : e.Plain) (tight : Precedence.prefixed ≤ e.precedence)
    (reads : ReadsBelow inner e.chars.length) (count : e.chars.length < fuel)
    (shown : Shows input (e.chars ++ rest)) (ends : goesOn rest = false) (behind : Shows rest next)
    (stops : continues next = false) :
    ∃ left, prefixed inner fuel input = .ok (e, left) ∧ Shows left next := by
  induction fuel generalizing e input with
  | zero => omega
  | succ fuel inductionHypothesis =>
      unfold prefixed
      rw [Reader.bind_eq_of_ok shown.gap_eq, Reader.get_bind]
      rcases suffixed_or_front plain tight with
        isOperand | ⟨op, operand, rfl, inFront, plainOperand, tightOperand, apart⟩
      · rcases head_ne_of_continues stops with ⟨noParen, noPoint⟩
        have counts : e.chars.length ≤ fuel + 1 := by omega
        rcases primary_suffixes_eq plain isOperand reads counts count shown.self ends behind noParen
          (fun _ => behind.head_ne_point noPoint) with ⟨left, fuel', isRead, most, shownLeft⟩
        rw [prefixOp?_eq_none plain isOperand]
        cases fuel' with
        | zero => omega
        | succ fuel' => exact ⟨left, isRead.trans (suffixes_eq_self shownLeft stops), shownLeft⟩
      · have symbol : 0 < op.symbol.toList.length := by cases op <;> decide
        rw [Expr.chars_front inFront tightOperand apart] at reads count ⊢
        rw [List.length_append] at reads count
        rcases inductionHypothesis plainOperand tightOperand (reads.mono (by omega)) (by omega)
          (plainOperand.shows) with ⟨left, isRead, shownLeft⟩
        rw [List.append_assoc, prefixOp?_eq_some inFront plainOperand apart]
        dsimp only
        rw [Reader.set_bind, Reader.bind_eq_of_ok isRead]
        exact ⟨left, rfl, shownLeft⟩

/-! ## Binary operators -/

section

variable {operand : Reader Expr} {least : Nat} {lhs rhs : Expr} {op : BinaryOp} {left : List Char}

theorem binaryOp?_symbol (op : BinaryOp) (rest : List Char) :
    binaryOp? (op.symbol.toList ++ ' ' :: rest) = some (op, ' ' :: rest) := by
  cases op <;> rfl

theorem shows_symbol (op : BinaryOp) (rest : List Char) :
    Shows (op.symbol.toList ++ ' ' :: rest) (op.symbol.toList ++ ' ' :: rest) := by
  cases op with
  | div => exact shows_slash (by decide) (by decide)
  | _ => exact shows_cons rfl (by decide)

theorem continues_symbol (op : BinaryOp) (rest : List Char) :
    continues (op.symbol.toList ++ ' ' :: rest) = false := by
  cases op <;> rfl

/-- An operator that binds tightly enough is read with its right operand. -/
theorem climb_eq_binary (shown : Shows input (op.symbol.toList ++ ' ' :: rest))
    (tight : least ≤ op.precedence)
    (isRead : (operand >>= climb operand fuel (op.precedence + 1)) (' ' :: rest) = .ok (rhs, left)) :
    climb operand (fuel + 1) least lhs input =
      climb operand fuel least (.binary .unnumbered op lhs rhs) left := by
  rcases Reader.bind_eq_ok_iff.mp isRead with ⟨first, between, isFirst, others⟩
  rw [climb, Reader.get_bind, Reader.bind_eq_of_ok shown.gap_eq, Reader.get_bind, binaryOp?_symbol]
  dsimp only
  rw [if_pos tight, Reader.set_bind, Reader.bind_eq_of_ok isFirst, Reader.bind_eq_of_ok others]

/-- Where no operator follows that binds tightly enough, reading stops. -/
theorem climb_eq_self (shown : Shows input next)
    (stops : ∀ op rest, binaryOp? next = some (op, rest) → op.precedence < least) :
    climb operand (fuel + 1) least lhs input = .ok (lhs, input) := by
  rw [climb, Reader.get_bind, Reader.bind_eq_of_ok shown.gap_eq, Reader.get_bind]
  cases found : binaryOp? next with
  | none => rfl
  | some pair =>
      rcases pair with ⟨op, rest⟩
      have loose : ¬least ≤ op.precedence := Nat.not_le.mpr (stops op rest found)
      dsimp only
      rw [if_neg loose]
      rfl

end

/-- What does not bind as tightly as a prefix operator is an operation of another
kind. -/
theorem prefixed_or_operation (e : Expr) :
    Precedence.prefixed ≤ e.precedence ∨ (∃ id op lhs rhs, e = .binary id op lhs rhs) ∨
      (∃ id cond whenTrue whenFalse, e = .ternary id cond whenTrue whenFalse) ∨
      ∃ id op target value, e = .assign id op target value := by
  cases e with
  | binary id op lhs rhs => exact .inr (.inl ⟨id, op, lhs, rhs, rfl⟩)
  | ternary id cond whenTrue whenFalse =>
      exact .inr (.inr (.inl ⟨id, cond, whenTrue, whenFalse, rfl⟩))
  | assign id op target value => exact .inr (.inr (.inr ⟨id, op, target, value, rfl⟩))
  | unary id op operand => cases op <;> exact .inl (Nat.le_of_ble_eq_true rfl)
  | int id value =>
      rw [Expr.precedence]
      split <;> exact .inl (by decide)
  | float id value =>
      rw [Expr.precedence]
      split <;> exact .inl (by decide)
  | _ => exact .inl (Nat.le_of_ble_eq_true rfl)

/-- What binds as tightly as a binary operator has one outermost or binds
tighter. -/
theorem prefixed_or_binary {e : Expr} (loose : Precedence.disjunction ≤ e.precedence) :
    Precedence.prefixed ≤ e.precedence ∨ ∃ id op lhs rhs, e = .binary id op lhs rhs := by
  rcases prefixed_or_operation e with
    tight | isBinary | ⟨_, _, _, _, rfl⟩ | ⟨_, _, _, _, rfl⟩
  · exact .inl tight
  · exact .inr isBinary
  · exact absurd (show Precedence.disjunction ≤ Precedence.choice from loose) (by decide)
  · exact absurd (show Precedence.disjunction ≤ Precedence.assignment from loose) (by decide)

/-- Chains of binary operators are read from the left: behind the characters of
an expression, the reader has it in hand and looks for further operators. -/
theorem prefixed_climb_eq {e : Expr} (plain : e.Plain)
    (loose : Precedence.disjunction ≤ e.precedence) {least more : Nat} (fits : least ≤ e.precedence)
    (reads : ReadsBelow inner e.chars.length) (count : e.chars.length < fuel)
    (moreCount : e.chars.length < more) (shown : Shows input (e.chars ++ rest))
    (ends : goesOn rest = false) (behind : Shows rest next) (stops : continues next = false)
    (weaker : ∀ op rest, binaryOp? next = some (op, rest) → op.precedence ≤ e.precedence) :
    ∃ left fuel', (prefixed inner fuel >>= climb (prefixed inner fuel) more least) input =
        climb (prefixed inner fuel) fuel' least e left ∧
      more ≤ fuel' + e.chars.length ∧ Shows left next := by
  have isPlain := plain
  induction plain generalizing input rest next least more with
  | @binary op lhs rhs plainLeft plainRight tightLeft tightRight left? right? =>
      have low : Precedence.disjunction ≤ op.precedence := by cases op <;> decide
      have isOp : (Expr.binary NodeId.unnumbered op lhs rhs).precedence = op.precedence := rfl
      rw [Expr.chars_binary tightLeft tightRight] at reads count moreCount shown
      simp only [List.length_append, List.length_cons] at reads count moreCount
      simp only [List.append_assoc, List.cons_append] at shown
      have shownOp := shows_symbol op (rhs.chars ++ rest)
      have same : ∀ op' rest', binaryOp? (op.symbol.toList ++ ' ' :: (rhs.chars ++ rest)) =
          some (op', rest') → op'.precedence ≤ lhs.precedence := by
        intro op' rest' found
        rw [binaryOp?_symbol] at found
        cases found
        exact tightLeft
      have leftCount : lhs.chars.length < more := by omega
      rcases left? (low.trans tightLeft) (fits.trans tightLeft) (reads.mono (by omega)) (by omega)
        leftCount shown rfl (shows_space_iff.mpr shownOp) (continues_symbol op _) same plainLeft with
        ⟨left, fuel', isRead, most, shownLeft⟩
      cases fuel' with
      | zero => omega
      | succ fuel' =>
          have rightLoose : Precedence.disjunction ≤ rhs.precedence := by omega
          have rightCount : rhs.chars.length < fuel' := by omega
          have weaker : ∀ op' rest', binaryOp? next = some (op', rest') →
              op'.precedence ≤ op.precedence := weaker
          have rightWeaker : ∀ op' rest', binaryOp? next = some (op', rest') →
              op'.precedence ≤ rhs.precedence := fun op' rest' found => by
            have bound := weaker op' rest' found
            omega
          rcases right? rightLoose tightRight (reads.mono (by omega)) (by omega) rightCount
            (shows_space_iff.mpr plainRight.shows) ends behind stops rightWeaker plainRight with
            ⟨left', fuel'', isRead', most', shownLeft'⟩
          cases fuel'' with
          | zero => omega
          | succ fuel'' =>
              have stopped : climb (prefixed inner fuel) (fuel'' + 1) (op.precedence + 1) rhs left' =
                  .ok (rhs, left') :=
                climb_eq_self shownLeft' fun op' rest' found =>
                  Nat.lt_succ_of_le (weaker op' rest' found)
              refine ⟨left', fuel', ?_, ?_, shownLeft'⟩
              · rw [isRead, climb_eq_binary shownLeft fits (isRead'.trans stopped)]
              · rw [Expr.chars_binary tightLeft tightRight]
                simp only [List.length_append, List.length_cons]
                omega
  | assign => exact absurd (show Precedence.disjunction ≤ Precedence.assignment from loose) (by decide)
  | ternary => exact absurd (show Precedence.disjunction ≤ Precedence.choice from loose) (by decide)
  | _ =>
      have tight := (prefixed_or_binary loose).resolve_right (by rintro ⟨_, _, _, _, ⟨⟩⟩)
      rcases prefixed_eq isPlain tight reads count shown ends behind stops with
        ⟨left, isRead, shownLeft⟩
      exact ⟨left, more, Reader.bind_eq_of_ok isRead, by omega, shownLeft⟩

/-- An expression without an outermost choice or assignment is read whole where
no binary operator follows. -/
theorem binary_eq {e : Expr} (plain : e.Plain) (loose : Precedence.disjunction ≤ e.precedence)
    (reads : ReadsBelow inner e.chars.length) (count : e.chars.length < fuel)
    (shown : Shows input (e.chars ++ rest)) (ends : goesOn rest = false) (behind : Shows rest next)
    (stops : continues next = false) (noOp : binaryOp? next = none) :
    ∃ left, binary inner fuel input = .ok (e, left) ∧ Shows left next := by
  have weaker : ∀ op rest, binaryOp? next = some (op, rest) → op.precedence ≤ e.precedence := by
    intro op rest found
    rw [noOp] at found
    cases found
  rcases prefixed_climb_eq plain loose (Nat.zero_le _) reads count count shown ends behind stops
    weaker with ⟨left, fuel', isRead, most, shownLeft⟩
  cases fuel' with
  | zero => omega
  | succ fuel' =>
      refine ⟨left, isRead.trans (climb_eq_self shownLeft fun op rest found => ?_), shownLeft⟩
      rw [noOp] at found
      cases found

theorem isPrefixOf_question_eq_false (noQuestion : next.head? ≠ some '?') :
    "?".toList.isPrefixOf next = false := by
  cases next with
  | nil => rfl
  | cons c next =>
      have differ : '?' ≠ c := fun same => noQuestion (congrArg some same.symm)
      show ('?' == c && _) = false
      rw [beq_false_of_ne differ, Bool.false_and]

/-- What may follow an expression without an outermost assignment. -/
structure EndsChoice (next : List Char) : Prop where
  stops : continues next = false
  noOp : binaryOp? next = none
  noQuestion : next.head? ≠ some '?'

theorem exists_cons_of_closes (closed : closes next = true) :
    ∃ c behind, next = c :: behind ∧ (c = ')' ∨ c = ']' ∨ c = ',' ∨ c = ';' ∨ c = ':') := by
  cases next with
  | nil => cases closed
  | cons c behind =>
      simp only [closes, Bool.or_eq_true, beq_iff_eq, or_assoc] at closed
      exact ⟨c, behind, rfl, closed⟩

theorem endsChoice_of_closes (closed : closes next = true) : EndsChoice next := by
  rcases exists_cons_of_closes closed with ⟨c, behind, rfl, isClosing⟩
  rcases isClosing with rfl | rfl | rfl | rfl | rfl <;>
    exact ⟨rfl, by simp [binaryOp?], by simp⟩

theorem assignOp?_of_closes (closed : closes next = true) : assignOp? next = none := by
  rcases exists_cons_of_closes closed with ⟨c, behind, rfl, isClosing⟩
  rcases isClosing with rfl | rfl | rfl | rfl | rfl <;> rfl

/-- What binds as tightly as a choice is one or binds tighter. -/
theorem disjunction_or_ternary {e : Expr} (loose : Precedence.choice ≤ e.precedence) :
    Precedence.disjunction ≤ e.precedence ∨
      ∃ id cond whenTrue whenFalse, e = .ternary id cond whenTrue whenFalse := by
  rcases prefixed_or_operation e with
    tight | ⟨_, op, _, _, rfl⟩ | isTernary | ⟨_, _, _, _, rfl⟩
  · exact .inl (le_trans (by decide) tight)
  · cases op <;> exact .inl (Nat.le_of_ble_eq_true rfl)
  · exact .inr isTernary
  · exact absurd (show Precedence.choice ≤ Precedence.assignment from loose) (by decide)

/-- What binds looser than a choice is an assignment. -/
theorem choice_or_assign (e : Expr) :
    Precedence.choice ≤ e.precedence ∨ ∃ id op target value, e = .assign id op target value := by
  rcases prefixed_or_operation e with
    tight | ⟨_, op, _, _, rfl⟩ | ⟨_, _, _, _, rfl⟩ | isAssign
  · exact .inl (le_trans (by decide) tight)
  · cases op <;> exact .inl (Nat.le_of_ble_eq_true rfl)
  · exact .inl (Nat.le_refl _)
  · exact .inr isAssign

/-- A choice is closed like a whole expression; what binds tighter may stand in
front of an assignment as well. -/
theorem ternary_eq {e : Expr} (plain : e.Plain) (loose : Precedence.choice ≤ e.precedence)
    (reads : ReadsBelow inner e.chars.length) (count : e.chars.length < fuel)
    (shown : Shows input (e.chars ++ rest)) (ends : goesOn rest = false) (behind : Shows rest next)
    (stops : EndsChoice next)
    (closed : Precedence.disjunction ≤ e.precedence ∨ closes next = true) :
    ternary inner fuel input = .ok (e, next) := by
  rcases disjunction_or_ternary loose with tight | ⟨id, cond, whenTrue, whenFalse, rfl⟩
  · rcases binary_eq plain tight reads count shown ends behind stops.stops stops.noOp with
      ⟨left, isRead, shownLeft⟩
    unfold ternary
    rw [Reader.bind_eq_of_ok isRead, Reader.bind_eq_of_ok (shownLeft.atToken_eq "?"),
      isPrefixOf_question_eq_false stops.noQuestion]
    rfl
  · have isClosed := closed.resolve_left
      (fun tight => absurd (show Precedence.disjunction ≤ Precedence.choice from tight) (by decide))
    cases plain with
    | ternary tested first second tightCond tightFalse =>
        rw [Expr.chars_ternary tightCond tightFalse] at reads count shown
        simp only [List.length_append, List.length_cons] at reads count
        simp only [List.append_assoc, List.cons_append] at shown
        have shownMark : Shows ('?' :: ' ' :: (whenTrue.chars ++ ' ' :: ':' :: ' ' ::
            (whenFalse.chars ++ rest))) ('?' :: ' ' :: (whenTrue.chars ++ ' ' :: ':' :: ' ' ::
            (whenFalse.chars ++ rest))) := shows_cons rfl (by decide)
        have shownColon : Shows (':' :: ' ' :: (whenFalse.chars ++ rest))
            (':' :: ' ' :: (whenFalse.chars ++ rest)) := shows_cons rfl (by decide)
        have condCount : cond.chars.length < fuel := by omega
        rcases binary_eq tested tightCond (reads.mono (by omega)) condCount shown rfl
          (shows_space_iff.mpr shownMark) rfl (by simp [binaryOp?]) with ⟨left, isRead, shownLeft⟩
        have mark : token "?" ('?' :: ' ' :: (whenTrue.chars ++ ' ' :: ':' :: ' ' ::
            (whenFalse.chars ++ rest))) = .ok ((), ' ' :: (whenTrue.chars ++ ' ' :: ':' :: ' ' ::
            (whenFalse.chars ++ rest))) := shownMark.token_eq
        have colon : token ":" (':' :: ' ' :: (whenFalse.chars ++ rest)) =
            .ok ((), ' ' :: (whenFalse.chars ++ rest)) := shownColon.token_eq
        have readTrue : inner (' ' :: (whenTrue.chars ++ ' ' :: ':' :: ' ' ::
            (whenFalse.chars ++ rest))) = .ok (whenTrue, ':' :: ' ' :: (whenFalse.chars ++ rest)) :=
          reads whenTrue first (by omega) (shows_space_iff.mpr first.shows) rfl
            (shows_space_iff.mpr shownColon) rfl
        have readFalse : inner (' ' :: (whenFalse.chars ++ rest)) = .ok (whenFalse, next) :=
          reads whenFalse second (by omega) (shows_space_iff.mpr second.shows) ends behind isClosed
        have marked : "?".toList.isPrefixOf ('?' :: ' ' :: (whenTrue.chars ++ ' ' :: ':' :: ' ' ::
            (whenFalse.chars ++ rest))) = true := rfl
        unfold ternary
        rw [Reader.bind_eq_of_ok isRead, Reader.bind_eq_of_ok (shownLeft.atToken_eq "?"), marked,
          if_pos rfl, Reader.bind_eq_of_ok mark, Reader.bind_eq_of_ok readTrue,
          Reader.bind_eq_of_ok colon, Reader.bind_eq_of_ok readFalse]
        rfl

theorem shows_assignSymbol (op : AssignOp) (rest : List Char) :
    Shows (op.symbol.toList ++ ' ' :: rest) (op.symbol.toList ++ ' ' :: rest) := by
  cases op with
  | div => exact shows_slash (by decide) (by decide)
  | _ => exact shows_cons rfl (by decide)

theorem assignment_eq {e : Expr} (plain : e.Plain) (reads : ReadsBelow inner e.chars.length)
    (count : e.chars.length < fuel) : ReadBy (assignment inner fuel) e := by
  intro input rest next shown ends behind closed
  rcases choice_or_assign e with loose | ⟨id, op, target, value, rfl⟩
  · have isRead := ternary_eq plain loose reads count shown ends behind
      (endsChoice_of_closes closed) (.inr closed)
    unfold assignment
    rw [Reader.bind_eq_of_ok isRead, Reader.bind_eq_of_ok behind.self.gap_eq, Reader.get_bind,
      assignOp?_of_closes closed]
    rfl
  · cases plain with
    | assign written read tight =>
        rw [Expr.chars_assign tight] at reads count shown
        simp only [List.length_append, List.length_cons] at reads count
        simp only [List.append_assoc, List.cons_append] at shown
        have shownOp := shows_assignSymbol op (value.chars ++ rest)
        have stops : EndsChoice (op.symbol.toList ++ ' ' :: (value.chars ++ rest)) := by
          cases op <;> exact ⟨rfl, rfl, by simp [AssignOp.symbol]⟩
        have isOp : assignOp? (op.symbol.toList ++ ' ' :: (value.chars ++ rest)) =
            some (op, ' ' :: (value.chars ++ rest)) := by
          cases op <;> rfl
        have loose : Precedence.choice ≤ target.precedence := le_trans (by decide) tight
        have tighter : Precedence.disjunction ≤ target.precedence := le_trans (by decide) tight
        have targetCount : target.chars.length < fuel := by omega
        have isRead := ternary_eq written loose (reads.mono (by omega)) targetCount shown rfl
          (shows_space_iff.mpr shownOp) stops (.inl tighter)
        have readValue : inner (' ' :: (value.chars ++ rest)) = .ok (value, next) :=
          reads value read (by omega) (shows_space_iff.mpr read.shows) ends behind closed
        unfold assignment
        rw [Reader.bind_eq_of_ok isRead, Reader.bind_eq_of_ok shownOp.gap_eq, Reader.get_bind, isOp]
        dsimp only
        rw [Reader.set_bind, Reader.bind_eq_of_ok readValue]
        rfl

/-- The reader of expressions reads every plain expression that is shorter than
its count. -/
theorem readsBelow_expression (fuel : Nat) : ReadsBelow (expression fuel) fuel := by
  induction fuel with
  | zero => exact fun e plain short => absurd short (Nat.not_lt_zero _)
  | succ fuel inductionHypothesis =>
      intro e plain short
      exact assignment_eq plain (inductionHypothesis.mono (Nat.le_of_lt_succ short)) short

end Parse
end Whittle
