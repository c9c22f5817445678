import Whittle.Proofs.Parse.Extension

namespace Whittle
namespace Parse

/-!
# Reading expressions with other text behind

Two characters decide which operator a text begins with, and what follows an operand is
looked at no further.  So an expression is read alike with any text behind the ending of
the statement that it stands in.
-/

variable {input chars rest start : List Char}

/-- A text in front of a closing parenthesis. -/
def BeforeParen (input : List Char) : Prop :=
  ∃ rest, Shows input (')' :: rest) ∧ HasEnding rest

theorem BeforeParen.settled (before : BeforeParen input) : Settled input := by
  rcases before with ⟨rest, shown, hasEnding⟩
  exact ⟨_, shown, hasEnding.cons⟩

theorem extends_closingParen :
    ExtendsFrom start BeforeParen Settled (token ")") (token ")") := by
  have ensures : ∀ rest, Settled rest → HasEnding (")".toList ++ rest) := fun rest settled =>
    settled.hasEnding.cons
  exact (extends_token_of ensures).weaken fun _ ⟨rest, shown, settled⟩ =>
    ⟨rest, shown, settled.hasEnding⟩

/-- Further items are none, or one with the remaining ones behind it. -/
theorem Reader.manyBehind_succ_eq_ok {α : Type} {separator : Reader Unit} {item : Reader α}
    {fuel : Nat} {all : List α}
    (areRead : Reader.manyBehind separator item (fuel + 1) input = .ok (all, rest)) :
    all = [] ∧ rest = input ∨
      ∃ first left others, (do separator; item : Reader α) input = .ok (first, left) ∧
        Reader.manyBehind separator item fuel left = .ok (others, rest) ∧ all = first :: others := by
  simp only [Reader.manyBehind] at areRead
  split at areRead
  · cases areRead
    exact .inl ⟨rfl, rfl⟩
  · rename_i first left isFirst
    cases areOthers : Reader.manyBehind separator item fuel left with
    | error stop =>
        rw [areOthers] at areRead
        cases areRead
    | ok read =>
        rw [areOthers] at areRead
        cases areRead
        exact .inr ⟨first, left, _, isFirst, areOthers, rfl⟩

theorem Reader.manyBehind_ne_error {α : Type} {separator : Reader Unit} {item : Reader α}
    (fuel : Nat) (input : List Char) (stop : Stop) :
    Reader.manyBehind separator item fuel input ≠ .error stop := by
  induction fuel generalizing input stop with
  | zero => exact nofun
  | succ fuel inductionHypothesis =>
      intro fails
      simp only [Reader.manyBehind] at fails
      split at fails
      · cases fails
      · rename_i first left isFirst
        cases areOthers : Reader.manyBehind separator item fuel left with
        | error stop' => exact inductionHypothesis left stop' areOthers
        | ok read =>
            rw [areOthers] at fails
            cases fails

/-- Further items end where a parenthesis is closed. -/
theorem extends_manyBehind {α : Type} {item item' : Reader α}
    (extends? : Extends start Settled item item') {fuel fuel' : Nat} (enough : fuel ≤ fuel') :
    Extends start BeforeParen (Reader.manyBehind (token ",") item fuel)
      (Reader.manyBehind (token ",") item' fuel') := by
  have none : ∀ {input}, BeforeParen input → ∀ more fuel,
      Reader.manyBehind (token ",") item' fuel (input ++ more) = .ok ([], input ++ more) := by
    rintro input ⟨rest, shown, hasEnding⟩ more fuel
    exact Reader.manyBehind_eq_nil ((shown.append hasEnding.cons).token_eq_error rfl)
  have ofFirst : Extends start Settled (do token ","; item) (do token ","; item') :=
    (extends_token ",").bind fun _ => extends?
  induction fuel generalizing fuel' with
  | zero =>
      refine ⟨fun input rest all areRead => ?_, fun _ _ fails => (nomatch fails),
        fun input rest tail all areRead before => ?_⟩
      · cases areRead
        exact List.suffix_refl _
      · rcases Prod.mk.inj (Except.ok.inj areRead) with ⟨rfl, same⟩
        obtain rfl : input = rest := List.append_cancel_right same
        exact ⟨before.settled, fun more => none before more fuel'⟩
  | succ fuel inductionHypothesis =>
      cases fuel' with
      | zero => exact absurd enough (Nat.not_succ_le_zero fuel)
      | succ fuel' =>
          have again := inductionHypothesis (Nat.le_of_succ_le_succ enough)
          refine ⟨fun input rest all areRead => ?_,
            fun input stop fails => (Reader.manyBehind_ne_error _ input stop fails).elim,
            fun input rest tail all areRead before => ?_⟩
          · rcases Reader.manyBehind_succ_eq_ok areRead with ⟨-, rfl⟩ |
              ⟨first, left, others, isFirst, areOthers, -⟩
            · exact List.suffix_refl _
            · exact (again.keeps areOthers).trans (ofFirst.keeps isFirst)
          · rcases Reader.manyBehind_succ_eq_ok areRead with ⟨rfl, same⟩ |
              ⟨first, left, others, isFirst, areOthers, rfl⟩
            · obtain rfl : rest = input := List.append_cancel_right same
              exact ⟨before.settled, fun more => none before more _⟩
            · rcases again.keeps areOthers with ⟨front, rfl⟩
              rw [← List.append_assoc] at isFirst areOthers
              have ofOthers := again.reads areOthers before
              have ofFirst := ofFirst.reads isFirst ofOthers.1
              refine ⟨ofFirst.1, fun more => ?_⟩
              simp only [Reader.manyBehind, ofFirst.2 more, ofOthers.2 more]
              rfl

def mark? (mark : Char) : List Char → Option (Unit × List Char)
  | [] => none
  | c :: rest => if c = mark then some ((), rest) else none

theorem stops_mark? {mark : Char} (solid : isStop mark = false) : Stops isStop (mark? mark) where
  append {c} stop front rest := by
    cases front with
    | nil => exact if_neg (ne_of_isStop stop solid)
    | cons d front =>
        rw [List.cons_append, mark?, mark?]
        split <;> rfl
  front {chars left u} found := by
    cases chars with
    | nil => cases found
    | cons c tail =>
        rw [mark?] at found
        split at found
        · cases found
          exact ⟨c, [], rfl, List.not_mem_nil⟩
        · cases found

/-- The first character of a text with an ending is there with any text behind it. -/
theorem sees_ifHead {α : Type} {P : List Char → Prop} (test : Option Char → Bool)
    {yes yes' no no' : Reader α} (ofYes : Sees start P yes yes') (ofNo : Sees start P no no') :
    Sees start P (fun input => (if test input.head? then yes else no) input)
      (fun input => (if test input.head? then yes' else no') input) := by
  have ofEither : ∀ isYes : Bool, Sees start P (if isYes then yes else no)
      (if isYes then yes' else no') := fun _ => .ite ofYes ofNo
  refine ⟨fun _ _ _ isRead => (ofEither _).keeps isRead, fun _ _ fails => (ofEither _).stops fails,
    fun input rest tail a isRead holds => ?_⟩
  have ofInput := (ofEither _).reads isRead holds
  refine ⟨ofInput.1, fun more => ?_⟩
  rcases List.exists_cons_of_ne_nil ofInput.1.ne_nil with ⟨c, tail', rfl⟩
  exact ofInput.2 more

section

variable {inner inner' : Reader Expr} (extendsInner : ∀ {start}, Extends start Settled inner inner')
  {fuel fuel' : Nat} (enough : fuel ≤ fuel')
include extendsInner enough

theorem extends_arguments :
    Extends start BeforeParen (arguments inner fuel) (arguments inner' fuel') := by
  have pure : ∀ args : List Expr, Extends start BeforeParen (pure args : Reader _) (pure args) :=
    fun args => (ExtendsFrom.pure args).weaken fun _ => BeforeParen.settled
  refine .bind extends_gap fun _ => .bind (extends_atToken rfl) fun closed => .ite (pure []) ?_
  refine .bind (extends_atKeyword rfl) fun isVoid => .ite ?_ ?_
  · exact .bind (extends_keyword rfl) fun _ => pure []
  · exact extendsInner.bind fun first => (extends_manyBehind extendsInner enough).map _

theorem extends_named : Extends start Settled (named inner fuel) (named inner' fuel') := by
  refine .get fun _ _ => extends_word.bind fun name => .bind (extends_atToken rfl) fun isCall =>
    .ite (.ite (.failAt _) ?_) (.ite (.failAt _) (.pure _))
  exact (extends_token "(").bind fun _ => (extends_arguments extendsInner enough).bind fun args =>
    extends_closingParen.map _

theorem extends_worded :
    Extends start Settled (do
        if ← atKeyword "true" then
          keyword "true"
          return Expr.bool .unnumbered true
        else if ← atKeyword "false" then
          keyword "false"
          return Expr.bool .unnumbered false
        else named inner fuel) (do
        if ← atKeyword "true" then
          keyword "true"
          return Expr.bool .unnumbered true
        else if ← atKeyword "false" then
          keyword "false"
          return Expr.bool .unnumbered false
        else named inner' fuel') :=
  .bind (extends_atKeyword rfl) fun _ => .ite ((extends_keyword rfl).map _) <|
    .bind (extends_atKeyword rfl) fun _ => .ite ((extends_keyword rfl).map _) <|
      extends_named extendsInner enough

end

theorem primary_eq_seek (inner : Reader Expr) (fuel : Nat) :
    primary inner fuel = gap >>= fun _ => Reader.seek (mark? '(')
      (fun input => (if input.head?.any fun c => c.isDigit || c == '.' then number
        else do
          if ← atKeyword "true" then
            keyword "true"
            return Expr.bool .unnumbered true
          else if ← atKeyword "false" then
            keyword "false"
            return Expr.bool .unnumbered false
          else named inner fuel) input)
      fun _ => do
        let e ← inner
        token ")"
        return .paren .unnumbered e := by
  refine bind_congr fun _ => funext fun chars => ?_
  rw [Reader.get_bind, Reader.seek]
  rcases chars with _ | ⟨c, tail⟩
  · rfl
  · by_cases isParen : c = '('
    · subst isParen
      rfl
    · have absent : mark? '(' (c :: tail) = none := if_neg isParen
      rw [absent]
      refine congrFun ?_ _
      split
      · rename_i split
        exact (isParen (List.cons.inj split).1).elim
      · rfl

theorem suffixes_succ_eq_seekOrBack (inner : Reader Expr) (fuel : Nat) (e : Expr) :
    suffixes inner (fuel + 1) e = Reader.seekOrBack suffix? e fun
      | .member => do
          let field ← word
          suffixes inner fuel (.member .unnumbered e field)
      | .index => do
          let position ← inner
          token "]"
          suffixes inner fuel (.index .unnumbered e position)
      | .step op => suffixes inner fuel (.unary .unnumbered op e) := by
  refine funext fun input => ?_
  rw [suffixes_succ, Reader.seekOrBack, Reader.get_bind]
  refine congrFun (bind_congr fun _ => funext fun chars => ?_ :
    (gap >>= _ : Reader Expr) = gap >>= _) input
  rw [Reader.get_bind, Reader.seek]
  rcases suffix? chars with _ | ⟨_ | _ | _, left⟩ <;> rfl

theorem prefixed_succ_eq_seek (inner : Reader Expr) (fuel : Nat) :
    prefixed inner (fuel + 1) = gap >>= fun _ => Reader.seek prefixOp?
      (do
        let e ← primary inner (fuel + 1)
        suffixes inner (fuel + 1) e)
      fun op => do
        let operand ← prefixed inner fuel
        return match op with
          | some op => .unary .unnumbered op operand
          | none => operand := by
  rw [prefixed]
  refine bind_congr fun _ => funext fun chars => ?_
  rw [Reader.get_bind, Reader.seek]
  cases prefixOp? chars <;> rfl

theorem climb_succ_eq_seekOrBack (operand : Reader Expr) (fuel least : Nat) (lhs : Expr) :
    climb operand (fuel + 1) least lhs =
      Reader.seekOrBack
        (fun chars => (binaryOp? chars).filter fun found => decide (least ≤ found.1.precedence)) lhs
        fun op => (do
          let first ← operand
          let rhs ← climb operand fuel (op.precedence + 1) first
          climb operand fuel least (.binary .unnumbered op lhs rhs)) := by
  refine funext fun input => ?_
  rw [climb, Reader.seekOrBack, Reader.get_bind]
  refine congrFun (bind_congr fun _ => funext fun chars => ?_ :
    (gap >>= _ : Reader Expr) = gap >>= _) input
  rw [Reader.get_bind, Reader.seek]
  rcases binaryOp? chars with _ | ⟨op, left⟩
  · rfl
  · by_cases binds : least ≤ op.precedence <;> simp [Option.filter, binds]

theorem assignment_eq_seek (inner : Reader Expr) (fuel : Nat) :
    assignment inner fuel = ternary inner fuel >>= fun target => gap >>= fun _ =>
      Reader.seek assignOp? (pure target) fun op => do
        let value ← inner
        return .assign .unnumbered op target value := by
  refine bind_congr fun target => bind_congr fun _ => funext fun chars => ?_
  rw [Reader.get_bind, Reader.seek]
  cases assignOp? chars <;> rfl

section

variable {inner inner' : Reader Expr} (extendsInner : ∀ {start}, Extends start Settled inner inner')
  {fuel fuel' : Nat} (enough : fuel ≤ fuel')
include extendsInner enough

theorem extends_primary : Extends start Settled (primary inner fuel) (primary inner' fuel') := by
  rw [primary_eq_seek, primary_eq_seek]
  refine (sees_seek (stops_mark? rfl) ?_ fun _ => ?_).behindGap
  · exact sees_ifHead (·.any fun c => c.isDigit || c == '.') sees_number
      (extends_worded extendsInner enough).sees
  · exact extendsInner.bind fun e => (extends_token ")").map fun _ => Expr.paren .unnumbered e

theorem extends_suffixes (e : Expr) :
    Extends start Settled (suffixes inner fuel e) (suffixes inner' fuel' e) := by
  induction fuel generalizing fuel' e with
  | zero => exact .fail _
  | succ fuel inductionHypothesis =>
      cases fuel' with
      | zero => exact absurd enough (Nat.not_succ_le_zero fuel)
      | succ fuel' =>
          have again := fun e => inductionHypothesis (Nat.le_of_succ_le_succ enough) e
          rw [suffixes_succ_eq_seekOrBack, suffixes_succ_eq_seekOrBack]
          refine extends_seekOrBack stops_suffix? e fun suffix => ?_
          cases suffix with
          | member => exact extends_word.bind fun field => again _
          | index =>
              exact extendsInner.bind fun position => (extends_token "]").bind fun _ => again _
          | step op => exact again _

theorem extends_prefixed : Extends start Settled (prefixed inner fuel) (prefixed inner' fuel') := by
  induction fuel generalizing fuel' with
  | zero => exact .fail _
  | succ fuel inductionHypothesis =>
      cases fuel' with
      | zero => exact absurd enough (Nat.not_succ_le_zero fuel)
      | succ fuel' =>
          have ofOperand := inductionHypothesis (Nat.le_of_succ_le_succ enough)
          rw [prefixed_succ_eq_seek, prefixed_succ_eq_seek]
          refine (sees_seek stops_prefixOp? (ExtendsFrom.sees ?_) fun op => ofOperand.map _).behindGap
          exact (extends_primary extendsInner enough).bind fun e =>
            extends_suffixes extendsInner enough e

end

section

variable {operand operand' : Reader Expr} (extendsOperand : ∀ {start}, Extends start Settled operand operand')
include extendsOperand

theorem extends_climb {fuel fuel' : Nat} (enough : fuel ≤ fuel') (least : Nat) (lhs : Expr) :
    Extends start Settled (climb operand fuel least lhs) (climb operand' fuel' least lhs) := by
  induction fuel generalizing fuel' least lhs with
  | zero => exact .fail _
  | succ fuel inductionHypothesis =>
      cases fuel' with
      | zero => exact absurd enough (Nat.not_succ_le_zero fuel)
      | succ fuel' =>
          have again := fun least lhs => inductionHypothesis (Nat.le_of_succ_le_succ enough) least lhs
          rw [climb_succ_eq_seekOrBack, climb_succ_eq_seekOrBack]
          exact extends_seekOrBack (stops_binaryOp?.filter fun op => decide (least ≤ op.precedence)) lhs fun op =>
            extendsOperand.bind fun first => (again (op.precedence + 1) first).bind fun rhs =>
              again least (.binary .unnumbered op lhs rhs)

end

section

variable {inner inner' : Reader Expr} (extendsInner : ∀ {start}, Extends start Settled inner inner')
  {fuel fuel' : Nat} (enough : fuel ≤ fuel')
include extendsInner enough

theorem extends_binary : Extends start Settled (binary inner fuel) (binary inner' fuel') :=
  (extends_prefixed extendsInner enough).bind fun first =>
    extends_climb (extends_prefixed extendsInner enough) enough 0 first

theorem extends_ternary : Extends start Settled (ternary inner fuel) (ternary inner' fuel') := by
  refine (extends_binary extendsInner enough).bind fun cond => .bind (extends_atToken rfl) fun isChoice =>
    .ite ?_ (.pure cond)
  exact (extends_token "?").bind fun _ => extendsInner.bind fun whenTrue =>
    (extends_token ":").bind fun _ => extendsInner.map _

theorem extends_assignment :
    Extends start Settled (assignment inner fuel) (assignment inner' fuel') := by
  rw [assignment_eq_seek, assignment_eq_seek]
  exact (extends_ternary extendsInner enough).bind fun target =>
    (sees_seek stops_assignOp? (ExtendsFrom.pure target).sees fun op =>
      extendsInner.map (Expr.assign .unnumbered op target)).behindGap

end

theorem extends_expression {fuel fuel' : Nat} (enough : fuel ≤ fuel') :
    Extends start Settled (expression fuel) (expression fuel') := by
  induction fuel generalizing fuel' start with
  | zero => exact .fail _
  | succ fuel inductionHypothesis =>
      cases fuel' with
      | zero => exact absurd enough (Nat.not_succ_le_zero fuel)
      | succ fuel' =>
          exact extends_assignment (inductionHypothesis (Nat.le_of_succ_le_succ enough)) enough

end Parse
end Whittle
