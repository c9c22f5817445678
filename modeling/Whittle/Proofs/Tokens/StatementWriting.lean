import Whittle.Proofs.Parse.Statements
import Whittle.Proofs.RoundTrip.Decl
import Whittle.Proofs.Tokens.ExpressionWriting

namespace Whittle

/-!
# What the texts of statements and declarations say

The text of a statement says what the statement says, on whatever level it is written.  It
leaves nothing behind that an operator could stand behind, so what follows it does not matter.
-/

open Parse (goesOn isWord)
open Stmt (gapTo headerPart initText levelOf linesOfList linesOfCases wordsOfList wordsOfCases)

namespace Progress

variable {p : Progress} {level : Nat} {chars rest : List Char}

@[simp] theorem total_indent : p.total false ((indent level).toList ++ rest) = p.total false rest := by
  rw [indent, String.toList_ofList]
  induction 4 * level with
  | zero => rfl
  | succ count inductionHypothesis =>
      rw [List.replicate_succ, List.cons_append, total_space, inductionHypothesis]

@[simp] theorem total_gapTo (sameLine : Bool) :
    p.total false (gapTo sameLine level ++ rest) = p.total false rest := by
  rw [gapTo]
  split
  · exact total_space
  · rw [List.cons_append, total_newline, total_indent]

theorem total_semicolon : p.total false (';' :: rest) = (p.say [";"] .start).total false rest :=
  total_mark (by decide)

/-- A word that is said where no name of a member is. -/
theorem total_keyword {name : String} (isName : isWord name = true) (notPoint : p.scan.front ≠ .point)
    (ends : goesOn rest = false) :
    p.total false (name.toList ++ rest) =
      (p.say [name] (TokenScan.frontBehind name)).total false rest := by
  rw [total_word isName ends, Parse.behind_word name notPoint]

/-- The word of a statement and what it says in the parentheses behind it. -/
theorem total_header {name : String} {words : List String}
    (isHeader : name ∈ ["if", "for", "while", "switch"]) (here : p.scan.front = .start)
    (inside : ∀ q : Progress, q.scan.front = .opening → ∃ front,
      q.total false (chars ++ ')' :: rest) = (q.say words front).total false (')' :: rest)) :
    p.total false (name.toList ++ ' ' :: '(' :: (chars ++ ')' :: rest)) =
      (p.say (name :: words) .start).total false rest := by
  have isWord : ∀ name ∈ ["if", "for", "while", "switch"],
      isWord name = true ∧ TokenScan.frontBehind name = .header := by decide
  rcases isWord name isHeader with ⟨isName, isFront⟩
  rcases inside (p.say [name] .header).opening rfl with ⟨front, inside⟩
  rw [total_keyword isName (by rw [here]; decide) rfl, isFront, total_space, total_parens inside,
    front_say, if_pos rfl, say_say]
  rfl

end Progress

namespace Expr

variable {p : Progress} {rest : List Char}

/-- The header of a statement that has one expression in it. -/
theorem total_header {e : Expr} (writable : e.isWritable = true) {name : String}
    (isHeader : name ∈ ["if", "for", "while", "switch"]) (here : p.scan.front = .start) :
    p.total false (name.toList ++ ' ' :: '(' :: (e.text.toList ++ ')' :: rest)) =
      (p.say (name :: e.words) .start).total false rest := by
  refine Progress.total_header isHeader here fun q opened => ⟨.operand, ?_⟩
  exact (says_of_isWritable writable).text (by rw [opened]; rfl) rfl (by simp)

/-- An expression with the semicolon behind it. -/
theorem total_semicolon {e : Expr} (writable : e.isWritable = true)
    (awaits : p.scan.front.awaits = true) :
    p.total false (e.text.toList ++ ';' :: rest) =
      (p.say (e.words ++ [";"]) .start).total false rest := by
  rw [(says_of_isWritable writable).text awaits rfl (by simp), Progress.total_semicolon,
    Progress.say_say]

/-- An expression that may be missing. -/
theorem total_headerPart {e? : Option Expr} (writable : e?.all isWritable = true)
    (awaits : p.scan.front.awaits = true) {c : Char} (noWord : Parse.isWordChar c = false)
    (noPoint : c ≠ '.') :
    p.total false ((headerPart e?).toList ++ c :: rest) = (p.sayOption e?).total false (c :: rest) := by
  cases e? with
  | none => rfl
  | some e =>
      rw [headerPart, String.toList_append, List.append_assoc]
      exact Progress.total_space.trans ((says_of_isWritable writable).text awaits noWord (by simpa))

/-- An expression that may be missing is said with the semicolon behind it. -/
theorem total_headerPart_semicolon {e? : Option Expr} (writable : e?.all isWritable = true)
    (awaits : p.scan.front.awaits = true) :
    p.total false ((headerPart e?).toList ++ ';' :: rest) =
      (p.say (Stmt.wordsOfOption e? ++ [";"]) .start).total false rest := by
  rcases p.exists_sayOption_eq e? with ⟨front, same⟩
  rw [total_headerPart writable awaits rfl (by decide), Progress.total_semicolon, same, Progress.say_say]

end Expr

section

variable {p : Progress} {rest : List Char}

theorem Ty.total_text {ty : Ty} (printable : ty.isPrintable = true) (notPoint : p.scan.front ≠ .point)
    (ends : goesOn rest = false) :
    p.total false (ty.text.toList ++ rest) = (p.say [ty.text] .operand).total false rest :=
  Progress.total_name (isWord_text printable) (isReserved_text printable) notPoint ends

/-- A type and the name behind it. -/
theorem Ty.total_typed {ty : Ty} {name : String} (printable : ty.isPrintable = true)
    (isName : Parse.isName name = true) (notPoint : p.scan.front ≠ .point)
    (ends : goesOn rest = false) :
    p.total false (ty.text.toList ++ ' ' :: (name.toList ++ rest)) =
      (p.say [ty.text, name] .operand).total false rest := by
  rw [ty.total_text printable notPoint rfl, Progress.total_space,
    Progress.total_name (Parse.isWord_of_isName isName) (Parse.isReserved_of_isName isName)
      (by simp) ends, Progress.say_say]
  rfl

theorem Expr.total_initChars {init : Option Expr} (writable : init.all isWritable = true) :
    p.total false (Parse.initChars init ++ rest) =
      (p.say (wordsOfInit init ++ [";"]) .start).total false rest := by
  cases init with
  | none => exact Progress.total_semicolon
  | some e =>
      have split : Parse.initChars (some e) ++ rest =
          ' ' :: (AssignOp.set.symbol.toList ++ ' ' :: (e.text.toList ++ ';' :: rest)) := by
        simp [Parse.initChars, AssignOp.symbol]
      rw [split, Progress.total_space, Progress.total_assignSymbol, Progress.total_space,
        total_semicolon writable rfl, Progress.say_say]
      rfl

theorem VarDecl.total_text {var : VarDecl} (printable : var.isPrintable Expr.isWritable = true)
    (notPoint : p.scan.front ≠ .point) :
    p.total false (var.text.toList ++ rest) = (p.say var.words .start).total false rest := by
  rw [isPrintable, Bool.and_eq_true, Bool.and_eq_true] at printable
  rcases printable with ⟨⟨typed, named⟩, writable⟩
  have behind : ∀ q : Progress, q.scan.front ≠ .point →
      q.total false (var.ty.text.toList ++
          ' ' :: (var.name.toList ++ (Parse.initChars var.init ++ rest))) =
        (q.say ([var.ty.text, var.name] ++ (Expr.wordsOfInit var.init ++ [";"])) .start).total false
          rest :=
    fun q notPoint => by
      rw [var.ty.total_typed typed named notPoint (Parse.goesOn_initChars _ _),
        Expr.total_initChars writable, Progress.say_say]
  rw [Parse.toList_varText, words]
  cases qualified : var.qualifier with
  | none =>
      simp only [Option.map_none, Option.getD_none, List.nil_append, List.append_assoc, List.cons_append]
      exact behind p notPoint
  | some qualifier =>
      have isWord : isWord qualifier.keyword = true := by cases qualifier <;> decide
      have front : TokenScan.frontBehind qualifier.keyword = .operand := by cases qualifier <;> decide
      simp only [Option.map_some, Option.getD_some, List.append_assoc, List.cons_append, List.nil_append]
      rw [Progress.total_keyword isWord notPoint rfl, front, Progress.total_space, behind _ (by simp),
        Progress.say_say]
      rfl

/-- The sign of a label is said with its number. -/
theorem Progress.total_labelNumber (here : p.scan.front = .label) (number : Int) :
    p.total false ((toString number).toList ++ ':' :: rest) =
      (p.say [toString number] .operand).total false (':' :: rest) := by
  by_cases negative : number < 0
  · rcases Parse.exists_toDigits_eq_cons number.natAbs with ⟨c, tail, split, isDigit⟩
    have minus : Parse.firstToken? ('-' :: (Nat.toDigits 10 number.natAbs ++ ':' :: rest)) =
        some (.mark "-", Nat.toDigits 10 number.natAbs ++ ':' :: rest) := by
      refine Parse.firstToken?_lone rfl fun d isHead => ?_
      rw [split] at isHead
      cases isHead
      refine Parse.isPair_eq_false ?_ ?_ <;> rintro rfl <;> cases isDigit
    rw [Parse.toList_toString_of_neg negative, List.cons_append,
      total_of_firstToken? (Parse.shows_cons rfl (by decide)) minus, total_digits _ rfl (by simp)]
    simp [behind, say, TokenScan.behind, TokenScan.spell, here, Parse.digitsValue_toDigits,
      abs_of_neg negative]
  · exact total_int (Int.not_lt.mp negative) (by rw [here]; decide) rfl (by simp)

theorem Label.total_text {label : Label} (here : p.scan.front = .start) :
    p.total false (label.text.toList ++ rest) = (p.say label.words .start).total false rest := by
  have notPoint : p.scan.front ≠ .point := by rw [here]; decide
  have colon : ∀ q : Progress, q.total false (':' :: rest) = (q.say [":"] .start).total false rest :=
    fun q => Progress.total_mark (by decide)
  cases label with
  | otherwise =>
      have split : Label.otherwise.text.toList ++ rest = "default".toList ++ ':' :: rest := rfl
      rw [split, Progress.total_keyword rfl notPoint rfl, colon, Progress.say_say]
      rfl
  | value number =>
      have split : (Label.value number).text.toList ++ rest =
          "case".toList ++ ' ' :: ((toString number).toList ++ ':' :: rest) := by
        simp [text]
      rw [split, Progress.total_keyword rfl notPoint rfl, Progress.total_space,
        Progress.total_labelNumber rfl, colon, Progress.say_say, Progress.say_say]
      rfl

/-! ## Statements -/

namespace Stmt

/-- A statement that may stand in the header of a loop, or nothing, with its semicolon. -/
theorem total_initText {init : Option Stmt} (printable : isPrintableInit Expr.isWritable init = true)
    (awaits : p.scan.front.awaits = true) :
    p.total false ((initText init).toList ++ rest) =
      (p.say (wordsOfInit init) .start).total false rest := by
  cases init with
  | none => exact Progress.total_semicolon
  | some s =>
      cases s with
      | decl id var =>
          rw [isPrintableInit, VarDecl.isPrintableLocal, Bool.and_eq_true] at printable
          exact var.total_text printable.1 (Front.ne_of_awaits awaits rfl)
      | expr id e =>
          rw [initText, String.toList_append, List.append_assoc]
          exact Expr.total_semicolon printable awaits
      | _ => cases printable

/-- The text of a statement says what the statement says. -/
def Says (s : Stmt) : Prop :=
  ∀ ⦃level : Nat⦄ ⦃p : Progress⦄ ⦃rest : List Char⦄, p.scan.front = .start →
    p.total false (s.chars level ++ rest) = (p.say s.words .start).total false rest

theorem total_linesOfList {stmts : List Stmt} (spoken : ∀ s ∈ stmts, s.Says)
    (here : p.scan.front = .start) (level : Nat) :
    p.total false ((linesOfList level stmts).toList ++ rest) =
      (p.say (wordsOfList stmts) .start).total false rest := by
  induction stmts generalizing p with
  | nil => rw [wordsOfList, Progress.say_nil here]; rfl
  | cons s stmts inductionHypothesis =>
      have split : (linesOfList level (s :: stmts)).toList ++ rest = (indent level).toList ++
          (s.chars level ++ '\n' :: ((linesOfList level stmts).toList ++ rest)) := by
        simp [linesOfList, toList_lines]
      rw [split, Progress.total_indent, spoken s List.mem_cons_self here, Progress.total_newline,
        inductionHypothesis (fun s listed => spoken s (List.mem_cons_of_mem _ listed)) rfl,
        Progress.say_say, wordsOfList]

theorem total_linesOfCases {cases : List Case} (spoken : ∀ one ∈ cases, ∀ s ∈ one.body, s.Says)
    (here : p.scan.front = .start) (level : Nat) :
    p.total false ((linesOfCases level cases).toList ++ rest) =
      (p.say (wordsOfCases cases) .start).total false rest := by
  induction cases generalizing p with
  | nil => rw [wordsOfCases, Progress.say_nil here]; rfl
  | cons one cases inductionHypothesis =>
      rcases one with ⟨id, label, body⟩
      have spokenBody : ∀ s ∈ body, s.Says := spoken (.mk id label body) List.mem_cons_self
      have split : (linesOfCases level (.mk id label body :: cases)).toList ++ rest =
          (indent level).toList ++ (label.text.toList ++ '\n' ::
            ((linesOfList (level + 1) body).toList ++ ((linesOfCases level cases).toList ++ rest))) := by
        simp [linesOfCases]
      rw [split, Progress.total_indent, label.total_text here, Progress.total_newline,
        total_linesOfList spokenBody rfl,
        inductionHypothesis (fun one listed => spoken one (List.mem_cons_of_mem _ listed)) rfl,
        Progress.say_say, Progress.say_say, wordsOfCases]

/-- The statements of a block, with the braces around them. -/
theorem total_block {id scope : NodeId} {stmts : List Stmt} (spoken : ∀ s ∈ stmts, s.Says) :
    (block id scope stmts).Says := by
  intro level p rest here
  rw [chars_block]
  simp only [List.cons_append, List.append_assoc, List.nil_append]
  rw [Progress.total_mark (by decide), Progress.total_newline, total_linesOfList spoken rfl,
    Progress.total_indent, Progress.total_mark (by decide), words]
  simp

theorem says_branch {id : NodeId} {cond : Expr} {whenTrue : Stmt} {whenFalse : Option Stmt}
    (writable : cond.isWritable = true) (first : whenTrue.Says) (second : ∀ s ∈ whenFalse, s.Says) :
    (branch id cond whenTrue whenFalse).Says := by
  intro level p rest here
  have isHeader : "if" ∈ ["if", "for", "while", "switch"] := by decide
  cases whenFalse with
  | none =>
      rw [chars_branch_none]
      simp only [List.cons_append, List.append_assoc]
      rw [Expr.total_header writable isHeader here, Progress.total_gapTo, first rfl, words]
      simp [wordsOfElse]
  | some s =>
      have isElse : ∀ q : Progress, q.scan.front = .start →
          q.total false ("else".toList ++ (gapTo s.followsElse (level + 1) ++
            (s.chars (levelOf s.followsElse level) ++ rest))) =
          (q.say ("else" :: s.words) .start).total false rest := by
        intro q here
        rw [Progress.total_keyword rfl (by rw [here]; decide) (Parse.goesOn_gapTo _),
          Progress.total_gapTo, second s rfl rfl, Progress.say_say]
        rfl
      rw [chars_branch_some]
      simp only [List.cons_append, List.append_assoc]
      rw [Expr.total_header writable isHeader here, Progress.total_gapTo, first rfl,
        Progress.total_gapTo, isElse _ rfl, words]
      simp [wordsOfElse]

theorem says_forLoop {id : NodeId} {init : Option Stmt} {cond step : Option Expr} {body : Stmt}
    (printable : isPrintableInit Expr.isWritable init = true) (tested : cond.all Expr.isWritable = true)
    (stepped : step.all Expr.isWritable = true) (spoken : body.Says) :
    (forLoop id init cond step body).Says := by
  intro level p rest here
  have inside : ∀ (q : Progress) (rest : List Char), q.scan.front = .opening → ∃ front,
      q.total false ((initText init).toList ++ ((headerPart cond).toList ++
        ';' :: (headerPart step).toList) ++ ')' :: rest) =
      (q.say (wordsOfInit init ++ (wordsOfOption cond ++ ";" :: wordsOfOption step)) front).total false
        (')' :: rest) := by
    intro q rest opened
    rcases (q.say (wordsOfInit init ++ (wordsOfOption cond ++ [";"])) .start).exists_sayOption_eq step
      with ⟨front, same⟩
    refine ⟨front, ?_⟩
    simp only [List.append_assoc, List.cons_append]
    rw [total_initText printable (by rw [opened]; rfl), Expr.total_headerPart_semicolon tested rfl,
      Progress.say_say, Expr.total_headerPart stepped rfl rfl (by decide), same, Progress.say_say]
    simp
  have split : (forLoop id init cond step body).chars level ++ rest =
      "for".toList ++ ' ' :: '(' :: ((initText init).toList ++ ((headerPart cond).toList ++
        ';' :: (headerPart step).toList) ++ ')' :: (gapTo body.isBlock (level + 1) ++
          (body.chars (levelOf body.isBlock level) ++ rest))) := by
    rw [chars_forLoop]
    simp
  rw [split, Progress.total_header (by decide) here fun q => inside q _, Progress.total_gapTo,
    spoken rfl, Progress.say_say, words]
  simp

theorem says_whileLoop {id : NodeId} {cond : Expr} {body : Stmt} (writable : cond.isWritable = true)
    (spoken : body.Says) : (whileLoop id cond body).Says := by
  intro level p rest here
  rw [chars_whileLoop]
  simp only [List.cons_append, List.append_assoc]
  rw [Expr.total_header writable (by decide) here, Progress.total_gapTo, spoken rfl, words]
  simp

theorem says_switch {id : NodeId} {selector : Expr} {cases : List Case}
    (writable : selector.isWritable = true) (spoken : ∀ one ∈ cases, ∀ s ∈ one.body, s.Says) :
    (switch id selector cases).Says := by
  intro level p rest here
  rw [chars_switch]
  simp only [List.cons_append, List.append_assoc, List.nil_append]
  rw [Expr.total_header writable (by decide) here, Progress.total_space,
    Progress.total_mark (by decide), Progress.total_newline, total_linesOfCases spoken rfl,
    Progress.total_indent, Progress.total_mark (by decide), words]
  simp

theorem says_ret {id : NodeId} {value : Option Expr} (writable : value.all Expr.isWritable = true) :
    (ret id value).Says := by
  intro level p rest here
  rw [chars_ret]
  simp only [List.cons_append, List.append_assoc, List.nil_append]
  rw [Progress.total_keyword rfl (by rw [here]; decide) (Parse.goesOn_headerPart value rfl),
    Expr.total_headerPart_semicolon writable rfl, words]
  simp

/-- A statement that is a word. -/
theorem total_wordStmt {name : String} (isName : isWord name = true) (here : p.scan.front = .start) :
    p.total false (name.toList ++ [';'] ++ rest) = (p.say [name, ";"] .start).total false rest := by
  rw [List.append_assoc, Progress.total_keyword isName (by rw [here]; decide) rfl]
  exact Progress.total_semicolon.trans (by rw [Progress.say_say]; rfl)

mutual

/-- The text of a statement that can be written says what the statement says. -/
theorem says_of_isPrintable {s : Stmt} (printable : s.isPrintable Expr.isWritable = true) : s.Says := by
  cases s with
  | decl id var =>
      rw [isPrintable, VarDecl.isPrintableLocal, Bool.and_eq_true] at printable
      intro level p rest here
      rw [chars_decl, words]
      exact var.total_text printable.1 (by rw [here]; decide)
  | expr id e =>
      rw [isPrintable] at printable
      intro level p rest here
      rw [chars_expr, List.append_assoc, words]
      exact Expr.total_semicolon printable (by rw [here]; rfl)
  | block id scope stmts =>
      rw [isPrintable] at printable
      exact total_block (says_of_isPrintableList printable)
  | branch id cond whenTrue whenFalse =>
      cases whenFalse with
      | none =>
          rw [isPrintable, Bool.and_eq_true] at printable
          exact says_branch printable.1 (says_of_isPrintable printable.2) nofun
      | some s =>
          simp only [isPrintable, Bool.and_eq_true] at printable
          refine says_branch printable.1.1.1 (says_of_isPrintable printable.1.1.2) ?_
          rintro _ ⟨⟩
          exact says_of_isPrintable printable.1.2
  | forLoop id init cond step body =>
      simp only [isPrintable, Bool.and_eq_true] at printable
      exact says_forLoop printable.1.1.1 printable.1.1.2 printable.1.2 (says_of_isPrintable printable.2)
  | whileLoop id cond body =>
      rw [isPrintable, Bool.and_eq_true] at printable
      exact says_whileLoop printable.1 (says_of_isPrintable printable.2)
  | switch id selector cases =>
      rw [isPrintable, Bool.and_eq_true] at printable
      exact says_switch printable.1 (says_of_isPrintableCases printable.2)
  | ret id value =>
      rw [isPrintable] at printable
      exact says_ret printable
  | breakOut =>
      intro level p rest here
      rw [chars_breakOut, words]
      exact total_wordStmt rfl here
  | continueLoop =>
      intro level p rest here
      rw [chars_continueLoop, words]
      exact total_wordStmt rfl here
  | discard =>
      intro level p rest here
      rw [chars_discard, words]
      exact total_wordStmt rfl here
  | empty =>
      intro level p rest here
      rw [chars_empty, words]
      exact Progress.total_semicolon

theorem says_of_isPrintableList {stmts : List Stmt}
    (printable : isPrintableList Expr.isWritable stmts = true) : ∀ s ∈ stmts, s.Says := by
  cases stmts with
  | nil => exact List.forall_mem_nil _
  | cons s stmts =>
      rw [isPrintableList, Bool.and_eq_true] at printable
      exact List.forall_mem_cons.mpr
        ⟨says_of_isPrintable printable.1, says_of_isPrintableList printable.2⟩

theorem says_of_isPrintableCases {cases : List Case}
    (printable : isPrintableCases Expr.isWritable cases = true) :
    ∀ one ∈ cases, ∀ s ∈ one.body, s.Says := by
  match cases with
  | [] => exact List.forall_mem_nil _
  | .mk id label body :: cases =>
      rw [isPrintableCases, Bool.and_eq_true, Bool.and_eq_true] at printable
      exact List.forall_mem_cons.mpr
        ⟨says_of_isPrintableList printable.1.2, says_of_isPrintableCases printable.2⟩

end

end Stmt

end

section

variable {p : Progress} {rest : List Char}

theorem PrecisionDecl.total_text {decl : PrecisionDecl} (typed : decl.ty.isPrintable = true)
    (here : p.scan.front = .start) :
    p.total false ((Decl.precision decl).text.toList ++ rest) =
      (p.say (Decl.precision decl).words .start).total false rest := by
  have keyword : Parse.isWord decl.precision.keyword = true ∧
      TokenScan.frontBehind decl.precision.keyword = .operand := by
    cases decl.precision <;> decide
  rw [Parse.precisionText_append, Progress.total_keyword rfl (by rw [here]; decide) rfl,
    Progress.total_space,
    Progress.total_keyword keyword.1 (by rw [Progress.front_say]; decide) rfl, keyword.2,
    Progress.total_space, decl.ty.total_text typed (by simp) rfl, Progress.total_semicolon,
    Progress.total_newline, Progress.say_say, Progress.say_say, Progress.say_say]
  rfl

theorem Field.total_line {field : Field} (printable : field.isPrintable = true)
    (here : p.scan.front = .start) :
    p.total false (field.line.toList ++ rest) = (p.say field.words .start).total false rest := by
  rw [isPrintable, Bool.and_eq_true] at printable
  rw [Parse.toList_fieldLine]
  simp only [List.append_assoc, List.cons_append, List.nil_append]
  rw [Progress.total_indent, field.ty.total_typed printable.1 printable.2 (by rw [here]; decide) rfl,
    Progress.total_semicolon, Progress.total_newline, Progress.say_say]
  rfl

theorem Field.total_lines {fields : List Field} (printable : fields.all isPrintable = true)
    (here : p.scan.front = .start) :
    p.total false ((String.join (fields.map line)).toList ++ rest) =
      (p.say (fields.flatMap words) .start).total false rest := by
  induction fields generalizing p with
  | nil => exact congrArg (Progress.total false · rest) (Progress.say_nil here).symm
  | cons field fields inductionHypothesis =>
      rw [List.all_cons, Bool.and_eq_true] at printable
      rw [List.map_cons, String.join_cons, String.toList_append, List.append_assoc,
        field.total_line printable.1 here, inductionHypothesis printable.2 rfl, Progress.say_say,
        List.flatMap_cons]

theorem StructDecl.total_text {decl : StructDecl} (named : Parse.isName decl.name = true)
    (printable : decl.fields.all Field.isPrintable = true) (here : p.scan.front = .start) :
    p.total false ((Decl.struct decl).text.toList ++ rest) =
      (p.say (Decl.struct decl).words .start).total false rest := by
  rw [Parse.structText_append, Progress.total_keyword rfl (by rw [here]; decide) rfl,
    Progress.total_space, Progress.total_name (Parse.isWord_of_isName named)
      (Parse.isReserved_of_isName named) (by rw [Progress.front_say]; decide) rfl,
    Progress.total_space, Progress.total_mark (by decide), Progress.total_newline,
    Field.total_lines printable rfl, Progress.total_mark (by decide), Progress.total_semicolon,
    Progress.total_newline, Decl.words]
  simp

theorem Param.spoken_text {param : Param} (spelled : param.isSpelled = true) :
    Progress.Spoken param.text.toList param.words := by
  intro p rest awaits ends _
  rw [isSpelled, Bool.and_eq_true] at spelled
  rw [Parse.paramText_append]
  exact param.ty.total_typed spelled.1 spelled.2 (Front.ne_of_awaits awaits rfl) ends

theorem Param.total_paramChars {params : List Param} (spelled : params.all isSpelled = true)
    (notHeader : p.scan.front ≠ .header) :
    p.opening.total false (Parse.paramChars params ++ ')' :: rest) =
      (p.say (separated words params) .operand).total false rest := by
  have split : Parse.paramChars params =
      Progress.itemChars (fun param => param.text.toList) params := by
    cases params with
    | nil => rfl
    | cons param params => exact Parse.toList_paramTexts_cons param params
  rw [split]
  exact Progress.total_itemChars
    (fun param listed => param.spoken_text (List.all_eq_true.mp spelled param listed)) notHeader

theorem Function.total_text {f : Function}
    (spelled : (Decl.function f).isSpelled Expr.isWritable = true) (here : p.scan.front = .start) :
    p.total false ((Decl.function f).text.toList ++ rest) =
      (p.say (Decl.function f).words .start).total false rest := by
  simp only [Decl.isSpelled, Bool.and_eq_true] at spelled
  rcases spelled with ⟨⟨⟨typed, named⟩, params⟩, printable⟩
  rw [Parse.functionText_append, f.returnTy.total_typed typed named (by rw [here]; decide) rfl,
    Progress.total_openParen, Param.total_paramChars params (by simp), Progress.total_space,
    Progress.total_mark (by decide), Progress.total_newline,
    Stmt.total_linesOfList (Stmt.says_of_isPrintableList printable) rfl,
    Progress.total_mark (by decide), Progress.total_newline, Decl.words]
  simp

/-- The text of a declaration says what the declaration says. -/
theorem Decl.total_text {decl : Decl} (spelled : decl.isSpelled Expr.isWritable = true)
    (here : p.scan.front = .start) :
    p.total false (decl.text.toList ++ rest) = (p.say decl.words .start).total false rest := by
  cases decl with
  | precision decl => exact decl.total_text spelled here
  | struct decl =>
      rw [isSpelled, Bool.and_eq_true] at spelled
      exact decl.total_text spelled.1 spelled.2 here
  | global var =>
      rw [isSpelled] at spelled
      rw [Parse.globalText_append, var.total_text spelled (by rw [here]; decide),
        Progress.total_newline]
      rfl
  | function f => exact f.total_text spelled here

theorem Decl.total_texts {decls : List Decl}
    (spelled : ∀ decl ∈ decls, decl.isSpelled Expr.isWritable = true) (here : p.scan.front = .start)
    (rest : List Char) :
    p.total false ((String.join (decls.map text)).toList ++ rest) =
      (p.say (decls.flatMap words) .start).total false rest := by
  induction decls generalizing p with
  | nil => exact congrArg (Progress.total false · rest) (Progress.say_nil here).symm
  | cons decl decls inductionHypothesis =>
      rw [List.forall_mem_cons] at spelled
      rw [List.map_cons, String.join_cons, String.toList_append, List.append_assoc,
        decl.total_text spelled.1 here, inductionHypothesis spelled.2 rfl, Progress.say_say,
        List.flatMap_cons]

end
end Whittle
