import Whittle.Proofs.RoundTrip.Parts

namespace Whittle
namespace Parse

/-!
# Reading statements

The statements in a statement have shorter texts, so a reader that is right
about all shorter statements makes one that is right about a statement of any
kind.
-/

open Stmt (gapTo levelOf headerPart initText linesOfList linesOfCases)

variable {fits : Expr → Bool} {inner : Reader Stmt} {fuel level : Nat}
  {input rest next chars : List Char}

/-- Digits with a sign in front are the text of an integer. -/
theorem toList_toString_of_neg {value : Int} (negative : value < 0) :
    (toString value).toList = '-' :: Nat.toDigits 10 value.natAbs := by
  cases value with
  | ofNat count => exact absurd negative (by simp)
  | negSucc count =>
      show ("-" ++ Nat.repr (count + 1)).toList = _
      rw [String.toList_append, Nat.toList_repr]
      rfl

theorem minusSign_eq_true : minusSign (' ' :: '-' :: rest) = .ok (true, rest) :=
  Reader.bind_eq_of_ok (shows_space_iff.mpr (shows_cons rfl (by decide))).gap_eq

theorem minusSign_eq_false {c : Char} (shown : Shows input (c :: rest)) (noSign : c ≠ '-') :
    minusSign input = .ok (false, c :: rest) := by
  unfold minusSign
  rw [Reader.bind_eq_of_ok shown.gap_eq, Reader.get_bind]
  refine congrFun (?_ : _ = (pure false : Reader Bool)) (c :: rest)
  split
  · rename_i isSign
    exact absurd (List.cons.inj isSign).1 noSign
  · rfl

theorem labelNumber_eq {number : Int} (fits : number.natAbs ≤ largestInt)
    (ends : goesOn rest = false) :
    labelNumber (' ' :: ((toString number).toList ++ rest)) = .ok (number, rest) := by
  rcases exists_toDigits_eq_cons number.natAbs with ⟨c, tail, split, isDigit⟩
  have begins : Expr.beginsExpr c = true := by
    simp [Expr.beginsExpr, Expr.beginsOperand, isDigit]
  have shown : Shows (Nat.toDigits 10 number.natAbs ++ rest) (c :: (tail ++ rest)) := by
    rw [split]
    exact shows_cons (Expr.isTokenBlank_of_beginsExpr begins)
      (Expr.ne_of_beginsExpr begins (by decide))
  have digits : digits? (c :: (tail ++ rest)) = some (Nat.toDigits 10 number.natAbs, rest) := by
    rw [← List.cons_append, ← split]
    exact digits?_append Nat.toDigits_ne_nil isDigit_of_mem_toDigits (not_isDigit_head ends)
  unfold labelNumber
  by_cases negative : number < 0
  · have same : -Int.ofNat number.natAbs = number := by
      show -(number.natAbs : Int) = number
      omega
    rw [toList_toString_of_neg negative, List.cons_append, Reader.bind_eq_of_ok minusSign_eq_true,
      Reader.bind_eq_of_ok shown.gap_eq, Reader.get_bind, digits]
    dsimp only
    rw [Reader.set_bind, digitsValue_toDigits, if_pos fits, if_pos rfl, same]
    rfl
  · have same : (number.natAbs : Int) = number := by omega
    have written : (toString number).toList = Nat.toDigits 10 number.natAbs := by
      rw [toList_toString_of_nonneg (by omega), show number.toNat = number.natAbs by omega]
    have noSign : c ≠ '-' := by
      rintro rfl
      cases isDigit
    rw [written, Reader.bind_eq_of_ok (minusSign_eq_false (shows_space_iff.mpr shown) noSign),
      Reader.bind_eq_of_ok shown.self.gap_eq, Reader.get_bind, digits]
    dsimp only
    rw [Reader.set_bind, digitsValue_toDigits, if_pos fits, if_neg Bool.false_ne_true, same]
    rfl

theorem caseLabel_eq {label : Label} (printable : label.isPrintable = true)
    (shown : Shows input (label.text.toList ++ rest)) :
    caseLabel input = .ok (label, rest) := by
  unfold caseLabel
  cases label with
  | otherwise =>
      have shown : Shows input ("default".toList ++ ':' :: rest) := shown
      rw [Reader.bind_eq_of_ok shown.gap_eq]
      show (atKeyword "default" >>= _ : Reader Label) _ = _
      rw [Reader.bind_eq_of_ok (atKeyword_eq_true rfl)]
      show (keyword "default" >>= _ : Reader Label) _ = _
      rw [Reader.bind_eq_of_ok (shown.self.keyword_eq rfl), Reader.pure_bind]
      exact Reader.bind_eq_of_ok token_colon
  | value number =>
      rw [Label.isPrintable, decide_eq_true_eq] at printable
      have shown : Shows input ("case".toList ++ ' ' :: ((toString number).toList ++ ':' :: rest)) := by
        simpa [Label.text] using shown
      rw [Reader.bind_eq_of_ok shown.gap_eq]
      show (atKeyword "default" >>= _ : Reader Label) _ = _
      rw [Reader.bind_eq_of_ok (atKeyword_eq_false rfl)]
      show (keyword "case" >>= _ : Reader Label) _ = _
      rw [Reader.bind_eq_of_ok (shown.self.keyword_eq rfl),
        Reader.bind_eq_of_ok (labelNumber_eq printable rfl), Reader.pure_bind]
      exact Reader.bind_eq_of_ok token_colon

/-- The label of a case shows at once, and it is no brace. -/
theorem atToken_label_eq {text : List Char} (label : Label)
    (like : Like input (label.text.toList ++ text)) :
    atToken "\x7d" input = .ok (false, label.text.toList ++ text) := by
  have shown := like.shows (endsCase_label label).shows
  rw [shown.atToken_eq]
  cases label with
  | value number =>
      rw [Label.text, String.toList_append, String.toList_append]
      rfl
  | otherwise => rfl

/-- Behind the statements of a case stands another label or the end of the
selection. -/
theorem exists_endsCase (cases : List Case) (behind : Shows rest ('\x7d' :: chars)) :
    ∃ next, Shows ((linesOfCases level cases).toList ++ rest) next ∧ EndsCase next := by
  cases cases with
  | nil => exact ⟨_, behind, endsCase_brace⟩
  | cons first others =>
      rcases first with ⟨id, label, body⟩
      have isLabel : EndsCase (label.text.toList ++ '\n' ::
          ((linesOfList (level + 1) body).toList ++
            ((linesOfCases level others).toList ++ rest))) := endsCase_label label
      refine ⟨_, ?_, isLabel⟩
      rw [linesOfCases]
      simp only [String.toList_append, List.append_assoc]
      exact shows_indent_iff.mpr isLabel.shows

/-- There are no more cases than characters in their text. -/
theorem length_le_linesOfCases (level : Nat) (cases : List Case) :
    cases.length ≤ (linesOfCases level cases).toList.length := by
  induction cases with
  | nil => exact Nat.zero_le _
  | cons first others inductionHypothesis =>
      rcases first with ⟨id, label, body⟩
      rw [linesOfCases]
      simp only [String.toList_append, List.length_append, List.length_cons] at inductionHypothesis ⊢
      have lineBreak : "\n".toList.length = 1 := rfl
      omega

/-- The cases of a selection are read one by one up to its end. -/
theorem manyUntil_eq_cases (readable : FitToRead fits) {cases : List Case}
    (printable : Stmt.isPrintableCases fits cases = true)
    (reads : StmtsReadBelow fits inner (linesOfCases level cases).toList.length)
    (length : (linesOfCases level cases).toList.length < fuel) {count : Nat}
    (enough : cases.length < count) (behind : Shows rest ('\x7d' :: chars))
    (like : Like input ((linesOfCases level cases).toList ++ rest)) :
    ∃ cases', Reader.manyUntil (atToken "\x7d") (switchCase inner fuel) count input =
        .ok (cases', '\x7d' :: chars) ∧
      List.Forall₂ (Case.Alike (ReadAs fits)) cases cases' := by
  induction cases generalizing input count with
  | nil =>
      rcases Nat.exists_eq_succ_of_ne_zero (Nat.ne_of_gt enough) with ⟨count, rfl⟩
      exact ⟨[], Reader.manyUntil_eq_nil (closes_brace.closes (like.shows behind)), .nil⟩
  | cons first others inductionHypothesis =>
      rcases first with ⟨id, label, body⟩
      rcases Nat.exists_eq_succ_of_ne_zero (Nat.ne_of_gt (Nat.zero_lt_of_lt enough)) with
        ⟨count, rfl⟩
      simp only [Stmt.isPrintableCases, Bool.and_eq_true] at printable
      rcases printable with ⟨⟨labelled, within⟩, printable⟩
      rw [linesOfCases] at reads length like
      simp only [String.toList_append, List.length_append] at reads length
      simp only [String.toList_append, List.append_assoc] at like
      have isLabel : EndsCase (label.text.toList ++ '\n' ::
          ((linesOfList (level + 1) body).toList ++
            ((linesOfCases level others).toList ++ rest))) := endsCase_label label
      have likeLabel : Like input (label.text.toList ++ '\n' ::
          ((linesOfList (level + 1) body).toList ++
            ((linesOfCases level others).toList ++ rest))) :=
        (like.shows (shows_indent_iff.mpr isLabel.shows)).like isLabel.shows
      have readsBody : StmtsReadBelow fits inner (linesOfList (level + 1) body).toList.length :=
        reads.mono (by omega)
      have many := length_le_linesOfList (level + 1) body
      have enoughForBody : body.length < fuel := by omega
      rcases exists_endsCase others behind with ⟨next, shownOthers, ends⟩
      rcases manyUntil_eq_stmts readable within (closes_case ends) readsBody enoughForBody
        shownOthers ends.noElse (rfl : Like ('\n' :: _) _) with ⟨body', areRead, alike⟩
      rcases inductionHypothesis printable (reads.mono (by omega)) (by omega)
        (Nat.lt_of_succ_lt_succ enough) (ends.shows.like shownOthers) with
        ⟨others', areReadOthers, alikeOthers⟩
      have isRead : switchCase inner fuel (label.text.toList ++ '\n' ::
          ((linesOfList (level + 1) body).toList ++ ((linesOfCases level others).toList ++ rest))) =
          .ok (.mk .unnumbered label body', next) := by
        unfold switchCase
        rw [Reader.bind_eq_of_ok (caseLabel_eq labelled isLabel.shows), Reader.bind_eq_of_ok areRead]
        rfl
      exact ⟨.mk .unnumbered label body' :: others',
        Reader.manyUntil_eq_cons (atToken_label_eq label likeLabel) isRead areReadOthers,
        .cons (.mk alike) alikeOthers⟩

theorem statementWith_eq_branchStmt (shown : Shows input ("if".toList ++ ' ' :: rest)) :
    statementWith inner fuel input = branchStmt inner fuel ("if".toList ++ ' ' :: rest) :=
  Reader.bind_eq_of_ok shown.gap_eq

theorem statementWith_eq_forStmt (shown : Shows input ("for".toList ++ ' ' :: rest)) :
    statementWith inner fuel input = forStmt inner fuel ("for".toList ++ ' ' :: rest) :=
  Reader.bind_eq_of_ok shown.gap_eq

theorem statementWith_eq_whileStmt (shown : Shows input ("while".toList ++ ' ' :: rest)) :
    statementWith inner fuel input = whileStmt inner fuel ("while".toList ++ ' ' :: rest) :=
  Reader.bind_eq_of_ok shown.gap_eq

theorem statementWith_eq_switchStmt (shown : Shows input ("switch".toList ++ ' ' :: rest)) :
    statementWith inner fuel input = switchStmt inner fuel ("switch".toList ++ ' ' :: rest) :=
  Reader.bind_eq_of_ok shown.gap_eq

theorem statementWith_eq_braced (shown : Shows input ('\x7b' :: rest)) :
    statementWith inner fuel input =
      (do
        let stmts ← braced inner fuel
        return .block .unnumbered .unnumbered stmts : Reader Stmt) ('\x7b' :: rest) :=
  Reader.bind_eq_of_ok shown.gap_eq

theorem statementWith_eq_returnStmt {e? : Option Expr}
    (shown : Shows input ("return".toList ++ ((headerPart e?).toList ++ ';' :: rest))) :
    statementWith inner fuel input =
      returnStmt fuel ("return".toList ++ ((headerPart e?).toList ++ ';' :: rest)) := by
  refine (Reader.bind_eq_of_ok shown.gap_eq).trans ?_
  cases e? with
  | none => rfl
  | some e =>
      rw [headerPart, String.toList_append]
      rfl

/-- What begins neither with a mark nor with one of their words is none of the
other statements. -/
theorem statementWith_eq_simpleStmt (begins : BeginsSimply chars) (shown : Shows input chars) :
    statementWith inner fuel input = simpleStmt fuel chars := by
  have noWord : ∀ {name : String}, name ∈ openingWords → behindKeyword? name chars = none :=
    fun listed => begins.noKeyword _ (List.mem_append_left _ listed)
  have worded : wordedStmt inner fuel chars = simpleStmt fuel chars := by
    unfold wordedStmt
    rw [ifKeyword_eq_second (noWord (by decide)), ifKeyword_eq_second (noWord (by decide)),
      ifKeyword_eq_second (noWord (by decide)), ifKeyword_eq_second (noWord (by decide)),
      ifKeyword_eq_second (noWord (by decide)), ifKeyword_eq_second (noWord (by decide)),
      ifKeyword_eq_second (noWord (by decide)), ifKeyword_eq_second (noWord (by decide))]
  unfold statementWith
  rw [Reader.bind_eq_of_ok shown.gap_eq, Reader.get_bind, ← worded]
  refine congrFun ?_ chars
  split
  · exact absurd (begins.noMark _ rfl) (by decide)
  · exact absurd (begins.noMark _ rfl) (by decide)
  · rfl

/-! ## Kinds of statements -/

theorem readBy_word {name : String} {s s' : Stmt} (chars : s.chars level = name.toList ++ [';'])
    (isRead : ∀ {input rest : List Char}, Shows input (name.toList ++ ';' :: rest) →
      statementWith inner fuel input = wordStmt name s' (name.toList ++ ';' :: rest))
    (alike : s.Alike (ReadAs fits) s') (word : isWord name = true) :
    StmtReadBy fits (statementWith inner fuel) level s := by
  intro input rest next shown behind _
  simp only [chars, List.append_assoc, List.cons_append, List.nil_append] at shown
  refine ⟨s', rest, ?_, alike, behind⟩
  rw [isRead shown]
  unfold wordStmt
  rw [Reader.bind_eq_of_ok ((shows_word word).keyword_eq rfl), Reader.bind_eq_of_ok token_semicolon]
  rfl

theorem readBy_empty (id : NodeId) : StmtReadBy fits (statementWith inner fuel) level (.empty id) := by
  intro input rest next shown behind _
  rw [Stmt.chars_empty] at shown
  exact ⟨.empty .unnumbered, rest, Reader.bind_eq_of_ok shown.gap_eq, .empty, behind⟩

section

variable (readable : FitToRead fits)

include readable

theorem readBy_decl {id : NodeId} {var : VarDecl} (printable : var.isPrintableLocal fits = true)
    (count : (Stmt.chars level (.decl id var)).length < fuel) :
    StmtReadBy fits (statementWith inner fuel) level (.decl id var) := by
  intro input rest next shown behind _
  rw [Stmt.chars_decl] at count shown
  rcases simpleStmt_decl_eq readable printable count shown.self with ⟨var', isRead, alike⟩
  refine ⟨.decl .unnumbered var', rest, ?_, .decl alike, behind⟩
  rw [statementWith_eq_simpleStmt (beginsSimply_varText printable) shown, isRead]

theorem readBy_expr {id : NodeId} {e : Expr} (fit : fits e = true)
    (count : (Stmt.chars level (.expr id e)).length < fuel) :
    StmtReadBy fits (statementWith inner fuel) level (.expr id e) := by
  intro input rest next shown behind _
  rw [Stmt.chars_expr] at count shown
  rw [List.length_append] at count
  rw [List.append_assoc] at shown
  have short : e.text.toList.length < fuel := by omega
  refine ⟨.expr .unnumbered e.asRead, rest, ?_, .expr ⟨fit, rfl⟩, behind⟩
  rw [statementWith_eq_simpleStmt (beginsSimply_text (readable fit) rfl) shown]
  exact simpleStmt_expr_eq (readable fit) short shown.self

theorem readBy_ret {id : NodeId} {value : Option Expr} (fit : value.all fits = true)
    (count : (Stmt.chars level (.ret id value)).length < fuel) :
    StmtReadBy fits (statementWith inner fuel) level (.ret id value) := by
  intro input rest next shown behind _
  rw [Stmt.chars_ret] at count shown
  simp only [List.length_append, List.length_cons] at count
  simp only [List.append_assoc, List.cons_append, List.nil_append] at shown
  have short : (headerPart value).toList.length < fuel := by omega
  have isRead : expressionUnless ";" fuel ((headerPart value).toList ++ ';' :: rest) =
      .ok (value.map Expr.asRead, ';' :: rest) :=
    expressionUnless_eq (by decide) (readable_of_all readable fit) short
  refine ⟨.ret .unnumbered (value.map Expr.asRead), rest, ?_, .ret (optionRel_readAs fit), behind⟩
  rw [statementWith_eq_returnStmt shown]
  unfold returnStmt
  rw [Reader.bind_eq_of_ok (shown.self.keyword_eq (goesOn_headerPart value rfl)),
    Reader.bind_eq_of_ok isRead, Reader.bind_eq_of_ok token_semicolon]
  rfl

theorem readBy_block {id scope : NodeId} {stmts : List Stmt}
    (printable : Stmt.isPrintableList fits stmts = true)
    (reads : StmtsReadBelow fits inner (Stmt.chars level (.block id scope stmts)).length)
    (count : (Stmt.chars level (.block id scope stmts)).length < fuel) :
    StmtReadBy fits (statementWith inner fuel) level (.block id scope stmts) := by
  intro input rest next shown behind _
  rw [Stmt.chars_block] at reads count shown
  simp only [List.length_append, List.length_cons] at reads count
  simp only [List.append_assoc, List.cons_append, List.nil_append] at shown
  have readsWithin : StmtsReadBelow fits inner (linesOfList (level + 1) stmts).toList.length :=
    reads.mono (by omega)
  have short : (linesOfList (level + 1) stmts).toList.length < fuel := by omega
  rcases braced_eq readable printable readsWithin short shown.self with ⟨stmts', areRead, alike⟩
  refine ⟨.block .unnumbered .unnumbered stmts', rest, ?_, .block alike, behind⟩
  rw [statementWith_eq_braced shown, Reader.bind_eq_of_ok areRead]
  rfl

theorem readBy_branch_none {id : NodeId} {cond : Expr} {whenTrue : Stmt}
    (fit : fits cond = true) (printable : whenTrue.isPrintable fits = true)
    (reads : StmtsReadBelow fits inner (Stmt.chars level (.branch id cond whenTrue none)).length)
    (count : (Stmt.chars level (.branch id cond whenTrue none)).length < fuel) :
    StmtReadBy fits (statementWith inner fuel) level (.branch id cond whenTrue none) := by
  intro input rest next shown behind noElse
  have noElse : behindKeyword? "else" next = none := noElse rfl
  rw [Stmt.chars_branch_none] at reads count shown
  simp only [List.length_append, List.length_cons] at reads count
  simp only [List.append_assoc, List.cons_append] at shown
  have short : cond.text.toList.length < fuel := by omega
  have readBy : StmtReadBy fits inner (levelOf whenTrue.isBlock level) whenTrue :=
    reads printable (by omega)
  rcases placed_eq readable printable readBy behind fun _ => noElse with
    ⟨whenTrue', left, isRead, alike, shownLeft⟩
  refine ⟨.branch .unnumbered cond.asRead whenTrue' none, next, ?_,
    .branch ⟨fit, rfl⟩ alike .none, shownLeft.self⟩
  rw [statementWith_eq_branchStmt shown]
  refine (header_eq (readable fit) short shown.self).trans ?_
  rw [Reader.bind_eq_of_ok isRead, Reader.bind_eq_of_ok shownLeft.gap_eq,
    Reader.bind_eq_of_ok (atKeyword_eq_false noElse)]
  rfl

theorem readBy_branch_some {id : NodeId} {cond : Expr} {whenTrue whenFalse : Stmt}
    (fit : fits cond = true) (printable : whenTrue.isPrintable fits = true)
    (printable' : whenFalse.isPrintable fits = true) (closed : whenTrue.endsOpen = false)
    (reads : StmtsReadBelow fits inner
      (Stmt.chars level (.branch id cond whenTrue (some whenFalse))).length)
    (count : (Stmt.chars level (.branch id cond whenTrue (some whenFalse))).length < fuel) :
    StmtReadBy fits (statementWith inner fuel) level (.branch id cond whenTrue (some whenFalse)) := by
  intro input rest next shown behind noElse
  rw [Stmt.chars_branch_some] at reads count shown
  simp only [List.length_append, List.length_cons] at reads count
  simp only [List.append_assoc, List.cons_append] at shown
  have shownElse : Shows ("else".toList ++ (gapTo whenFalse.followsElse (level + 1) ++
      (whenFalse.chars (levelOf whenFalse.followsElse level) ++ rest))) _ :=
    shows_word rfl
  have short : cond.text.toList.length < fuel := by omega
  have readBy : StmtReadBy fits inner (levelOf whenTrue.isBlock level) whenTrue :=
    reads printable (by omega)
  have readBy' : StmtReadBy fits inner (levelOf whenFalse.followsElse level) whenFalse :=
    reads printable' (by omega)
  rcases placed_eq readable printable readBy
    ((shows_gapTo_iff whenTrue.isBlock).mpr shownElse)
    (fun isOpen => absurd (isOpen.symm.trans closed) (by decide)) with
    ⟨whenTrue', left, isRead, alike, shownLeft⟩
  rcases placed_eq readable printable' readBy' behind noElse with
    ⟨whenFalse', left', isRead', alike', shownLeft'⟩
  refine ⟨.branch .unnumbered cond.asRead whenTrue' (some whenFalse'), left', ?_,
    .branch ⟨fit, rfl⟩ alike (.some alike'), shownLeft'⟩
  rw [statementWith_eq_branchStmt shown]
  refine (header_eq (readable fit) short shown.self).trans ?_
  rw [Reader.bind_eq_of_ok isRead, Reader.bind_eq_of_ok shownLeft.gap_eq,
    Reader.bind_eq_of_ok (atKeyword_eq_true (goesOn_gapTo _))]
  refine (Reader.bind_eq_of_ok (shownElse.keyword_eq (goesOn_gapTo _))).trans ?_
  exact Reader.bind_eq_of_ok isRead'

theorem readBy_whileLoop {id : NodeId} {cond : Expr} {body : Stmt} (fit : fits cond = true)
    (printable : body.isPrintable fits = true)
    (reads : StmtsReadBelow fits inner (Stmt.chars level (.whileLoop id cond body)).length)
    (count : (Stmt.chars level (.whileLoop id cond body)).length < fuel) :
    StmtReadBy fits (statementWith inner fuel) level (.whileLoop id cond body) := by
  intro input rest next shown behind noElse
  rw [Stmt.chars_whileLoop] at reads count shown
  simp only [List.length_append, List.length_cons] at reads count
  simp only [List.append_assoc, List.cons_append] at shown
  have short : cond.text.toList.length < fuel := by omega
  have readBy : StmtReadBy fits inner (levelOf body.isBlock level) body :=
    reads printable (by omega)
  rcases placed_eq readable printable readBy behind noElse with
    ⟨body', left, isRead, alike, shownLeft⟩
  refine ⟨.whileLoop .unnumbered cond.asRead body', left, ?_, .whileLoop ⟨fit, rfl⟩ alike,
    shownLeft⟩
  rw [statementWith_eq_whileStmt shown]
  refine (header_eq (readable fit) short shown.self).trans ?_
  exact Reader.bind_eq_of_ok isRead

theorem readBy_forLoop {id : NodeId} {init : Option Stmt} {cond step : Option Expr} {body : Stmt}
    (printableInit : Stmt.isPrintableInit fits init = true) (fitCond : cond.all fits = true)
    (fitStep : step.all fits = true) (printable : body.isPrintable fits = true)
    (reads : StmtsReadBelow fits inner (Stmt.chars level (.forLoop id init cond step body)).length)
    (count : (Stmt.chars level (.forLoop id init cond step body)).length < fuel) :
    StmtReadBy fits (statementWith inner fuel) level (.forLoop id init cond step body) := by
  intro input rest next shown behind noElse
  rw [Stmt.chars_forLoop] at reads count shown
  simp only [List.length_append, List.length_cons] at reads count
  simp only [List.append_assoc, List.cons_append] at shown
  have shortInit : (initText init).toList.length < fuel := by omega
  have shortCond : (headerPart cond).toList.length < fuel := by omega
  have shortStep : (headerPart step).toList.length < fuel := by omega
  have readBy : StmtReadBy fits inner (levelOf body.isBlock level) body :=
    reads printable (by omega)
  have isReadCond : ∀ {text : List Char},
      expressionUnless ";" fuel ((headerPart cond).toList ++ ';' :: text) =
        .ok (cond.map Expr.asRead, ';' :: text) :=
    expressionUnless_eq (by decide) (readable_of_all readable fitCond) shortCond
  have isReadStep : ∀ {text : List Char},
      expressionUnless ")" fuel ((headerPart step).toList ++ ')' :: text) =
        .ok (step.map Expr.asRead, ')' :: text) :=
    expressionUnless_eq (by decide) (readable_of_all readable fitStep) shortStep
  rcases loopInit_eq readable printableInit shortInit with ⟨init', isReadInit, alikeInit⟩
  rcases placed_eq readable printable readBy behind noElse with
    ⟨body', left, isReadBody, alike, shownLeft⟩
  refine ⟨.forLoop .unnumbered init' (cond.map Expr.asRead) (step.map Expr.asRead) body', left, ?_,
    .forLoop alikeInit (optionRel_readAs fitCond) (optionRel_readAs fitStep) alike, shownLeft⟩
  rw [statementWith_eq_forStmt shown]
  unfold forStmt
  rw [Reader.bind_eq_of_ok (shown.self.keyword_eq rfl),
    Reader.bind_eq_of_ok ((token_space _).trans token_openParen), Reader.bind_eq_of_ok isReadInit,
    Reader.bind_eq_of_ok isReadCond, Reader.bind_eq_of_ok token_semicolon,
    Reader.bind_eq_of_ok isReadStep, Reader.bind_eq_of_ok token_closeParen,
    Reader.bind_eq_of_ok isReadBody]
  rfl

theorem readBy_switch {id : NodeId} {selector : Expr} {cases : List Case}
    (fit : fits selector = true) (printable : Stmt.isPrintableCases fits cases = true)
    (reads : StmtsReadBelow fits inner (Stmt.chars level (.switch id selector cases)).length)
    (count : (Stmt.chars level (.switch id selector cases)).length < fuel) :
    StmtReadBy fits (statementWith inner fuel) level (.switch id selector cases) := by
  intro input rest next shown behind _
  rw [Stmt.chars_switch] at reads count shown
  simp only [List.length_append, List.length_cons] at reads count
  simp only [List.append_assoc, List.cons_append, List.nil_append] at shown
  have short : selector.text.toList.length < fuel := by omega
  have readsWithin : StmtsReadBelow fits inner (linesOfCases (level + 1) cases).toList.length :=
    reads.mono (by omega)
  have length : (linesOfCases (level + 1) cases).toList.length < fuel := by omega
  have enough := Nat.lt_of_le_of_lt (length_le_linesOfCases (level + 1) cases) length
  have behindCases : Shows ((indent level).toList ++ '\x7d' :: rest) ('\x7d' :: rest) :=
    shows_indent_iff.mpr (shows_mark (by decide))
  rcases manyUntil_eq_cases readable printable readsWithin length enough behindCases
    (rfl : Like ('\n' :: _) _) with ⟨cases', areRead, alike⟩
  refine ⟨.switch .unnumbered selector.asRead cases', rest, ?_, .switch ⟨fit, rfl⟩ alike, behind⟩
  rw [statementWith_eq_switchStmt shown]
  refine (header_eq (readable fit) short shown.self).trans ?_
  rw [Reader.bind_eq_of_ok ((token_space _).trans token_openBrace), Reader.bind_eq_of_ok areRead,
    Reader.bind_eq_of_ok token_closeBrace]
  rfl

/-- A reader that is right about the statements in a statement is right about
the statement. -/
theorem statementWith_readBy {s : Stmt} (printable : s.isPrintable fits = true)
    (reads : StmtsReadBelow fits inner (s.chars level).length)
    (count : (s.chars level).length < fuel) :
    StmtReadBy fits (statementWith inner fuel) level s := by
  cases s with
  | decl id var => exact readBy_decl readable (by rwa [Stmt.isPrintable] at printable) count
  | expr id e => exact readBy_expr readable (by rwa [Stmt.isPrintable] at printable) count
  | block id scope stmts =>
      rw [Stmt.isPrintable] at printable
      exact readBy_block readable printable reads count
  | branch id cond whenTrue whenFalse =>
      cases whenFalse with
      | none =>
          rw [Stmt.isPrintable, Bool.and_eq_true] at printable
          exact readBy_branch_none readable printable.1 printable.2 reads count
      | some whenFalse =>
          simp only [Stmt.isPrintable, Bool.and_eq_true, Bool.not_eq_true'] at printable
          rcases printable with ⟨⟨⟨fit, printable⟩, printable'⟩, closed⟩
          exact readBy_branch_some readable fit printable printable' closed reads count
  | forLoop id init cond step body =>
      simp only [Stmt.isPrintable, Bool.and_eq_true] at printable
      rcases printable with ⟨⟨⟨printableInit, fitCond⟩, fitStep⟩, printable⟩
      exact readBy_forLoop readable printableInit fitCond fitStep printable reads count
  | whileLoop id cond body =>
      rw [Stmt.isPrintable, Bool.and_eq_true] at printable
      exact readBy_whileLoop readable printable.1 printable.2 reads count
  | switch id selector cases =>
      rw [Stmt.isPrintable, Bool.and_eq_true] at printable
      exact readBy_switch readable printable.1 printable.2 reads count
  | ret id value => exact readBy_ret readable (by rwa [Stmt.isPrintable] at printable) count
  | breakOut id =>
      exact readBy_word Stmt.chars_breakOut (fun shown => Reader.bind_eq_of_ok shown.gap_eq)
        .breakOut rfl
  | continueLoop id =>
      exact readBy_word Stmt.chars_continueLoop (fun shown => Reader.bind_eq_of_ok shown.gap_eq)
        .continueLoop rfl
  | discard id =>
      exact readBy_word Stmt.chars_discard (fun shown => Reader.bind_eq_of_ok shown.gap_eq)
        .discard rfl
  | empty id => exact readBy_empty id

/-- The reader of statements reads every printable statement that its count
suffices for. -/
theorem statement_readsBelow (fuel : Nat) : StmtsReadBelow fits (statement fuel) fuel := by
  induction fuel with
  | zero => exact fun _ short => absurd short (Nat.not_lt_zero _)
  | succ fuel inductionHypothesis =>
      intro level s printable short
      exact statementWith_readBy readable printable
        (inductionHypothesis.mono (Nat.le_of_lt_succ short)) short

end

end Parse
end Whittle
