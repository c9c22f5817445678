import Whittle.Proofs.RoundTrip.Begins

namespace Whittle
namespace Parse

/-!
# Reading parts of statements

A statement is read from its text whatever stands behind it, except that no
`else` may follow a statement that ends in a branch without one.  Given a reader
that does so for short statements, the lists and bodies made of them are read as
well.  The reader of a list stops where the writer has put the end of the list,
because no statement begins like one.
-/

open Stmt (gapTo levelOf headerPart initText linesOfList linesOfCases)

variable {fits : Expr → Bool} {inner : Reader Stmt} {fuel length level : Nat}
  {input rest next chars : List Char}

/-- The reader takes the text of the statement on its level for a statement like
it, and leaves what stands behind. -/
def StmtReadBy (fits : Expr → Bool) (inner : Reader Stmt) (level : Nat) (s : Stmt) : Prop :=
  ∀ {input rest next : List Char}, Shows input (s.chars level ++ rest) → Shows rest next →
    (s.endsOpen = true → behindKeyword? "else" next = none) →
    ∃ s' left, inner input = .ok (s', left) ∧ s.Alike (ReadAs fits) s' ∧ Shows left next

/-- The reader does so for all printable statements with fewer characters. -/
def StmtsReadBelow (fits : Expr → Bool) (inner : Reader Stmt) (length : Nat) : Prop :=
  ∀ {level : Nat} {s : Stmt}, s.isPrintable fits = true → (s.chars level).length < length →
    StmtReadBy fits inner level s

theorem StmtsReadBelow.mono {shorter : Nat} (reads : StmtsReadBelow fits inner length)
    (le : shorter ≤ length) : StmtsReadBelow fits inner shorter :=
  fun printable short => reads printable (Nat.lt_of_lt_of_le short le)

/-- The reader tells the text that ends a list of statements from the texts of
statements. -/
structure Closes (closed : Reader Bool) (next : List Char) : Prop where
  closes : ∀ {input}, Shows input next → closed input = .ok (true, next)
  stays : ∀ {input chars}, Shows input chars → BeginsStmt chars →
    closed input = .ok (false, chars)

theorem closes_brace : Closes (atToken "\x7d") ('\x7d' :: rest) where
  closes := fun shown => shown.atToken_eq "\x7d"
  stays := by
    intro input chars shown begins
    rw [shown.atToken_eq]
    cases chars with
    | nil => exact absurd rfl begins.some?
    | cons c rest =>
        have differ : '\x7d' ≠ c := by
          rintro rfl
          exact begins.notClosing rfl
        show Except.ok (('\x7d' == c && _), _) = _
        rw [beq_false_of_ne differ, Bool.false_and]

/-- The text ends a list of statements behind a label. -/
structure EndsCase (next : List Char) : Prop where
  shows : Shows next next
  noElse : behindKeyword? "else" next = none
  isEnd : atCaseEnd next = .ok (true, next)

theorem endsCase_brace : EndsCase ('\x7d' :: rest) where
  shows := shows_cons rfl (by decide)
  noElse := rfl
  isEnd := Reader.bind_eq_of_ok (shows_cons rfl (by decide)).gap_eq

theorem endsCase_label (label : Label) : EndsCase (label.text.toList ++ rest) := by
  cases label with
  | value number =>
      have split : (Label.value number).text.toList ++ rest =
          "case".toList ++ ' ' :: ((toString number).toList ++ ':' :: rest) := by
        simp [Label.text]
      rw [split]
      exact ⟨shows_word rfl, rfl, Reader.bind_eq_of_ok (shows_word rfl).gap_eq⟩
  | otherwise =>
      have shown : Shows ("default".toList ++ ':' :: rest) ("default".toList ++ ':' :: rest) :=
        shows_word rfl
      exact ⟨shown, rfl, Reader.bind_eq_of_ok shown.gap_eq⟩

theorem closes_case (ends : EndsCase next) : Closes atCaseEnd next where
  closes := by
    intro input shown
    have same : atCaseEnd input = atCaseEnd next := by
      unfold atCaseEnd
      rw [Reader.bind_eq_of_ok shown.gap_eq, Reader.bind_eq_of_ok ends.shows.gap_eq]
    rw [same, ends.isEnd]
  stays := by
    intro input chars shown begins
    have noCase := begins.noLabel "case" (by decide)
    have noDefault := begins.noLabel "default" (by decide)
    unfold atCaseEnd
    rw [Reader.bind_eq_of_ok shown.gap_eq, Reader.get_bind]
    split
    · exact absurd rfl begins.some?
    · exact absurd rfl begins.notClosing
    · rw [Reader.bind_eq_of_ok (atKeyword_eq_false noCase),
        Reader.bind_eq_of_ok (atKeyword_eq_false noDefault)]
      rfl

/-- Behind the text of a statement in a list stands another statement or the end
of the list, and neither is an `else`. -/
theorem exists_shows_lines (readable : FitToRead fits) {stmts : List Stmt}
    (printable : Stmt.isPrintableList fits stmts = true) (behind : Shows rest next)
    (noElse : behindKeyword? "else" next = none) :
    ∃ chars, Shows ((linesOfList level stmts).toList ++ rest) chars ∧
      behindKeyword? "else" chars = none := by
  cases stmts with
  | nil => exact ⟨next, behind, noElse⟩
  | cons s stmts =>
      rw [Stmt.isPrintableList, Bool.and_eq_true] at printable
      have begins : BeginsStmt (s.chars level ++ '\n' ::
          ((linesOfList level stmts).toList ++ rest)) := beginsStmt_chars readable printable.1
      refine ⟨_, ?_, begins.noLabel "else" (by decide)⟩
      rw [linesOfList, String.toList_append, String.toList_append, Stmt.toList_lines]
      simp only [List.append_assoc, List.cons_append, List.nil_append]
      exact shows_indent_iff.mpr begins.shows

/-- There are no more statements in a list than characters in its text. -/
theorem length_le_linesOfList (level : Nat) (stmts : List Stmt) :
    stmts.length ≤ (linesOfList level stmts).toList.length := by
  induction stmts with
  | nil => exact Nat.zero_le _
  | cons s stmts inductionHypothesis =>
      rw [linesOfList, String.toList_append, String.toList_append, Stmt.toList_lines]
      simp only [List.length_append, List.length_cons, List.length_nil]
      omega

/-- The statements of a list are read one by one up to its end. -/
theorem manyUntil_eq_stmts {closed : Reader Bool} (readable : FitToRead fits) {stmts : List Stmt}
    (printable : Stmt.isPrintableList fits stmts = true) (closes : Closes closed next)
    (reads : StmtsReadBelow fits inner (linesOfList level stmts).toList.length)
    (count : stmts.length < fuel) (behind : Shows rest next)
    (noElse : behindKeyword? "else" next = none)
    (like : Like input ((linesOfList level stmts).toList ++ rest)) :
    ∃ stmts', Reader.manyUntil closed inner fuel input = .ok (stmts', next) ∧
      List.Forall₂ (Stmt.Alike (ReadAs fits)) stmts stmts' := by
  induction stmts generalizing input fuel with
  | nil =>
      rcases Nat.exists_eq_succ_of_ne_zero (Nat.ne_of_gt count) with ⟨fuel, rfl⟩
      exact ⟨[], Reader.manyUntil_eq_nil (closes.closes (like.shows behind)), .nil⟩
  | cons s stmts inductionHypothesis =>
      rcases Nat.exists_eq_succ_of_ne_zero (Nat.ne_of_gt (Nat.zero_lt_of_lt count)) with ⟨fuel, rfl⟩
      rw [Stmt.isPrintableList, Bool.and_eq_true] at printable
      rw [linesOfList, String.toList_append, String.toList_append, Stmt.toList_lines] at reads like
      simp only [List.append_assoc, List.cons_append, List.nil_append] at like
      simp only [List.length_append, List.length_cons, List.length_nil] at reads
      have begins : BeginsStmt (s.chars level ++ '\n' ::
          ((linesOfList level stmts).toList ++ rest)) := beginsStmt_chars readable printable.1
      have shown := like.shows (shows_indent_iff.mpr begins.shows)
      rcases exists_shows_lines readable printable.2 behind noElse with
        ⟨chars, shownOthers, noElseBehind⟩
      have readBy : StmtReadBy fits inner level s := reads printable.1 (by omega)
      rcases readBy begins.shows (shows_newline_iff.mpr shownOthers) fun _ => noElseBehind with
        ⟨s', left, isRead, alike, shownLeft⟩
      rcases inductionHypothesis printable.2 (reads.mono (by omega)) (Nat.lt_of_succ_lt_succ count)
        (shownLeft.like shownOthers) with ⟨stmts', areRead, alikeOthers⟩
      exact ⟨s' :: stmts', Reader.manyUntil_eq_cons (closes.stays shown begins) isRead areRead,
        .cons alike alikeOthers⟩

/-- Statements in braces are read up to the closing one. -/
theorem braced_eq (readable : FitToRead fits) {stmts : List Stmt}
    (printable : Stmt.isPrintableList fits stmts = true)
    (reads : StmtsReadBelow fits inner (linesOfList (level + 1) stmts).toList.length)
    (count : (linesOfList (level + 1) stmts).toList.length < fuel)
    (shown : Shows input ('\x7b' :: '\n' :: ((linesOfList (level + 1) stmts).toList ++
      ((indent level).toList ++ '\x7d' :: rest)))) :
    ∃ stmts', braced inner fuel input = .ok (stmts', rest) ∧
      List.Forall₂ (Stmt.Alike (ReadAs fits)) stmts stmts' := by
  have shownEnd : Shows ('\x7d' :: rest) ('\x7d' :: rest) := shows_mark (by decide)
  have opens : token "\x7b" input = .ok ((), '\n' :: ((linesOfList (level + 1) stmts).toList ++
      ((indent level).toList ++ '\x7d' :: rest))) := shown.token_eq
  have many := length_le_linesOfList (level + 1) stmts
  rcases manyUntil_eq_stmts readable printable closes_brace reads (Nat.lt_of_le_of_lt many count)
    (shows_indent_iff.mpr shownEnd) rfl (rfl : Like ('\n' :: _) _) with ⟨stmts', areRead, alike⟩
  refine ⟨stmts', ?_, alike⟩
  unfold braced
  rw [Reader.bind_eq_of_ok opens, Reader.bind_eq_of_ok areRead,
    Reader.bind_eq_of_ok token_closeBrace]
  rfl

/-- A part of a statement is read behind its gap. -/
theorem placed_eq (readable : FitToRead fits) {s : Stmt} {sameLine : Bool}
    (printable : s.isPrintable fits = true)
    (readBy : StmtReadBy fits inner (levelOf sameLine level) s) (behind : Shows rest next)
    (noElse : s.endsOpen = true → behindKeyword? "else" next = none) :
    ∃ s' left, inner (gapTo sameLine (level + 1) ++ (s.chars (levelOf sameLine level) ++ rest)) =
        .ok (s', left) ∧ s.Alike (ReadAs fits) s' ∧ Shows left next :=
  readBy
    ((shows_gapTo_iff sameLine).mpr (beginsStmt_chars readable printable).shows) behind noElse

/-- A header with an expression in parentheses is read up to what stands behind
it. -/
theorem header_eq {α : Type} {name : String} {e : Expr} {second : Expr → Reader α}
    (readable : e.Readable) (count : e.text.toList.length < fuel)
    (shown : Shows input (name.toList ++ ' ' :: '(' :: (e.text.toList ++ ')' :: rest))) :
    (do
      keyword name
      token "("
      let e ← expression fuel
      token ")"
      second e) input = second e.asRead rest := by
  have shownEnd : Shows (')' :: rest) (')' :: rest) := shows_mark (by decide)
  rw [Reader.bind_eq_of_ok (shown.keyword_eq rfl),
    Reader.bind_eq_of_ok ((token_space _).trans token_openParen),
    Reader.bind_eq_of_ok (expression_eq readable count (shows_text readable) rfl shownEnd rfl),
    Reader.bind_eq_of_ok token_closeParen]

/-- An expression that may be missing is read up to the mark behind it. -/
theorem expressionUnless_eq {mark : Char} (listed : mark ∈ [';', ')']) {e? : Option Expr}
    (readable : ∀ e ∈ e?, e.Readable) (count : (headerPart e?).toList.length < fuel) :
    expressionUnless (String.ofList [mark]) fuel ((headerPart e?).toList ++ mark :: rest) =
      .ok (e?.map Expr.asRead, mark :: rest) := by
  have isMark : mark ∈ outerMarks ∧ Text.isTokenBlank mark = false ∧ mark ≠ '/' ∧
      isWordChar mark = false ∧ ∀ rest, closes (mark :: rest) = true := by
    simp only [List.mem_cons, List.not_mem_nil, or_false] at listed
    rcases listed with rfl | rfl
    · exact ⟨by decide, rfl, by decide, rfl, fun _ => rfl⟩
    · exact ⟨by decide, rfl, by decide, rfl, fun _ => rfl⟩
  rcases isMark with ⟨isOuter, notBlank, notSlash, noWord, closing⟩
  have shownEnd : Shows (mark :: rest) (mark :: rest) := shows_cons notBlank notSlash
  unfold expressionUnless
  cases e? with
  | none =>
      refine (Reader.bind_eq_of_ok (shownEnd.atToken_eq _)).trans ?_
      rw [String.toList_ofList, List.isPrefixOf_cons_cons, beq_self_eq_true, List.isPrefixOf_nil_left]
      rfl
  | some e =>
      have isReadable := readable e rfl
      have begins : BeginsSimply (e.text.toList ++ mark :: rest) := beginsSimply_text isReadable noWord
      have split : (headerPart (some e)).toList = ' ' :: e.text.toList := by
        rw [headerPart, String.toList_append]
        rfl
      rw [split, List.length_cons] at count
      rw [split, List.cons_append, Reader.bind_eq_of_ok
        ((shows_space_iff.mpr begins.shows).atToken_eq _), String.toList_ofList,
        begins.isPrefixOf_eq_false isOuter, if_neg Bool.false_ne_true,
        Reader.bind_eq_of_ok (expression_eq isReadable (Nat.lt_of_succ_lt count) begins.shows noWord
          shownEnd (closing rest))]
      rfl

/-- The first part of the header of a loop is read with its semicolon. -/
theorem loopInit_eq (readable : FitToRead fits) {init : Option Stmt}
    (printable : Stmt.isPrintableInit fits init = true)
    (count : (initText init).toList.length < fuel) :
    ∃ init', loopInit fuel ((initText init).toList ++ rest) = .ok (init', rest) ∧
      Option.Rel (Stmt.Alike (ReadAs fits)) init init' := by
  have notSemicolon : ∀ {chars : List Char}, BeginsSimply chars →
      atToken ";" chars = .ok (false, chars) := by
    intro chars begins
    rw [begins.shows.atToken_eq]
    exact congrArg (fun isMark => Except.ok (isMark, chars)) (begins.isPrefixOf_eq_false (by decide))
  unfold loopInit
  cases init with
  | none =>
      have shown : Shows (';' :: rest) (';' :: rest) := shows_mark (by decide)
      refine ⟨none, (Reader.bind_eq_of_ok (shown.atToken_eq ";")).trans ?_, .none⟩
      exact Reader.bind_eq_of_ok token_semicolon
  | some s =>
      cases s with
      | decl id var =>
          have begins : BeginsSimply (var.text.toList ++ rest) := beginsSimply_varText printable
          rcases simpleStmt_decl_eq readable printable count begins.shows with ⟨var', isRead, alike⟩
          refine ⟨some (.decl .unnumbered var'), (Reader.bind_eq_of_ok (notSemicolon begins)).trans ?_,
            .some (.decl alike)⟩
          exact Reader.bind_eq_of_ok isRead
      | expr id e =>
          have split : (initText (some (.expr id e))).toList = e.text.toList ++ [';'] := by
            rw [initText, String.toList_append]
            rfl
          have isReadable : e.Readable := readable printable
          have begins : BeginsSimply (e.text.toList ++ ';' :: rest) := beginsSimply_text isReadable rfl
          rw [split, List.length_append] at count
          rw [split, List.append_assoc]
          refine ⟨some (.expr .unnumbered e.asRead),
            (Reader.bind_eq_of_ok (notSemicolon begins)).trans ?_, .some (.expr ⟨printable, rfl⟩)⟩
          exact Reader.bind_eq_of_ok
            (simpleStmt_expr_eq isReadable (Nat.lt_of_le_of_lt (Nat.le_add_right _ _) count) begins.shows)
      | _ => cases printable

end Parse
end Whittle
