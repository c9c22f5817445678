import Whittle.Proofs.RoundTrip.Layout
import Whittle.Proofs.RoundTrip.Words

namespace Whittle
namespace Parse

/-!
# How statements begin

The first character or word of a statement says what kind of statement it is,
and it never is what ends a list of statements.  Only a declaration and an
expression may begin alike, and neither begins like any of the others.
-/

open Stmt (gapTo headerPart)

variable {fits : Expr → Bool} {fuel level : Nat} {input rest chars : List Char}

theorem shows_indent_iff : Shows ((indent level).toList ++ rest) chars ↔ Shows rest chars := by
  rw [indent, String.toList_ofList]
  induction 4 * level with
  | zero => rfl
  | succ count inductionHypothesis =>
      rw [List.replicate_succ, List.cons_append, shows_space_iff, inductionHypothesis]

theorem shows_gapTo_iff (sameLine : Bool) :
    Shows (gapTo sameLine level ++ rest) chars ↔ Shows rest chars := by
  rw [gapTo]
  split
  · exact shows_space_iff
  · rw [List.cons_append, shows_newline_iff, shows_indent_iff]

theorem goesOn_gapTo (sameLine : Bool) : goesOn (gapTo sameLine level ++ rest) = false := by
  rw [gapTo]
  split <;> rfl

theorem goesOn_headerPart (e? : Option Expr) {c : Char} (ends : isWordChar c = false) :
    goesOn ((headerPart e?).toList ++ c :: rest) = false := by
  cases e? with
  | none => exact ends
  | some e =>
      rw [headerPart, String.toList_append]
      rfl

/-- The words that begin the other statements. -/
def openingWords : List String :=
  ["if", "for", "while", "switch", "return", "break", "continue", "discard"]

/-- The words that stand behind a statement and begin none. -/
def closingWords : List String :=
  ["else", "case", "default"]

/-- The marks that a declaration or an expression never begins with. -/
def outerMarks : List Char :=
  ['\x7b', '\x7d', ';', ')', ':']

/-- The text begins at once, and neither like another statement nor like what
stands behind statements and headers. -/
structure BeginsSimply (chars : List Char) : Prop where
  shows : Shows chars chars
  noMark : ∀ c ∈ chars.head?, c ∉ outerMarks
  noKeyword : ∀ name ∈ openingWords ++ closingWords, behindKeyword? name chars = none
  some? : chars ≠ []

/-- A word that begins no other statement is not mistaken for one that does. -/
theorem beginsSimply_word {name : String} (word : isWord name = true)
    (free : name ∉ openingWords ++ closingWords) (ends : goesOn rest = false) :
    BeginsSimply (name.toList ++ rest) := by
  have noKeyword : ∀ other ∈ openingWords ++ closingWords,
      behindKeyword? other (name.toList ++ rest) = none := by
    intro other listed
    refine behindKeyword?_eq_none_of_ne (isWord_of_mem_reserved ?_) word ?_ ends
    · revert listed
      revert other
      decide
    · rintro rfl
      exact free listed
  have shown : Shows (name.toList ++ rest) (name.toList ++ rest) := shows_word word
  rcases exists_cons_of_isWord word with ⟨c, tail, split, starts, _⟩
  refine ⟨shown, ?_, noKeyword, ?_⟩
  · rw [split]
    rintro first ⟨⟩ listed
    simp only [outerMarks, List.mem_cons, List.not_mem_nil, or_false] at listed
    rcases listed with rfl | rfl | rfl | rfl | rfl <;> revert starts <;> decide
  · rw [split]
    exact List.cons_ne_nil _ _

/-- The first words of other statements mean something of their own. -/
theorem not_mem_of_isReserved {name : String} (free : isReserved name = false) :
    name ∉ openingWords ++ closingWords := by
  intro listed
  have isKeyword : ∀ name ∈ openingWords ++ closingWords, isReserved name = true := by decide
  rw [isKeyword _ listed] at free
  cases free

theorem beginsSimply_text {e : Expr} (readable : e.Readable) (ends : goesOn rest = false) :
    BeginsSimply (e.text.toList ++ rest) := by
  have noKeyword : ∀ name ∈ openingWords ++ closingWords,
      behindKeyword? name (e.text.toList ++ rest) = none := by
    intro name listed
    refine behindKeyword?_text readable name ?_ ?_ ?_ ends <;>
    · revert listed
      revert name
      decide
  rcases readable.plain_asRead.exists_chars_eq_cons with ⟨c, tail, split, begins, _⟩
  rw [← text_eq_chars] at split
  refine ⟨shows_text readable, ?_, noKeyword, ?_⟩
  · rw [split]
    rintro first ⟨⟩ listed
    simp only [outerMarks, List.mem_cons, List.not_mem_nil, or_false] at listed
    rcases listed with rfl | rfl | rfl | rfl | rfl <;> revert begins <;> decide
  · rw [split]
    exact List.cons_ne_nil _ _

theorem beginsSimply_varText {var : VarDecl} (printable : var.isPrintableLocal fits = true) :
    BeginsSimply (var.text.toList ++ rest) := by
  rcases var with ⟨id, qualifier, ty, name, init⟩
  simp only [VarDecl.isPrintableLocal, VarDecl.isPrintable, Bool.and_eq_true, Bool.or_eq_true,
    beq_iff_eq, Option.isNone_iff_eq_none] at printable
  rcases printable with ⟨⟨⟨typed, named⟩, fit⟩, isLocal⟩
  rw [toList_varText, List.append_assoc]
  rcases isLocal with rfl | rfl
  · rw [Option.map_none, Option.getD_none, List.nil_append, List.append_assoc]
    exact beginsSimply_word (Ty.isWord_text typed)
      (not_mem_of_isReserved (Ty.isReserved_text typed)) rfl
  · have begins : BeginsSimply ("const".toList ++ ' ' :: (ty.text.toList ++
        ' ' :: (name.toList ++ initChars init) ++ rest)) :=
      beginsSimply_word rfl (by decide) rfl
    exact begins

/-- A mark that never begins an expression does not begin this one. -/
theorem BeginsSimply.isPrefixOf_eq_false {mark : Char} (begins : BeginsSimply chars)
    (listed : mark ∈ outerMarks) : [mark].isPrefixOf chars = false := by
  cases chars with
  | nil => exact absurd rfl begins.some?
  | cons c rest =>
      have differ : mark ≠ c := by
        rintro rfl
        exact begins.noMark mark rfl listed
      rw [List.isPrefixOf_cons_cons, beq_false_of_ne differ, Bool.false_and]

/-- The text begins at once, and unlike what stands behind statements. -/
structure BeginsStmt (chars : List Char) : Prop where
  shows : Shows chars chars
  notClosing : chars.head? ≠ some '\x7d'
  noLabel : ∀ name ∈ closingWords, behindKeyword? name chars = none
  some? : chars ≠ []

theorem BeginsSimply.beginsStmt (begins : BeginsSimply chars) : BeginsStmt chars where
  shows := begins.shows
  notClosing := fun same => begins.noMark _ same (by decide)
  noLabel := fun name listed => begins.noKeyword name (List.mem_append_right _ listed)
  some? := begins.some?

theorem beginsStmt_cons {c : Char} (notBlank : Text.isTokenBlank c = false) (notSlash : c ≠ '/')
    (notClosing : c ≠ '\x7d') (noWord : isWordStart c = false) : BeginsStmt (c :: rest) where
  shows := shows_cons notBlank notSlash
  notClosing := fun same => notClosing (Option.some.inj same)
  noLabel := by
    intro name listed
    refine behindKeyword?_eq_none_of_head (isWord_of_mem_reserved ?_) ?_
    · revert listed
      revert name
      decide
    · rintro other ⟨⟩
      exact noWord
  some? := List.cons_ne_nil _ _

theorem beginsStmt_word {name : String} (listed : name ∈ openingWords)
    (ends : goesOn rest = false) : BeginsStmt (name.toList ++ rest) := by
  have noLabel : ∀ other ∈ closingWords, behindKeyword? other (name.toList ++ rest) = none := by
    intro other listed'
    have word : ∀ name ∈ openingWords ++ closingWords, isWord name = true := by decide
    have differ : ∀ name ∈ openingWords, ∀ other ∈ closingWords, name ≠ other := by decide
    exact behindKeyword?_eq_none_of_ne (word other (List.mem_append_right _ listed'))
      (word name (List.mem_append_left _ listed)) (differ name listed other listed') ends
  have begins : ∀ name ∈ openingWords, isWord name = true ∧ name.toList ≠ [] ∧
      name.toList.head? ≠ some '\x7d' := by
    decide
  rcases begins name listed with ⟨word, some?, notClosing⟩
  refine ⟨shows_word word, ?_, noLabel, ?_⟩
  · rwa [List.head?_append_of_ne_nil _ some?]
  · exact List.append_ne_nil_of_left_ne_nil some? _

theorem beginsStmt_chars (readable : FitToRead fits) {s : Stmt}
    (printable : s.isPrintable fits = true) : BeginsStmt (s.chars level ++ rest) := by
  cases s with
  | decl id var =>
      rw [Stmt.chars_decl]
      rw [Stmt.isPrintable] at printable
      exact (beginsSimply_varText printable).beginsStmt
  | expr id e =>
      rw [Stmt.isPrintable] at printable
      rw [Stmt.chars_expr, List.append_assoc]
      exact (beginsSimply_text (readable printable) rfl).beginsStmt
  | block id scope stmts =>
      rw [Stmt.chars_block]
      exact beginsStmt_cons rfl (by decide) (by decide) (by decide)
  | branch id cond whenTrue whenFalse =>
      cases whenFalse with
      | none =>
          rw [Stmt.chars_branch_none, List.append_assoc]
          exact beginsStmt_word (by decide) rfl
      | some s =>
          rw [Stmt.chars_branch_some, List.append_assoc]
          exact beginsStmt_word (by decide) rfl
  | forLoop id init cond step body =>
      rw [Stmt.chars_forLoop, List.append_assoc]
      exact beginsStmt_word (by decide) rfl
  | whileLoop id cond body =>
      rw [Stmt.chars_whileLoop, List.append_assoc]
      exact beginsStmt_word (by decide) rfl
  | switch id selector cases =>
      rw [Stmt.chars_switch, List.append_assoc]
      exact beginsStmt_word (by decide) rfl
  | ret id value =>
      rw [Stmt.chars_ret, List.append_assoc, List.append_assoc]
      exact beginsStmt_word (by decide) (goesOn_headerPart value rfl)
  | breakOut id =>
      rw [Stmt.chars_breakOut, List.append_assoc]
      exact beginsStmt_word (by decide) rfl
  | continueLoop id =>
      rw [Stmt.chars_continueLoop, List.append_assoc]
      exact beginsStmt_word (by decide) rfl
  | discard id =>
      rw [Stmt.chars_discard, List.append_assoc]
      exact beginsStmt_word (by decide) rfl
  | empty id =>
      rw [Stmt.chars_empty]
      exact beginsStmt_cons rfl (by decide) (by decide) (by decide)

end Parse
end Whittle
