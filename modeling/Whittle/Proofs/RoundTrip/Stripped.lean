import Whittle.Proofs.RoundTrip.Shader
import Whittle.Proofs.Syntax.Mapping

namespace Whittle

/-!
# Statements of one text

A text does not say which identifiers the nodes of a statement have, and not whether a pair
of parentheses is a node of its own.  It does say everything else: two statements that can
be written and have one text differ in nothing but identifiers and parentheses.
-/

mutual

/-- The expression without its identifiers and its parentheses. -/
def Expr.stripped : Expr → Expr
  | .int _ value => .int .unnumbered value
  | .float _ value => .float .unnumbered value
  | .bool _ value => .bool .unnumbered value
  | .var _ name => .var .unnumbered name
  | .unary _ op operand => .unary .unnumbered op operand.stripped
  | .binary _ op lhs rhs => .binary .unnumbered op lhs.stripped rhs.stripped
  | .assign _ op target value => .assign .unnumbered op target.stripped value.stripped
  | .ternary _ cond whenTrue whenFalse =>
      .ternary .unnumbered cond.stripped whenTrue.stripped whenFalse.stripped
  | .call _ callee args => .call .unnumbered callee (Expr.strippedList args)
  | .member _ base field => .member .unnumbered base.stripped field
  | .index _ base position => .index .unnumbered base.stripped position.stripped
  | .paren _ inner => inner.stripped

def Expr.strippedList : List Expr → List Expr
  | [] => []
  | e :: rest => e.stripped :: Expr.strippedList rest

end

/-- The variable without identifiers and parentheses. -/
def VarDecl.stripped (var : VarDecl) : VarDecl :=
  { var with id := .unnumbered, init := var.init.map Expr.stripped }

mutual

/-- The statement without its identifiers and parentheses. -/
def Stmt.stripped : Stmt → Stmt
  | .decl _ var => .decl .unnumbered var.stripped
  | .expr _ e => .expr .unnumbered e.stripped
  | .block _ _ stmts => .block .unnumbered .unnumbered (Stmt.strippedList stmts)
  | .branch _ cond whenTrue whenFalse =>
      .branch .unnumbered cond.stripped whenTrue.stripped (Stmt.strippedOption whenFalse)
  | .forLoop _ init cond step body =>
      .forLoop .unnumbered (Stmt.strippedOption init) (cond.map Expr.stripped)
        (step.map Expr.stripped) body.stripped
  | .whileLoop _ cond body => .whileLoop .unnumbered cond.stripped body.stripped
  | .switch _ selector cases => .switch .unnumbered selector.stripped (Stmt.strippedCases cases)
  | .ret _ value => .ret .unnumbered (value.map Expr.stripped)
  | .breakOut _ => .breakOut .unnumbered
  | .continueLoop _ => .continueLoop .unnumbered
  | .discard _ => .discard .unnumbered
  | .empty _ => .empty .unnumbered

def Stmt.strippedList : List Stmt → List Stmt
  | [] => []
  | s :: rest => s.stripped :: Stmt.strippedList rest

def Stmt.strippedOption : Option Stmt → Option Stmt
  | none => none
  | some s => some s.stripped

def Stmt.strippedCases : List Case → List Case
  | [] => []
  | .mk _ label body :: rest =>
      .mk .unnumbered label (Stmt.strippedList body) :: Stmt.strippedCases rest

end

namespace Expr

mutual

/-- Added parentheses are taken away again. -/
theorem ParensAdded.stripped_eq {e e' : Expr} (added : e.ParensAdded e') :
    e'.stripped = e.stripped := by
  cases added with
  | int | float | bool | var => rfl
  | unary inner | member inner => rw [stripped, stripped, inner.stripped_eq]
  | binary left right => rw [stripped, stripped, left.stripped_eq, right.stripped_eq]
  | assign written read => rw [stripped, stripped, written.stripped_eq, read.stripped_eq]
  | ternary tested first second =>
      rw [stripped, stripped, tested.stripped_eq, first.stripped_eq, second.stripped_eq]
  | call passed => rw [stripped, stripped, strippedList_of_parensAdded passed]
  | index inner place => rw [stripped, stripped, inner.stripped_eq, place.stripped_eq]
  | paren enclosed => rw [stripped, stripped, enclosed.stripped_eq]
  | added enclosed => rw [stripped, enclosed.stripped_eq]

theorem strippedList_of_parensAdded {es es' : List Expr}
    (added : List.Forall₂ ParensAdded es es') : strippedList es' = strippedList es := by
  cases added with
  | nil => rfl
  | cons first behind =>
      rw [strippedList, strippedList, first.stripped_eq, strippedList_of_parensAdded behind]

end

/-- What an expression that can be written is read as differs in parentheses from it. -/
theorem stripped_of_readAs {e e' : Expr} (isRead : Parse.ReadAs isPrintable e e') :
    e'.stripped = e.stripped := by
  rw [isRead.2]
  exact (parensAdded_asRead (isInfinity_of_isPrintable isRead.1)).stripped_eq

end Expr

/-- Related expressions differ in identifiers and parentheses. -/
def KeepsStripped (R : Expr → Expr → Prop) : Prop :=
  ∀ ⦃e e' : Expr⦄, R e e' → e'.stripped = e.stripped

section

variable {R : Expr → Expr → Prop} (keeps : KeepsStripped R)

include keeps in
theorem KeepsStripped.map_option {e? e?' : Option Expr} (related : Option.Rel R e? e?') :
    e?'.map Expr.stripped = e?.map Expr.stripped := by
  cases related with
  | none => rfl
  | some related => exact congrArg some (keeps related)

theorem VarDecl.Alike.stripped_eq (keeps : KeepsStripped R) {var var' : VarDecl}
    (alike : var.Alike R var') : var'.stripped = var.stripped := by
  rw [VarDecl.stripped, VarDecl.stripped, alike.qualifier, alike.ty, alike.name,
    keeps.map_option alike.init]

mutual

/-- Statements of one shape are the same without identifiers and parentheses, if their
expressions are. -/
theorem Stmt.Alike.stripped_eq (keeps : KeepsStripped R) {s s' : Stmt} (alike : s.Alike R s') :
    s'.stripped = s.stripped := by
  cases alike with
  | decl declared => rw [Stmt.stripped, Stmt.stripped, declared.stripped_eq keeps]
  | expr evaluated => rw [Stmt.stripped, Stmt.stripped, keeps evaluated]
  | block within => rw [Stmt.stripped, Stmt.stripped, Stmt.strippedList_of_alike keeps within]
  | branch tested first second =>
      rw [Stmt.stripped, Stmt.stripped, keeps tested, first.stripped_eq keeps]
      cases second with
      | none => rfl
      | some second => rw [Stmt.strippedOption, Stmt.strippedOption, second.stripped_eq keeps]
  | forLoop before tested behind within =>
      rw [Stmt.stripped, Stmt.stripped, keeps.map_option tested, keeps.map_option behind,
        within.stripped_eq keeps]
      cases before with
      | none => rfl
      | some before => rw [Stmt.strippedOption, Stmt.strippedOption, before.stripped_eq keeps]
  | whileLoop tested within =>
      rw [Stmt.stripped, Stmt.stripped, keeps tested, within.stripped_eq keeps]
  | switch selected within =>
      rw [Stmt.stripped, Stmt.stripped, keeps selected, Stmt.strippedCases_of_alike keeps within]
  | ret returned => rw [Stmt.stripped, Stmt.stripped, keeps.map_option returned]
  | breakOut | continueLoop | discard | empty => rfl

theorem Stmt.strippedList_of_alike (keeps : KeepsStripped R) {stmts stmts' : List Stmt}
    (alike : List.Forall₂ (Stmt.Alike R) stmts stmts') :
    strippedList stmts' = strippedList stmts := by
  cases alike with
  | nil => rfl
  | cons first behind =>
      rw [strippedList, strippedList, first.stripped_eq keeps, strippedList_of_alike keeps behind]

theorem Stmt.strippedCases_of_alike (keeps : KeepsStripped R) {cases cases' : List Case}
    (alike : List.Forall₂ (Case.Alike R) cases cases') :
    strippedCases cases' = strippedCases cases := by
  cases alike with
  | nil => rfl
  | cons first behind =>
      cases first with
      | mk within =>
          rw [strippedCases, strippedCases, strippedList_of_alike keeps within,
            strippedCases_of_alike keeps behind]

end

end

namespace Stmt

variable {s s' : Stmt}

/-- A statement that can be written is read from its text. -/
theorem exists_statement_text (printable : s.isPrintable Expr.isPrintable = true) {fuel : Nat}
    (count : s.text.toList.length ≤ fuel) :
    ∃ read rest, Parse.statement fuel s.text.toList = .ok (read, rest) ∧
      s.Alike (Parse.ReadAs Expr.isPrintable) read := by
  have lines := toList_lines 0 s
  have begins : Parse.BeginsStmt (s.chars 0 ++ ['\n']) :=
    Parse.beginsStmt_chars Expr.readable_of_isPrintable printable
  have short : (s.chars 0).length < fuel := by
    rw [text, lines, List.length_append] at count
    exact count
  have shownEnd : Parse.Shows ['\n'] [] := Parse.shows_newline_iff.mpr Parse.shows_nil
  rcases Parse.statement_readsBelow Expr.readable_of_isPrintable fuel printable short
    begins.shows shownEnd fun _ => rfl with ⟨read, rest, isRead, alike, _⟩
  rw [text, lines]
  exact ⟨read, rest, isRead, alike⟩

variable (printable : s.isPrintable Expr.isPrintable = true)
  (printable' : s'.isPrintable Expr.isPrintable = true) (same : s.text = s'.text)
include printable printable' same

/-- Statements of one text are read as one statement. -/
theorem exists_alike_of_text_eq : ∃ read,
    s.Alike (Parse.ReadAs Expr.isPrintable) read ∧ s'.Alike (Parse.ReadAs Expr.isPrintable) read := by
  rcases exists_statement_text printable (Nat.le_refl _) with ⟨read, rest, isRead, alike⟩
  rcases exists_statement_text printable' (Nat.le_refl _) with ⟨read', rest', isRead', alike'⟩
  rw [← same, isRead] at isRead'
  cases isRead'
  exact ⟨read, alike, alike'⟩

/-- Statements of one text differ in identifiers and parentheses only. -/
theorem stripped_eq_of_text_eq : s.stripped = s'.stripped := by
  rcases exists_alike_of_text_eq printable printable' same with ⟨read, alike, alike'⟩
  have keeps : KeepsStripped (Parse.ReadAs Expr.isPrintable) := fun _ _ => Expr.stripped_of_readAs
  exact (alike.stripped_eq keeps).symm.trans (alike'.stripped_eq keeps)

end Stmt
end Whittle
