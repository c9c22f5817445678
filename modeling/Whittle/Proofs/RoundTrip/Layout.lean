import Mathlib.Data.List.Basic
import Whittle.Print.Stmt

namespace Whittle
namespace Stmt

/-!
# The layout of statements

The text of a statement ends with its line.  Where a statement is a part of
another one, its text is the same on some level, behind a gap that is either a
space or a line break; and in front of an `else` the line goes on.
-/

-- The equations of the writer, one for each form of statement.
attribute [grind =] lines elseLines linesOfList linesOfCases

/-- Whether a body opens on the line of its header. -/
def isBlock : Stmt → Bool
  | .block .. => true
  | _ => false

/-- Whether a second branch opens on the line of its `else`. -/
def followsElse : Stmt → Bool
  | .block .. | .branch .. => true
  | _ => false

/-- The gap in front of a part that stands on the same line or on the next
one. -/
def gapTo (sameLine : Bool) (level : Nat) : List Char :=
  if sameLine then [' '] else '\n' :: (indent level).toList

/-- The level of such a part. -/
def levelOf (sameLine : Bool) (level : Nat) : Nat :=
  if sameLine then level else level + 1

/-- The lines of a part of a statement, with the gap in front. -/
def placed (sameLine : Bool) (level : Nat) (s : Stmt) : String :=
  String.ofList (gapTo sameLine (level + 1)) ++ s.lines (levelOf sameLine level)

theorem lines_whileLoop (level : Nat) (id : NodeId) (cond : Expr) (body : Stmt) :
    lines level (.whileLoop id cond body) =
      "while (" ++ cond.text ++ ")" ++ placed body.isBlock level body := by
  cases body with
  | block id scope stmts =>
      rw [lines, placed, isBlock, gapTo, if_pos rfl, levelOf, if_pos rfl, lines]
      simp [← String.toList_inj]
  | _ =>
      rw [lines]
      · simp [placed, isBlock, gapTo, levelOf]
      · simp

theorem lines_forLoop (level : Nat) (id : NodeId) (init : Option Stmt) (cond step : Option Expr)
    (body : Stmt) :
    lines level (.forLoop id init cond step body) =
      "for (" ++ initText init ++ headerPart cond ++ ";" ++ headerPart step ++ ")" ++
        placed body.isBlock level body := by
  cases body with
  | block id scope stmts =>
      rw [lines, placed, isBlock, gapTo, if_pos rfl, levelOf, if_pos rfl, lines]
      simp [← String.toList_inj]
  | _ =>
      rw [lines]
      · simp [placed, isBlock, gapTo, levelOf]
      · simp

theorem lines_branch_none (level : Nat) (id : NodeId) (cond : Expr) (whenTrue : Stmt) :
    lines level (.branch id cond whenTrue none) =
      "if (" ++ cond.text ++ ")" ++ placed whenTrue.isBlock level whenTrue := by
  cases whenTrue with
  | block id scope stmts =>
      rw [lines, placed, isBlock, gapTo, if_pos rfl, levelOf, if_pos rfl, lines, elseLines]
      simp [← String.toList_inj]
  | _ =>
      rw [lines, elseLines]
      · simp [placed, isBlock, gapTo, levelOf]
      · simp

theorem elseLines_some (level : Nat) (s : Stmt) :
    elseLines level (some s) = placed s.followsElse level s := by
  cases s with
  | block id scope stmts =>
      rw [elseLines, placed, followsElse, gapTo, if_pos rfl, levelOf, if_pos rfl, lines]
      simp [← String.toList_inj]
  | branch id cond whenTrue whenFalse =>
      rw [elseLines, placed, followsElse, gapTo, if_pos rfl, levelOf, if_pos rfl]
  | _ =>
      rw [elseLines]
      · simp [placed, followsElse, gapTo, levelOf]
      · simp
      · simp

def EndsLine (text : String) : Prop :=
  text.toList.getLast? = some '\n'

theorem endsLine_append (front : String) {back : String} (ends : EndsLine back) :
    EndsLine (front ++ back) := by
  rw [EndsLine, String.toList_append, List.getLast?_append, show back.toList.getLast? = _ from ends]
  rfl

theorem endsLine_lines (level : Nat) (s : Stmt) : EndsLine (s.lines level) := by
  cases s with
  | decl id var =>
      rw [lines]
      exact endsLine_append _ rfl
  | expr id e =>
      rw [lines]
      exact endsLine_append _ rfl
  | block id scope stmts =>
      rw [lines]
      exact endsLine_append _ rfl
  | branch id cond whenTrue whenFalse =>
      cases whenFalse with
      | none =>
          rw [lines_branch_none]
          exact endsLine_append _ (endsLine_append _ (endsLine_lines _ whenTrue))
      | some s =>
          have ends := endsLine_append (String.ofList (gapTo s.followsElse (level + 1)))
            (endsLine_lines (levelOf s.followsElse level) s)
          cases whenTrue with
          | block id scope stmts =>
              rw [lines, elseLines_some]
              exact endsLine_append _ ends
          | _ =>
              rw [lines, elseLines_some]
              · exact endsLine_append _ ends
              · simp
  | forLoop id init cond step body =>
      rw [lines_forLoop]
      exact endsLine_append _ (endsLine_append _ (endsLine_lines _ body))
  | whileLoop id cond body =>
      rw [lines_whileLoop]
      exact endsLine_append _ (endsLine_append _ (endsLine_lines _ body))
  | switch id selector cases =>
      rw [lines]
      exact endsLine_append _ rfl
  | ret id value =>
      cases value with
      | none =>
          rw [lines]
          rfl
      | some value =>
          rw [lines]
          exact endsLine_append _ rfl
  | breakOut | continueLoop | discard | empty =>
      rw [lines]
      rfl

/-- The characters of a statement without the line break at the end. -/
def chars (level : Nat) (s : Stmt) : List Char :=
  (s.lines level).toList.dropLast

theorem toList_lines (level : Nat) (s : Stmt) :
    (s.lines level).toList = s.chars level ++ ['\n'] :=
  (List.dropLast_append_getLast? _ (endsLine_lines level s)).symm

theorem chars_eq_of_toList_lines {level : Nat} {s : Stmt} {front : List Char}
    (split : (s.lines level).toList = front ++ ['\n']) : s.chars level = front := by
  rw [chars, split, List.dropLast_concat]

/-- In front of an `else` the line of the first branch goes on, or the next one
begins. -/
theorem lines_branch_some (level : Nat) (id : NodeId) (cond : Expr) (whenTrue whenFalse : Stmt) :
    lines level (.branch id cond whenTrue (some whenFalse)) =
      "if (" ++ cond.text ++ ")" ++ String.ofList (gapTo whenTrue.isBlock (level + 1) ++
          whenTrue.chars (levelOf whenTrue.isBlock level) ++ gapTo whenTrue.isBlock level) ++
        "else" ++ placed whenFalse.followsElse level whenFalse := by
  cases whenTrue with
  | block id scope stmts =>
      have front : chars level (.block id scope stmts) = "\x7b\n".toList ++
          (linesOfList (level + 1) stmts).toList ++ (indent level).toList ++ ['\x7d'] := by
        refine chars_eq_of_toList_lines ?_
        rw [lines]
        simp
      rw [lines, elseLines_some, isBlock, gapTo, if_pos rfl, levelOf, if_pos rfl, gapTo, if_pos rfl,
        front]
      simp [← String.toList_inj]
  | _ =>
      have split := toList_lines (level + 1)
      rw [lines, elseLines_some]
      · simp [← String.toList_inj, split, isBlock, gapTo, levelOf]
      · simp

section

variable {level : Nat} {id scope : NodeId}

theorem chars_decl (var : VarDecl) : chars level (.decl id var) = var.text.toList := by
  refine chars_eq_of_toList_lines ?_
  rw [lines, String.toList_append]
  rfl

theorem chars_expr (e : Expr) : chars level (.expr id e) = e.text.toList ++ [';'] := by
  refine chars_eq_of_toList_lines ?_
  rw [lines, String.toList_append]
  simp

theorem chars_block (stmts : List Stmt) :
    chars level (.block id scope stmts) =
      '\x7b' :: '\n' :: ((linesOfList (level + 1) stmts).toList ++
        ((indent level).toList ++ ['\x7d'])) := by
  refine chars_eq_of_toList_lines ?_
  rw [lines]
  simp

theorem toList_placed (sameLine : Bool) (s : Stmt) :
    (placed sameLine level s).toList =
      gapTo sameLine (level + 1) ++ s.chars (levelOf sameLine level) ++ ['\n'] := by
  rw [placed, String.toList_append, String.toList_ofList, toList_lines, List.append_assoc]

theorem chars_branch_none (cond : Expr) (whenTrue : Stmt) :
    chars level (.branch id cond whenTrue none) =
      "if".toList ++ ' ' :: '(' :: (cond.text.toList ++ ')' :: (gapTo whenTrue.isBlock (level + 1) ++
        whenTrue.chars (levelOf whenTrue.isBlock level))) := by
  refine chars_eq_of_toList_lines ?_
  rw [lines_branch_none, String.toList_append, toList_placed]
  simp

theorem chars_branch_some (cond : Expr) (whenTrue whenFalse : Stmt) :
    chars level (.branch id cond whenTrue (some whenFalse)) =
      "if".toList ++ ' ' :: '(' :: (cond.text.toList ++ ')' :: (gapTo whenTrue.isBlock (level + 1) ++
        (whenTrue.chars (levelOf whenTrue.isBlock level) ++ (gapTo whenTrue.isBlock level ++
          ("else".toList ++ (gapTo whenFalse.followsElse (level + 1) ++
            whenFalse.chars (levelOf whenFalse.followsElse level))))))) := by
  refine chars_eq_of_toList_lines ?_
  rw [lines_branch_some, String.toList_append, toList_placed]
  simp

theorem chars_forLoop (init : Option Stmt) (cond step : Option Expr) (body : Stmt) :
    chars level (.forLoop id init cond step body) =
      "for".toList ++ ' ' :: '(' :: ((initText init).toList ++ ((headerPart cond).toList ++
        ';' :: ((headerPart step).toList ++ ')' :: (gapTo body.isBlock (level + 1) ++
          body.chars (levelOf body.isBlock level))))) := by
  refine chars_eq_of_toList_lines ?_
  rw [lines_forLoop, String.toList_append, toList_placed]
  simp

theorem chars_whileLoop (cond : Expr) (body : Stmt) :
    chars level (.whileLoop id cond body) =
      "while".toList ++ ' ' :: '(' :: (cond.text.toList ++ ')' :: (gapTo body.isBlock (level + 1) ++
        body.chars (levelOf body.isBlock level))) := by
  refine chars_eq_of_toList_lines ?_
  rw [lines_whileLoop, String.toList_append, toList_placed]
  simp

theorem chars_switch (selector : Expr) (cases : List Case) :
    chars level (.switch id selector cases) =
      "switch".toList ++ ' ' :: '(' :: (selector.text.toList ++ ')' :: ' ' :: '\x7b' :: '\n' ::
        ((linesOfCases (level + 1) cases).toList ++ ((indent level).toList ++ ['\x7d']))) := by
  refine chars_eq_of_toList_lines ?_
  rw [lines]
  simp

theorem chars_ret (value : Option Expr) :
    chars level (.ret id value) = "return".toList ++ ((headerPart value).toList ++ [';']) := by
  refine chars_eq_of_toList_lines ?_
  cases value with
  | none =>
      rw [lines]
      rfl
  | some value =>
      rw [lines, headerPart]
      simp

theorem chars_breakOut : chars level (.breakOut id) = "break".toList ++ [';'] := by
  refine chars_eq_of_toList_lines ?_
  rw [lines]
  rfl

theorem chars_continueLoop : chars level (.continueLoop id) = "continue".toList ++ [';'] := by
  refine chars_eq_of_toList_lines ?_
  rw [lines]
  rfl

theorem chars_discard : chars level (.discard id) = "discard".toList ++ [';'] := by
  refine chars_eq_of_toList_lines ?_
  rw [lines]
  rfl

theorem chars_empty : chars level (.empty id) = [';'] := by
  refine chars_eq_of_toList_lines ?_
  rw [lines]
  rfl

end

end Stmt
end Whittle
