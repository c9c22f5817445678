import Whittle.Print.Expr
import Whittle.Syntax.Stmt

namespace Whittle

/-!
# Writing statements

A statement takes lines of its own, four spaces further in for every level.  A
block that is a body opens on the line of its header; any other body stands on
the next line, one level further in.  A chain of conditions stays on one level.
-/

/-- The space in front of a line. -/
def indent (level : Nat) : String :=
  String.ofList (List.replicate (4 * level) ' ')

def VarDecl.text (var : VarDecl) : String :=
  (match var.qualifier with
    | some qualifier => qualifier.keyword ++ " "
    | none => "") ++
  var.ty.text ++ " " ++ var.name ++
  (match var.init with
    | some init => " = " ++ init.text
    | none => "") ++ ";"

/-- The text of a label with its colon. -/
def Label.text : Label → String
  | .value number => "case " ++ toString number ++ ":"
  | .otherwise => "default:"

namespace Stmt

/-- The first part of the header of a `for` loop, up to its first semicolon.
Statements that cannot stand there are left out. -/
def initText : Option Stmt → String
  | some (.decl _ var) => var.text
  | some (.expr _ e) => e.text ++ ";"
  | _ => ";"

/-- A part of the header of a `for` loop behind a space, if there is one. -/
def headerPart : Option Expr → String
  | some e => " " ++ e.text
  | none => ""

mutual

/-- The lines of a statement, without the space in front of the first one. -/
def lines (level : Nat) : Stmt → String
  | .decl _ var => var.text ++ "\n"
  | .expr _ e => e.text ++ ";\n"
  | .block _ _ stmts => "\x7b\n" ++ linesOfList (level + 1) stmts ++ indent level ++ "\x7d\n"
  | .branch _ cond whenTrue whenFalse =>
      "if (" ++ cond.text ++ ")" ++
        (match whenTrue, whenFalse with
          | .block _ _ stmts, none =>
              " \x7b\n" ++ linesOfList (level + 1) stmts ++ indent level ++ "\x7d\n"
          | .block _ _ stmts, some _ =>
              " \x7b\n" ++ linesOfList (level + 1) stmts ++ indent level ++ "\x7d else"
          | s, none => "\n" ++ indent (level + 1) ++ s.lines (level + 1)
          | s, some _ =>
              "\n" ++ indent (level + 1) ++ s.lines (level + 1) ++ indent level ++ "else") ++
        elseLines level whenFalse
  | .forLoop _ init cond step body =>
      "for (" ++ initText init ++ headerPart cond ++ ";" ++ headerPart step ++ ")" ++
        (match body with
          | .block _ _ stmts =>
              " \x7b\n" ++ linesOfList (level + 1) stmts ++ indent level ++ "\x7d\n"
          | s => "\n" ++ indent (level + 1) ++ s.lines (level + 1))
  | .whileLoop _ cond body =>
      "while (" ++ cond.text ++ ")" ++
        (match body with
          | .block _ _ stmts =>
              " \x7b\n" ++ linesOfList (level + 1) stmts ++ indent level ++ "\x7d\n"
          | s => "\n" ++ indent (level + 1) ++ s.lines (level + 1))
  | .switch _ selector cases =>
      "switch (" ++ selector.text ++ ") \x7b\n" ++ linesOfCases (level + 1) cases ++
        indent level ++ "\x7d\n"
  | .ret _ none => "return;\n"
  | .ret _ (some value) => "return " ++ value.text ++ ";\n"
  | .breakOut _ => "break;\n"
  | .continueLoop _ => "continue;\n"
  | .discard _ => "discard;\n"
  | .empty _ => ";\n"

/-- What follows the word `else`, if there is a second branch. -/
def elseLines (level : Nat) : Option Stmt → String
  | none => ""
  | some (.branch id cond whenTrue whenFalse) =>
      " " ++ lines level (.branch id cond whenTrue whenFalse)
  | some (.block _ _ stmts) =>
      " \x7b\n" ++ linesOfList (level + 1) stmts ++ indent level ++ "\x7d\n"
  | some s => "\n" ++ indent (level + 1) ++ s.lines (level + 1)

def linesOfList (level : Nat) : List Stmt → String
  | [] => ""
  | s :: rest => indent level ++ s.lines level ++ linesOfList level rest

def linesOfCases (level : Nat) : List Case → String
  | [] => ""
  | .mk _ label body :: rest =>
      indent level ++ label.text ++ "\n" ++ linesOfList (level + 1) body ++
        linesOfCases level rest

end

def text (s : Stmt) : String :=
  s.lines 0

end Stmt
end Whittle
