import Whittle.Syntax.Stmt

namespace Whittle
namespace Reduction

/-!
# Jumps that leave a statement

A `break` leaves the nearest loop or switch and a `continue` goes back to the
nearest loop.  Those that belong to a loop or switch within a statement stay in
it; what is counted here are the others, which leave the statement.
-/

/-- How many jumps of either kind leave a piece of program. -/
structure Jumps where
  breaks : Nat
  continues : Nat
deriving DecidableEq

namespace Jumps

/-- No jump leaves. -/
def none : Jumps := ⟨0, 0⟩

/-- The jumps of two pieces of program. -/
def add (first second : Jumps) : Jumps :=
  ⟨first.breaks + second.breaks, first.continues + second.continues⟩

/-- Whether a loop with these jumps in its body could end or start over early. -/
def escape (jumps : Jumps) : Bool :=
  jumps.breaks != 0 || jumps.continues != 0

mutual

/-- The jumps that leave a statement.  None leaves a loop, and no `break` leaves
a switch. -/
def ofStmt : Stmt → Jumps
  | .breakOut _ => ⟨1, 0⟩
  | .continueLoop _ => ⟨0, 1⟩
  | .block _ _ stmts => ofStmts stmts
  | .branch _ _ whenTrue whenFalse => (ofStmt whenTrue).add (ofOption whenFalse)
  | .switch _ _ cases => ⟨0, (ofCases cases).continues⟩
  | _ => none

def ofStmts : List Stmt → Jumps
  | [] => none
  | s :: rest => (ofStmt s).add (ofStmts rest)

def ofOption : Option Stmt → Jumps
  | .none => none
  | .some s => ofStmt s

def ofCases : List Case → Jumps
  | [] => none
  | .mk _ _ body :: rest => (ofStmts body).add (ofCases rest)

end

end Jumps
end Reduction
end Whittle
