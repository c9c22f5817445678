namespace Whittle

/-!
# Operators

Each operator knows its spelling and, where it stands between two operands, how
tightly it binds.  Reading and writing share these tables; a formula that is
written with the fewest parentheses is read back as itself because both sides
ask the same question of the same numbers.
-/

/-- Operators with one operand.  The increments exist in two positions, and
position matters for the value but not for what is written. -/
inductive UnaryOp where
  | negate
  | not
  | preIncrement
  | preDecrement
  | postIncrement
  | postDecrement
deriving DecidableEq

namespace UnaryOp

/-- The spelling of the operator. -/
def symbol : UnaryOp → String
  | .negate => "-"
  | .not => "!"
  | .preIncrement | .postIncrement => "++"
  | .preDecrement | .postDecrement => "--"

/-- Whether the operator stands behind its operand. -/
def followsOperand : UnaryOp → Bool
  | .postIncrement | .postDecrement => true
  | _ => false

def writesOperand : UnaryOp → Bool
  | .negate | .not => false
  | _ => true

end UnaryOp

/-- Operators between two operands that write neither of them. -/
inductive BinaryOp where
  | add
  | sub
  | mul
  | div
  | rem
  | lt
  | gt
  | le
  | ge
  | eq
  | ne
  | and
  | or
  | xor
deriving DecidableEq

namespace BinaryOp

/-- The spelling of the operator. -/
def symbol : BinaryOp → String
  | .add => "+"
  | .sub => "-"
  | .mul => "*"
  | .div => "/"
  | .rem => "%"
  | .lt => "<"
  | .gt => ">"
  | .le => "<="
  | .ge => ">="
  | .eq => "=="
  | .ne => "!="
  | .and => "&&"
  | .or => "||"
  | .xor => "^^"

/-- How tightly the operator binds; a larger number binds tighter. -/
def precedence : BinaryOp → Nat
  | .or => 3
  | .xor => 4
  | .and => 5
  | .eq | .ne => 6
  | .lt | .gt | .le | .ge => 7
  | .add | .sub => 8
  | .mul | .div | .rem => 9

end BinaryOp

/-- Assignments: the plain one, and the four that first combine the old value
with the new one. -/
inductive AssignOp where
  | set
  | add
  | sub
  | mul
  | div
deriving DecidableEq

namespace AssignOp

/-- The spelling of the operator. -/
def symbol : AssignOp → String
  | .set => "="
  | .add => "+="
  | .sub => "-="
  | .mul => "*="
  | .div => "/="

/-- The operator with which a compound assignment combines the two values. -/
def combining? : AssignOp → Option BinaryOp
  | .set => none
  | .add => some .add
  | .sub => some .sub
  | .mul => some .mul
  | .div => some .div

end AssignOp

/-!
## Precedence of the other forms

The forms that are not binary operators fit around them: assignments and
choices bind looser, prefix operators and everything written behind an operand
bind tighter.
-/

namespace Precedence

/-- Assignments bind loosest of all. -/
def assignment : Nat := 1

/-- A choice, `c ? a : b`. -/
def choice : Nat := 2

/-- The loosest binary operator, which is what the condition of a choice may
be. -/
def disjunction : Nat := 3

/-- An operator in front of its operand. -/
def prefixed : Nat := 10

/-- Calls, members, indices and operators behind an operand. -/
def suffixed : Nat := 11

/-- Literals, names and parentheses, which nothing can pull apart. -/
def primary : Nat := 12

end Precedence
end Whittle
