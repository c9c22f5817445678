import Whittle.Number.Text
import Whittle.Syntax.Expr

namespace Whittle

/-!
# Writing expressions

An expression is written with the fewest parentheses: a part gets them only
where it binds looser than its place demands.  The left operand of a binary
operator may bind as loosely as the operator itself and the right one must bind
tighter, because operators of one strength are grouped from the left.

Negative literals do not exist in programs; one that a tree holds is written
with a minus sign and treated like a negation.
-/

namespace Expr

/-- How tightly the outermost form of an expression binds. -/
def precedence : Expr → Nat
  | .int _ value => if value < 0 then Precedence.prefixed else Precedence.primary
  | .float _ value => if value.isNegative then Precedence.prefixed else Precedence.primary
  | .bool .. | .var .. | .paren .. => Precedence.primary
  | .unary _ op _ => if op.followsOperand then Precedence.suffixed else Precedence.prefixed
  | .binary _ op _ _ => op.precedence
  | .assign .. => Precedence.assignment
  | .ternary .. => Precedence.choice
  | .call .. | .member .. | .index .. => Precedence.suffixed

/-- The text of an expression where at least the strength `least` is needed,
from its text without parentheses. -/
def enclosed (least : Nat) (e : Expr) (bareText : String) : String :=
  if e.precedence < least then "(" ++ bareText ++ ")" else bareText

/-- A prefix operator in front of its operand.  Two minus signs must not meet:
they would be read as a decrement. -/
def prefixedText (op : UnaryOp) (operandText : String) : String :=
  if op.symbol.toList.getLast? == some '-' && operandText.toList.head? == some '-' then
    op.symbol ++ "(" ++ operandText ++ ")"
  else op.symbol ++ operandText

mutual

/-- The text of an expression without parentheses of its own. -/
def bareText : Expr → String
  | .int _ value => toString value
  | .float _ value => value.text
  | .bool _ value => if value then "true" else "false"
  | .var _ name => name
  | .unary _ op operand =>
      if op.followsOperand then operand.enclosed Precedence.suffixed operand.bareText ++ op.symbol
      else prefixedText op (operand.enclosed Precedence.prefixed operand.bareText)
  | .binary _ op lhs rhs =>
      lhs.enclosed op.precedence lhs.bareText ++ " " ++ op.symbol ++ " " ++
        rhs.enclosed (op.precedence + 1) rhs.bareText
  | .assign _ op target value =>
      target.enclosed Precedence.prefixed target.bareText ++ " " ++ op.symbol ++ " " ++
        value.enclosed Precedence.assignment value.bareText
  | .ternary _ cond whenTrue whenFalse =>
      cond.enclosed Precedence.disjunction cond.bareText ++ " ? " ++
        whenTrue.enclosed Precedence.assignment whenTrue.bareText ++ " : " ++
        whenFalse.enclosed Precedence.choice whenFalse.bareText
  | .call _ callee args => callee ++ "(" ++ argsText args ++ ")"
  | .member _ base field => base.enclosed Precedence.suffixed base.bareText ++ "." ++ field
  | .index _ base position =>
      base.enclosed Precedence.suffixed base.bareText ++ "[" ++
        position.enclosed Precedence.assignment position.bareText ++ "]"
  | .paren _ inner => "(" ++ inner.enclosed Precedence.assignment inner.bareText ++ ")"

/-- The arguments of a call, with a comma and a space between two of them. -/
def argsText : List Expr → String
  | [] => ""
  | [e] => e.enclosed Precedence.assignment e.bareText
  | e :: next :: rest =>
      e.enclosed Precedence.assignment e.bareText ++ ", " ++ argsText (next :: rest)

end

def text (e : Expr) : String :=
  e.enclosed Precedence.assignment e.bareText

end Expr
end Whittle
