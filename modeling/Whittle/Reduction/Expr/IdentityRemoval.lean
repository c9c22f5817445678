import Whittle.Print.Expr
import Whittle.Reduction.Expr.OperandPromotion

namespace Whittle
namespace Reduction

/-!
# Removing identities

Some operations do nothing to an operand: adding zero, multiplying by one, a
conjunction with truth, a double negation, a choice on a literal, and
parentheses around what needs none.  Such an expression can be replaced by the
operand, in injected code as elsewhere.
-/

/-- Whether an expression is the literal zero, of either sign. -/
def isZeroLiteral (e : Expr) : Bool :=
  match e.bare with
  | .int _ value => value == 0
  | .float _ value => value.isZero
  | _ => false

def isOneLiteral (e : Expr) : Bool :=
  match e.bare with
  | .int _ value => value == 1
  | .float _ value => value == .one
  | _ => false

/-- Whether an expression is the given truth value. -/
def isBoolLiteral (expected : Bool) (e : Expr) : Bool :=
  match e.bare with
  | .bool _ value => value == expected
  | _ => false

/-- Whether an expression binds so tightly that parentheses around it are
idle. -/
def isPrimary : Expr → Bool
  | .unary .. | .binary .. | .assign .. | .ternary .. => false
  | _ => true

/-- The operand that a binary operation leaves as it is. -/
def neutralized? (op : BinaryOp) (lhs rhs : Expr) : Option Expr :=
  match op with
  | .add => if isZeroLiteral rhs then some lhs else if isZeroLiteral lhs then some rhs else none
  | .sub => if isZeroLiteral rhs then some lhs else none
  | .mul => if isOneLiteral rhs then some lhs else if isOneLiteral lhs then some rhs else none
  | .div => if isOneLiteral rhs then some lhs else none
  | .and =>
      if isBoolLiteral true rhs then some lhs
      else if isBoolLiteral true lhs then some rhs
      else none
  | .or =>
      if isBoolLiteral false rhs then some lhs
      else if isBoolLiteral false lhs then some rhs
      else none
  | _ => none

/-- The operand of a negation that is negated once more, seen through
parentheses. -/
def doublyNegated? (op : UnaryOp) (operand : Expr) : Option Expr :=
  match operand.bare with
  | .unary _ inner kept => if !op.writesOperand && inner == op then some kept else none
  | _ => none

/-- The part that an expression leaves as it is. -/
def identityPart? : Expr → Option Expr
  | .binary _ op lhs rhs => neutralized? op lhs rhs
  | .unary _ op operand => doublyNegated? op operand
  | .ternary _ cond whenTrue whenFalse =>
      if isBoolLiteral true cond then some whenTrue
      else if isBoolLiteral false cond then some whenFalse
      else none
  | .paren _ inner => if isPrimary inner then some inner else none
  | _ => none

/-- The part that an expression leaves as it is, if the two have one type. -/
def simplified? (types : TypeTable) (e : Expr) : Option Expr :=
  (identityPart? e).filter fun kept => haveSameType types kept e

/-- The replacement of an identity by its operand. -/
structure IdentityRemoval where
  expr : NodeId
  kept : NodeId
  before : String
  after : String
deriving DecidableEq

namespace IdentityRemoval

def ofExpr? (types : TypeTable) (e : Expr) : Option IdentityRemoval :=
  (simplified? types e).map fun kept => ⟨e.id, kept.id, e.text, kept.text⟩

/-- The identities in a shader.  An identity is as idle in the author's code as
in injected code, so there is no search in injected code alone. -/
def find (types : TypeTable) (shader : Shader) : List IdentityRemoval :=
  (rvalues shader).filterMap (ofExpr? types)

/-- Put the operand, with its identifiers, in the place of the expression. -/
def apply (edit : IdentityRemoval) (shader : Shader) : Shader :=
  shader.promoteExpr edit.expr edit.kept

/-- The line that announces the edit, in the words the program had when it was
found. -/
def describe (edit : IdentityRemoval) : String :=
  "simplify '" ++ edit.before ++ "' to '" ++ edit.after ++ "'"

end IdentityRemoval
end Reduction
end Whittle
