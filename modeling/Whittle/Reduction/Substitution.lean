import Whittle.Syntax.Target
import Whittle.Syntax.Numbering

namespace Whittle
namespace Reduction

/-!
# Substitution

Names are replaced by expressions in one go: what is put in is not searched for
names again.  An expression that moves into another one is put in parentheses,
so that nothing changes about what binds tighter.
-/

mutual

/-- The expression with every reference to a bound name replaced. -/
def substituted (binding? : String → Option Expr) : Expr → Expr
  | .var id name => (binding? name).getD (.var id name)
  | .unary id op operand => .unary id op (substituted binding? operand)
  | .binary id op lhs rhs =>
      .binary id op (substituted binding? lhs) (substituted binding? rhs)
  | .assign id op target value =>
      .assign id op (substituted binding? target) (substituted binding? value)
  | .ternary id cond whenTrue whenFalse =>
      .ternary id (substituted binding? cond) (substituted binding? whenTrue)
        (substituted binding? whenFalse)
  | .call id callee args => .call id callee (substitutedList binding? args)
  | .member id base field => .member id (substituted binding? base) field
  | .index id base position =>
      .index id (substituted binding? base) (substituted binding? position)
  | .paren id inner => .paren id (substituted binding? inner)
  | e => e

def substitutedList (binding? : String → Option Expr) : List Expr → List Expr
  | [] => []
  | e :: rest => substituted binding? e :: substitutedList binding? rest

end

/-- The expression in parentheses with a new identifier, and the shader that
will not hand it out again. -/
def parenthesized (shader : Shader) (e : Expr) : Expr × Shader :=
  let (id, drawn) := shader.freshId
  (.paren id e, drawn)

def parenthesizedList (shader : Shader) : List Expr → List Expr × Shader
  | [] => ([], shader)
  | e :: rest =>
      let (first, drawn) := parenthesized shader e
      let (others, drawn) := parenthesizedList drawn rest
      (first :: others, drawn)

end Reduction
end Whittle
