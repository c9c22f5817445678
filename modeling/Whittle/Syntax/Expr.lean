import Whittle.Number.Binary64
import Whittle.Syntax.Operator

namespace Whittle

/-!
# Expressions

An expression is a tree in which every node carries an identifier.  Edits name
their targets by these identifiers, so an edit found on one tree can be applied
to a copy of it.  That identifiers do not repeat is a property of good programs
and not of all trees: a tree may be put together from parts of another, and
every function here has a meaning on it.
-/

abbrev NodeId := Nat

/-- An identifier as messages show it. -/
def NodeId.text (id : NodeId) : String :=
  "#" ++ toString id

/-- The identifier of nodes that are yet to be numbered. -/
def NodeId.unnumbered : NodeId := 0

/-- Expressions.  A call may be of a function of the program, of a builtin
function, or of the constructor of a type; which one it is depends on what is
declared.  A member is a field of a struct or a selection of components of a
vector. -/
inductive Expr where
  | int (id : NodeId) (value : Int)
  | float (id : NodeId) (value : Binary64)
  | bool (id : NodeId) (value : Bool)
  | var (id : NodeId) (name : String)
  | unary (id : NodeId) (op : UnaryOp) (operand : Expr)
  | binary (id : NodeId) (op : BinaryOp) (lhs rhs : Expr)
  | assign (id : NodeId) (op : AssignOp) (target value : Expr)
  | ternary (id : NodeId) (cond whenTrue whenFalse : Expr)
  | call (id : NodeId) (callee : String) (args : List Expr)
  | member (id : NodeId) (base : Expr) (field : String)
  | index (id : NodeId) (base position : Expr)
  | paren (id : NodeId) (inner : Expr)

namespace Expr

def id : Expr → NodeId
  | .int id _ | .float id _ | .bool id _ | .var id _ | .unary id _ _ | .binary id _ _ _
  | .assign id _ _ _ | .ternary id _ _ _ | .call id _ _ | .member id _ _ | .index id _ _
  | .paren id _ => id

/-- The operands, in the order in which they are evaluated. -/
def children : Expr → List Expr
  | .int .. | .float .. | .bool .. | .var .. => []
  | .unary _ _ operand => [operand]
  | .binary _ _ lhs rhs => [lhs, rhs]
  | .assign _ _ target value => [target, value]
  | .ternary _ cond whenTrue whenFalse => [cond, whenTrue, whenFalse]
  | .call _ _ args => args
  | .member _ base _ => [base]
  | .index _ base position => [base, position]
  | .paren _ inner => [inner]

mutual

/-- All sub-expressions with the expression itself in front, each before its
own operands. -/
def subexprs : Expr → List Expr
  | .int id value => [.int id value]
  | .float id value => [.float id value]
  | .bool id value => [.bool id value]
  | .var id name => [.var id name]
  | .unary id op operand => .unary id op operand :: operand.subexprs
  | .binary id op lhs rhs => .binary id op lhs rhs :: (lhs.subexprs ++ rhs.subexprs)
  | .assign id op target value =>
      .assign id op target value :: (target.subexprs ++ value.subexprs)
  | .ternary id cond whenTrue whenFalse =>
      .ternary id cond whenTrue whenFalse ::
        (cond.subexprs ++ whenTrue.subexprs ++ whenFalse.subexprs)
  | .call id callee args => .call id callee args :: subexprsOfList args
  | .member id base field => .member id base field :: base.subexprs
  | .index id base position =>
      .index id base position :: (base.subexprs ++ position.subexprs)
  | .paren id inner => .paren id inner :: inner.subexprs

def subexprsOfList : List Expr → List Expr
  | [] => []
  | e :: rest => e.subexprs ++ subexprsOfList rest

end

/-- The sub-expressions of a list are those of its members. -/
theorem subexprsOfList_eq_flatMap (es : List Expr) :
    subexprsOfList es = es.flatMap subexprs := by
  induction es with
  | nil => rfl
  | cons e rest ih => simp [subexprsOfList, ih]

/-- An expression comes before its operands. -/
theorem subexprs_eq_cons (e : Expr) : e.subexprs = e :: e.children.flatMap subexprs := by
  cases e <;> simp [subexprs, children, subexprsOfList_eq_flatMap]

theorem self_mem_subexprs (e : Expr) : e ∈ e.subexprs := by
  rw [subexprs_eq_cons]
  exact List.mem_cons_self

/-- Operands are smaller than the expression around them. -/
theorem sizeOf_lt_of_mem_children {child e : Expr} (listed : child ∈ e.children) :
    sizeOf child < sizeOf e := by
  cases e with
  | call _ _ args =>
      have := List.sizeOf_lt_of_mem (show child ∈ args from listed)
      simp only [call.sizeOf_spec]
      omega
  | _ => grind [children]

/-- What holds of an expression whenever it holds of its operands holds of all
expressions. -/
theorem children_induction {P : Expr → Prop}
    (step : ∀ e, (∀ child ∈ e.children, P child) → P e) (e : Expr) : P e :=
  step e fun child _listed => children_induction step child
termination_by sizeOf e
decreasing_by exact sizeOf_lt_of_mem_children _listed

/-- Parts of parts are parts. -/
theorem mem_subexprs_trans {part inner e : Expr} (isPart : part ∈ inner.subexprs)
    (isInner : inner ∈ e.subexprs) : part ∈ e.subexprs := by
  induction e using children_induction with
  | step e inductionHypothesis =>
      rw [subexprs_eq_cons] at isInner
      rcases List.mem_cons.mp isInner with rfl | within
      · exact isPart
      · rcases List.mem_flatMap.mp within with ⟨child, isChild, isInner⟩
        rw [subexprs_eq_cons]
        exact List.mem_cons_of_mem _ (List.mem_flatMap.mpr
          ⟨child, isChild, inductionHypothesis child isChild isInner⟩)

theorem mem_subexprs_of_mem_children {child e : Expr} (isChild : child ∈ e.children) :
    child ∈ e.subexprs := by
  rw [subexprs_eq_cons]
  exact List.mem_cons_of_mem _ (List.mem_flatMap.mpr ⟨child, isChild, child.self_mem_subexprs⟩)

theorem mem_subexprs_of_child {child e whole : Expr} (isChild : child ∈ e.children)
    (isPart : e ∈ whole.subexprs) : child ∈ whole.subexprs :=
  mem_subexprs_trans (mem_subexprs_of_mem_children isChild) isPart

def varName? : Expr → Option String
  | .var _ name => some name
  | _ => none

def call? : Expr → Option (String × List Expr)
  | .call _ callee args => some (callee, args)
  | _ => none

/-- Whether the expression is a call that names `callee`. -/
def calls (e : Expr) (callee : String) : Bool :=
  match e with
  | .call _ name _ => name == callee
  | _ => false

/-- The expression without the parentheses around it. -/
def bare : Expr → Expr
  | .paren _ inner => inner.bare
  | e => e

def isLiteral : Expr → Bool
  | .int .. | .float .. | .bool .. => true
  | _ => false

/-- The first sub-expression with the given identifier. -/
def find? (e : Expr) (target : NodeId) : Option Expr :=
  e.subexprs.find? fun sub => sub.id == target

/-- The variable that a written expression changes in the end, such as `v` for
`v.x[i]`. -/
def writtenVar? : Expr → Option String
  | .var _ name => some name
  | .member _ base _ => base.writtenVar?
  | .index _ base _ => base.writtenVar?
  | .paren _ inner => inner.writtenVar?
  | _ => none

/-- The operand that the outermost node writes, if it writes one. -/
def written? : Expr → Option Expr
  | .assign _ _ target _ => some target
  | .unary _ op operand => if op.writesOperand then some operand else none
  | _ => none

end Expr
end Whittle
