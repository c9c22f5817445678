import Whittle.Proofs.Reduction.ShaderNames

namespace Whittle

/-!
# What is written

An assignment writes its target and an increment its operand.  What is written there is
a variable or a part of one, selected by members, indices and parentheses around it.
-/

open Reduction (Names)

namespace Expr

/-- Evaluating the outermost node of the expression writes the location. -/
inductive Writes : Expr → (location : Expr) → Prop where
  | assign {id : NodeId} {op : AssignOp} {target value : Expr} :
      Writes (.assign id op target value) target
  | unary {id : NodeId} {op : UnaryOp} {operand : Expr} (isStep : op.writesOperand = true) :
      Writes (.unary id op operand) operand

/-- The expression is the variable of this name or a part of it. -/
inductive IsPartOf (name : String) : Expr → Prop where
  | var {id : NodeId} : IsPartOf name (.var id name)
  | member {id : NodeId} {base : Expr} {field : String} (inBase : IsPartOf name base) :
      IsPartOf name (.member id base field)
  | index {id : NodeId} {base position : Expr} (inBase : IsPartOf name base) :
      IsPartOf name (.index id base position)
  | paren {id : NodeId} {inner : Expr} (within : IsPartOf name inner) :
      IsPartOf name (.paren id inner)

theorem Writes.written? {e location : Expr} (writes : e.Writes location) :
    e.written? = some location := by
  cases writes with
  | assign => rfl
  | unary isStep => exact if_pos isStep

/-- What is written is what the search for it finds. -/
theorem writes_iff {e location : Expr} : e.Writes location ↔ e.written? = some location := by
  refine ⟨Writes.written?, fun isWritten => ?_⟩
  cases e with
  | assign id op target value =>
      cases isWritten
      exact .assign
  | unary id op operand =>
      rw [Expr.written?, Option.ite_none_right_eq_some] at isWritten
      cases isWritten.2
      exact .unary isWritten.1
  | _ => cases isWritten

theorem IsPartOf.writtenVar? {name : String} {e : Expr} (isPart : e.IsPartOf name) :
    e.writtenVar? = some name := by
  induction isPart with
  | var => rfl
  | member _ inductionHypothesis | index _ inductionHypothesis | paren _ inductionHypothesis =>
      exact inductionHypothesis

end Expr

namespace Shader

variable {shader : Shader} {names : List String}

/-- No assignment and no increment in the shader writes a variable of one of these names or
a part of it. -/
def LeavesAlone (shader : Shader) (names : List String) : Prop :=
  ∀ e ∈ shader.exprs, ∀ location name, e.Writes location → location.IsPartOf name → name ∉ names

theorem leavesAlone_of_written? (unwritten : ∀ e ∈ shader.exprs, ∀ operand,
    e.written? = some operand → ∀ name ∈ names, operand.writtenVar? ≠ some name) :
    shader.LeavesAlone names := fun e listed location name writes isPart isName =>
  unwritten e listed location writes.written? name isName isPart.writtenVar?

end Shader

namespace Reduction
namespace Names

theorem assigned_ofShader (shader : Shader) :
    (ofShader shader).assigned = shader.exprs.filterMap fun e => e.written?.bind Expr.writtenVar? := by
  rw [ofShader, Shader.exprs, Shader.roots]
  induction shader.decls with
  | nil => rfl
  | cons decl rest inductionHypothesis =>
      rw [List.flatMap_cons, List.flatMap_append, List.filterMap_append, ← inductionHypothesis]
      cases decl <;> rfl

section

variable {names : Names} {exprs : List Expr} {name : String} {e operand : Expr}

/-- What no name says to be written is not written. -/
theorem writtenVar?_ne_of_assigned
    (areAssigned : names.assigned = exprs.filterMap fun e => e.written?.bind Expr.writtenVar?)
    (unassigned : names.assigns name = false) (listed : e ∈ exprs)
    (isWritten : e.written? = some operand) : operand.writtenVar? ≠ some name := by
  intro isVar
  rw [assigns, areAssigned, List.contains_eq_mem, decide_eq_false_iff_not] at unassigned
  refine unassigned (List.mem_filterMap.mpr ⟨e, listed, ?_⟩)
  rw [isWritten, Option.bind_some, isVar]

theorem writtenVar?_ne_of_assigns {shader : Shader} (unassigned : (ofShader shader).assigns name = false)
    (listed : e ∈ shader.exprs) (isWritten : e.written? = some operand) :
    operand.writtenVar? ≠ some name :=
  writtenVar?_ne_of_assigned (assigned_ofShader shader) unassigned listed isWritten

theorem writtenVar?_ne_of_assigns_ofStmts {stmts : List Stmt}
    (unassigned : (ofStmts stmts).assigns name = false)
    (listed : e ∈ (stmts.flatMap Stmt.roots).flatMap Expr.subexprs)
    (isWritten : e.written? = some operand) : operand.writtenVar? ≠ some name :=
  writtenVar?_ne_of_assigned rfl unassigned listed isWritten

end

end Names
end Reduction
end Whittle
