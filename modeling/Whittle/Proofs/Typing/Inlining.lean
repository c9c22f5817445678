import Whittle.Proofs.Scoping.Copies
import Whittle.Proofs.Typing.Visibility

namespace Whittle

/-!
# Types where a variable is replaced by its initialiser

Wherever a variable is in scope, so is everything that its initialiser refers to, since
that was in scope where the variable is declared.  So a copy of the initialiser has the
type of the variable there, and expressions that hold one keep their types unless they
write the variable.
-/

open Reduction (Names)
open Check (Binding Context)
open Check.Context (Covers Inherited)

/-- A variable that is to be replaced by copies of its initialiser. -/
structure Inlining where
  name : String
  init : Expr

namespace Inlining

variable {inlined : Inlining} {ctx ctx' : Context} {change : Expr → Expr}

/-- The names that the initialiser refers to. -/
def names (inlined : Inlining) : List String :=
  (Names.ofExpr inlined.init).referenced

/-- Where the variable is in scope, what it stands for is known, and whatever the initialiser
refers to is in scope as well, beside the structs and functions that the context `ctx` of the
initialiser has. -/
def Shows (inlined : Inlining) (ctx : Context) (binding : Binding) (ctx' : Context) : Prop :=
  ctx'.lookup? inlined.name = none ∨ ctx'.lookup? inlined.name = some binding ∧
    Covers [] ctx ctx' ∧ ∀ name ∈ inlined.names, (ctx'.lookup? name).isSome

theorem covers_declared (covers : Covers [] ctx ctx') (name : String) (binding : Binding) :
    Covers [] ctx (ctx'.declared name binding) where
  version := by rw [Context.version_declared, covers.version]
  structs := by rw [Context.struct?_declared]; exact covers.structs
  calls := by rw [Context.call_declared]; exact covers.calls
  lookups := List.forall_mem_nil _

/-- Declarations of other names do not change that. -/
theorem inherited_shows (inlined : Inlining) (ctx : Context) (binding : Binding) :
    Inherited (· ≠ inlined.name) (inlined.Shows ctx binding) where
  opened shows := shows.imp_right fun ⟨stands, covers, visible⟩ =>
    ⟨stands, { covers with lookups := List.forall_mem_nil _ }, visible⟩
  inLoop shows := shows.imp_right fun ⟨stands, covers, visible⟩ =>
    ⟨stands, { covers with lookups := List.forall_mem_nil _ }, visible⟩
  inSwitch shows := shows.imp_right fun ⟨stands, covers, visible⟩ =>
    ⟨stands, { covers with lookups := List.forall_mem_nil _ }, visible⟩
  declared {ctx' name} other isOther shows := by
    have same : (ctx'.declared name other).lookup? inlined.name = ctx'.lookup? inlined.name := by
      rw [Context.lookup?_declared, if_neg fun both => isOther both.2.symm]
    rw [Shows, same]
    refine shows.imp_right fun ⟨stands, covers, visible⟩ =>
      ⟨stands, covers_declared covers name other, fun read isRead => ?_⟩
    rw [Context.lookup?_declared]
    split
    · rfl
    · exact visible read isRead

/-- Change one part of an expression: a reference to the variable becomes a copy of the
initialiser in parentheses, and whatever else there is changes in its operands. -/
inductive ChangesAt (inlined : Inlining) (change : Expr → Expr) (e : Expr) : Prop where
  | reference {id paren start : NodeId} (isReference : e = .var id inlined.name)
      (changed : change e = .paren paren (inlined.init.numbered start))
  | other (noReference : e.varName? ≠ some inlined.name) (changed : change e = e.mapChildren change)

/-- Whatever changes so keeps its type if it does not write the variable, and may be written
if it could be and is no part of the variable. -/
theorem typeOf_and_mayWrite {e : Expr}
    (sees : ∀ binding, ctx.lookup? inlined.name = some binding →
      ctx.typeOf inlined.init = some binding.ty)
    (typed : (ctx.typeOf e).isSome) (changes : ∀ part ∈ e.subexprs, inlined.ChangesAt change part)
    (unwritten : ∀ part ∈ e.subexprs, ∀ operand, part.written? = some operand →
      operand.writtenVar? ≠ some inlined.name) :
    ctx.typeOf (change e) = ctx.typeOf e ∧
      (e.writtenVar? ≠ some inlined.name → ctx.mayWrite (change e) = ctx.mayWrite e) := by
  induction e using Expr.children_induction with
  | step e inductionHypothesis =>
      cases changes e e.self_mem_subexprs with
      | reference isReference changed =>
          cases isReference
          rcases Option.isSome_iff_exists.mp typed with ⟨ty, isTy⟩
          rcases Option.map_eq_some_iff.mp isTy with ⟨binding, isBinding, rfl⟩
          refine ⟨?_, fun isOther => absurd rfl isOther⟩
          rw [changed, isTy, Context.typeOf, Context.typeOf_numbered, sees binding isBinding]
      | other _ changed =>
          have below := fun child isChild => inductionHypothesis child isChild
            (Context.isSome_of_mem_children typed isChild)
            (fun part isPart => changes part
              (Expr.mem_subexprs_trans isPart (Expr.mem_subexprs_of_mem_children isChild)))
            fun part isPart => unwritten part
              (Expr.mem_subexprs_trans isPart (Expr.mem_subexprs_of_mem_children isChild))
          rw [changed]
          constructor
          · refine Context.typeOf_mapChildren (fun _ _ => rfl) (fun _ _ _ _ _ _ => rfl)
              (fun _ _ _ _ _ _ => rfl) (fun child isChild => (below child isChild).1) ?_
            exact fun operand isWritten => (below operand (Expr.mem_children_of_written? isWritten)).2
              (unwritten e e.self_mem_subexprs operand isWritten)
          · intro isOther
            refine Context.mayWrite_mapChildren (fun _ _ => rfl)
              (fun child isChild => (below child isChild).1) fun child isChild same => ?_
            exact (below child isChild).2 (same ▸ isOther)

/-- What is written is still there, with what it is a part of. -/
theorem writtenVar?_change {e : Expr} (changes : ∀ part ∈ e.subexprs, inlined.ChangesAt change part)
    (isOther : e.writtenVar? ≠ some inlined.name) : (change e).writtenVar? = e.writtenVar? := by
  induction e using Expr.children_induction with
  | step e inductionHypothesis =>
      cases changes e e.self_mem_subexprs with
      | reference isReference _ =>
          cases isReference
          exact absurd rfl isOther
      | other _ changed =>
          have below := fun child isChild => inductionHypothesis child isChild fun part isPart =>
            changes part (Expr.mem_subexprs_trans isPart (Expr.mem_subexprs_of_mem_children isChild))
          rw [changed]
          cases e with
          | member id base field => exact below base List.mem_cons_self isOther
          | index id base position => exact below base List.mem_cons_self isOther
          | paren id inner => exact below inner List.mem_cons_self isOther
          | _ => rfl

end Inlining
end Whittle
