import Whittle.Proofs.Parse.Statements
import Whittle.Proofs.Reduction.Places

namespace Whittle

/-!
# What was read and checked can be written

Text that is read has names where names belong, but a shader may be read that cannot be
written again: a literal may be too large for a number, a call may be one of `void`, and a
member may be one of an integer.  The check turns down the last two.
-/

/-- Whether the number is a number and not infinite. -/
def Binary64.isFinite (x : Binary64) : Bool :=
  match x.magnitude with
  | .finite _ _ _ => true
  | .infinite | .notANumber => false

def Expr.isFinite : Expr → Bool
  | .float _ x => x.isFinite
  | _ => true

/-- No float literal of the shader is too large for a number. -/
def Shader.HasFiniteFloats (shader : Shader) : Prop :=
  ∀ e ∈ shader.exprs, e.isFinite = true

instance (shader : Shader) : Decidable shader.HasFiniteFloats :=
  inferInstanceAs (Decidable (∀ e ∈ shader.exprs, e.isFinite = true))

namespace Expr

/-- A node that has a type can be written as soon as it is spelled well. -/
theorem isReadable_of_isSpelled {ctx : Check.Context} {e : Expr} (spelled : e.isSpelled = true)
    (typed : (ctx.typeOf e).isSome) (finite : e.isFinite = true) :
    e.isReadable = true ∧ e.isInfinity = false := by
  rcases Option.isSome_iff_exists.mp typed with ⟨ty, isTy⟩
  cases e with
  | float id x =>
      rw [isSpelled] at spelled
      rw [isFinite, Binary64.isFinite] at finite
      rw [isReadable, isInfinity, Binary64.isInfinity]
      cases size : x.magnitude with
      | finite significand exponent isPower => simp [spelled]
      | infinite | notANumber => simp [size] at finite
  | call id callee args =>
      rcases Check.Context.typeOf_call_eq_some_iff.mp isTy with ⟨tys, _, isCall⟩
      have notVoid : callee ≠ "void" := by
        rintro rfl
        cases isCall
      simp only [isSpelled, Bool.and_eq_true, Bool.not_eq_true'] at spelled
      exact ⟨by simp [isReadable, Parse.isCallee, spelled, notVoid], rfl⟩
  | member id base field =>
      rcases Check.Context.typeOf_member_eq_some_iff.mp isTy with ⟨baseTy, isBase, isMember⟩
      have notInt : base.isInt = false := by
        cases base with
        | int =>
            cases isBase
            cases isMember
        | _ => rfl
      rw [isSpelled] at spelled
      exact ⟨by simp [isReadable, notInt, spelled], rfl⟩
  | int | var => exact ⟨spelled, rfl⟩
  | _ => exact ⟨rfl, rfl⟩

end Expr

namespace Shader

variable {shader : Shader} {version : Version} {types : TypeTable}
  (checked : shader.check version = .ok types) (finite : shader.HasFiniteFloats)
include checked finite

/-- What is spelled well in a valid shader can be written. -/
theorem isPrintable_of_isLegible {e : Expr} (isRoot : e ∈ shader.roots)
    (legible : e.isLegible = true) : e.isPrintable = true := by
  rw [Expr.isLegible, List.all_eq_true] at legible
  rw [Expr.isPrintable, List.all_eq_true]
  intro part isPart
  have listed : part ∈ shader.exprs := List.mem_flatMap.mpr ⟨e, isRoot, isPart⟩
  rcases mem_exprs_iff.mp listed with ⟨one, isOne, isPlaced⟩
  have typed := (types_eq_typeOf checked isOne isPlaced).1
  have both := Expr.isReadable_of_isSpelled (legible part isPart) typed (finite part listed)
  rw [both.1, both.2]
  rfl

/-- The statements at a place of a shader that was read and is valid can be written. -/
theorem isPrintableList_of_parse {source : String} (isRead : Shader.parse source = .ok shader)
    {spot : Spot} {run : List Stmt} (isAt : shader.decls = spot.fill run) :
    Stmt.isPrintableList Expr.isPrintable run = true := by
  have isDecl : .function (spot.function.withStmts (spot.slot.fill run)) ∈ shader.decls := by
    rw [isAt]
    exact List.mem_append_cons_self
  have legible := Slot.isPrintableList_of_fill (isPrintable_body_of_parse isRead isDecl)
  have alike : List.Forall₂ (Stmt.Alike fun e e' => e' = e ∧ e ∈ shader.roots) run run := by
    exact Stmt.alikeList_of_roots fun e listed =>
      ⟨rfl, (mem_roots_fill_iff isAt).mpr (Or.inr listed)⟩
  refine Stmt.isPrintableList_of_alike ?_ alike legible
  rintro e _ ⟨rfl, isRoot⟩ isLegible
  exact isPrintable_of_isLegible checked finite isRoot isLegible

end Shader
end Whittle
