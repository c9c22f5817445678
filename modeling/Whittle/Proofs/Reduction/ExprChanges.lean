import Whittle.Proofs.Syntax.Mapping
import Whittle.Proofs.Typing.Congruence
import Whittle.Proofs.Typing.Placement

namespace Whittle

/-!
# Changes of expressions that keep types

An edit that changes nothing but expressions leaves a shader that follows the rules if
every expression keeps its type where it stands.
-/

namespace Shader

open Check.Context (Placed Retypes)

variable {change : Expr → Expr} {shader edited : Shader} {version : Version} {types types' : TypeTable}

theorem mem_exprs_of_mem_subexprs {part e : Expr} (listed : e ∈ shader.exprs)
    (isPart : part ∈ e.subexprs) : part ∈ shader.exprs := by
  rcases List.mem_flatMap.mp listed with ⟨root, isRoot, inRoot⟩
  exact List.mem_flatMap.mpr ⟨root, isRoot, Expr.mem_subexprs_trans isPart inRoot⟩

section

variable {e target : Expr} (distinct : shader.ids.Nodup) (isTarget : target ∈ shader.exprs)
include distinct isTarget

/-- Where one expression is changed, all the others change in their operands alone. -/
theorem rewrite_changeAt_of_ne (listed : e ∈ shader.exprs) (differ : e ≠ target) :
    e.rewrite (Expr.changeAt target.id change) =
      e.mapChildren (Expr.rewrite (Expr.changeAt target.id change)) :=
  Expr.rewrite_changeAt_of_ne fun same => differ (expr_eq_of_id_eq distinct listed isTarget same)

/-- So does whatever is around an expression that is in no operand of the changed one. -/
theorem rewrite_changeAt_around (apart : ∀ child ∈ target.children, e ∉ child.subexprs) :
    ∀ outer ∈ shader.exprs, ∀ child ∈ outer.children, e ∈ child.subexprs →
      outer.rewrite (Expr.changeAt target.id change) =
        outer.mapChildren (Expr.rewrite (Expr.changeAt target.id change)) := by
  intro outer listed child isChild isPart
  refine rewrite_changeAt_of_ne distinct isTarget listed ?_
  rintro rfl
  exact apart child isChild isPart

end

variable (isEdited : edited.decls = shader.decls.map (Decl.mapExprs change))
include isEdited

theorem decls_alike_of_mapExprs :
    List.Forall₂ (Decl.Alike fun e e' => e' = change e) shader.decls edited.decls :=
  isEdited ▸ shader.alike_mapExprs.decls

/-- The changed shader follows the rules if the one before does. -/
theorem followsRules_mapExprs_iff
    (retypes : Retypes (fun e e' => e' = change e) (shader.placed version)) :
    shader.FollowsRules version ↔ edited.FollowsRules version := by
  have same : shader.Alike (fun e e' => e' = change e) ⟨shader.version, edited.decls, edited.nextId⟩ :=
    ⟨rfl, decls_alike_of_mapExprs isEdited⟩
  rw [same.followsRules_iff retypes]
  exact ⟨fun follows => ⟨follows.decls, follows.main⟩, fun follows => ⟨follows.decls, follows.main⟩⟩

/-- The changed expressions stand where those before stood. -/
theorem placed_mapExprs :
    List.Forall₂ (Placed.AlikeBy StructDecl.Alike fun e e' => e' = change e) (shader.placed version)
      (edited.placed version) :=
  (Check.Context.Alike.refl _).placedDecls (Check.Context.holdsAlike_self _)
    (decls_alike_of_mapExprs isEdited)

theorem roots_of_mapExprs : edited.roots = shader.roots.map change := by
  rw [roots, isEdited, ← shader.roots_mapExprs]
  rfl

/-- An expression is still there, changed, if whatever it is within changes in its operands
alone. -/
theorem change_mem_exprs {e : Expr} (listed : e ∈ shader.exprs)
    (around : ∀ outer ∈ shader.exprs, ∀ child ∈ outer.children, e ∈ child.subexprs →
      change outer = outer.mapChildren change) : change e ∈ edited.exprs := by
  rcases List.mem_flatMap.mp listed with ⟨root, isRoot, isPart⟩
  rw [exprs, roots_of_mapExprs isEdited]
  refine List.mem_flatMap.mpr ⟨change root, List.mem_map_of_mem isRoot, ?_⟩
  exact Expr.change_mem_subexprs isPart fun outer isOuter =>
    around outer (List.mem_flatMap.mpr ⟨root, isRoot, isOuter⟩)

/-- Whatever is there afterwards is an expression that has changed, or it stands in what an
expression has become for which `P` holds. -/
theorem exists_of_mem_exprs_mapExprs {P : Expr → Prop} {e' : Expr} (listed' : e' ∈ edited.exprs)
    (changes : ∀ e ∈ shader.exprs, P e ∨ change e = e.mapChildren change) :
    ∃ e ∈ shader.exprs, e' = change e ∨ P e ∧ e' ∈ (change e).subexprs := by
  rw [exprs, roots_of_mapExprs isEdited] at listed'
  rcases List.mem_flatMap.mp listed' with ⟨root', isRoot', isPart'⟩
  rcases List.mem_map.mp isRoot' with ⟨root, isRoot, rfl⟩
  rcases Expr.exists_of_mem_subexprs_change (fun part isPart =>
    changes part (List.mem_flatMap.mpr ⟨root, isRoot, isPart⟩)) isPart' with ⟨e, isPart, stays⟩
  exact ⟨e, List.mem_flatMap.mpr ⟨root, isRoot, isPart⟩, stays⟩

/-- An expression that is still there has the type that it had, if it has that type where it
stands. -/
theorem types_change_eq (checked : shader.check version = .ok types)
    (checked' : edited.check version = .ok types') {e : Expr} (listed : e ∈ shader.exprs)
    (keeps : ∀ one ∈ shader.placed version, e ∈ one.e.subexprs →
      one.ctx.typeOf (change e) = one.ctx.typeOf e)
    (around : ∀ outer ∈ shader.exprs, ∀ child ∈ outer.children, e ∈ child.subexprs →
      change outer = outer.mapChildren change) : types'[(change e).id]? = types[e.id]? := by
  rcases (@mem_exprs_iff shader version e).mp listed with ⟨one, isPlaced, isPart⟩
  rcases exists_of_mem_left (placed_mapExprs isEdited) isPlaced with ⟨one', isPlaced', alike⟩
  have isPart' : change e ∈ one'.e.subexprs := by
    rw [alike.e]
    exact Expr.change_mem_subexprs isPart fun outer isOuter =>
      around outer (mem_exprs_iff.mpr ⟨one, isPlaced, isOuter⟩)
  rw [(types_eq_typeOf checked isPlaced isPart).2, (types_eq_typeOf checked' isPlaced' isPart').2,
    alike.ctx.typeOf, keeps one isPlaced isPart]

end Shader
end Whittle
