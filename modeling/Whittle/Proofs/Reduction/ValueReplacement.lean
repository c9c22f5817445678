import Whittle.Proofs.Identifiers.Operations
import Whittle.Proofs.Typing.Placement
import Whittle.Proofs.Typing.Values

namespace Whittle

/-!
# Replacing values keeps a shader valid

Three kinds of edit put another expression in the place of a value.  The new
expression has the type of the value, so whatever is around it keeps its type,
and a valid shader stays valid.
-/

namespace Shader

open Check.Context (Placed Retypes)

variable {shader drawn edited : Shader} {version : Version} {types types' : TypeTable}

/-- The edited shader is valid, and the expressions that it shares with the
shader before have the types that they had. -/
def KeepsTypes (shader : Shader) (version : Version) (types : TypeTable) (edited : Shader) : Prop :=
  ∃ types', edited.check version = .ok types' ∧
    ∀ e ∈ shader.exprs, ∀ e' ∈ edited.exprs, e'.id = e.id → types'[e'.id]? = types[e.id]?

/-- An expression that may stand in the place of the value `target`: it has the
type of the value, and its parts are new or have the types that they had. -/
structure Fits (shader : Shader) (version : Version) (types : TypeTable) (target : NodeId)
    (replacement : Expr) : Prop where
  sameType : ∀ one ∈ shader.placed version, ∀ part ∈ one.e.subexprs, part.id = target →
    one.ctx.typeOf replacement = one.ctx.typeOf part
  parts : ∀ one ∈ shader.placed version, (∃ part ∈ one.e.subexprs, part.id = target) →
    ∀ part ∈ replacement.subexprs, ∀ ty, types[part.id]? = some ty → one.ctx.typeOf part = some ty

theorem keepsTypes_of_decls_eq (checked : shader.check version = .ok types)
    (same : drawn.decls = shader.decls) : shader.KeepsTypes version types drawn := by
  have sameCheck : drawn.check version = shader.check version := by
    cases drawn
    subst same
    rfl
  refine ⟨types, sameCheck.trans checked, fun e _ e' _ sameId => ?_⟩
  rw [sameId]

/-- The outermost expression that has a value somewhere in it has it among its
own values. -/
theorem mem_valueIds_of_mem_ids (distinct : shader.ids.Nodup) {value root : Expr}
    (isValue : value ∈ Reduction.rvalues shader) (isRoot : root ∈ shader.roots)
    (within : value.id ∈ root.ids) : value.id ∈ root.valueIds false := by
  rcases List.mem_flatMap.mp isValue with ⟨other, isOther, inOther⟩
  have listed : value.id ∈ other.valueIds false := List.mem_map_of_mem inOther
  rwa [eq_of_mem_flatMap (nodup_flatMap_ids_roots distinct) isRoot isOther within
    (other.valueIds_subset false listed)]

/-- The change of a value in an outermost expression moves nothing around the
value. -/
theorem unmoved_of_inside (distinct : shader.ids.Nodup) {value replacement root' : Expr}
    (isValue : value ∈ Reduction.rvalues shader)
    (fits : shader.Fits version types value.id replacement) {one : Placed}
    (listed : one ∈ shader.placed version)
    (changed : Expr.Inside (Expr.ChangeOf value.id fun _ => replacement) one.e root') :
    one.ctx.Unmoved (Expr.ChangeOf value.id fun _ => replacement) false one.e root' := by
  have isRoot : one.e ∈ shader.roots := by
    rw [← map_e_placed shader version]
    exact List.mem_map_of_mem listed
  rcases changed.exchange with ⟨part, part', changedPart, isPart, _⟩
  have within : value.id ∈ one.e.ids := by
    rw [← Expr.map_id_subexprs, ← changedPart.1]
    exact List.mem_map_of_mem isPart
  have inRoot : one.e.ids.Nodup :=
    (List.nodup_flatMap.mp (nodup_flatMap_ids_roots distinct)).1 one.e isRoot
  refine Check.Context.unmoved_of_atValue (changed.atValue inRoot false
    (mem_valueIds_of_mem_ids distinct isValue isRoot within)) fun part isPart part' isChange => ?_
  rw [isChange.2]
  exact fits.sameType one listed part isPart isChange.1

/-- Putting an expression that fits in the place of a value keeps a shader
valid, provided identifiers stay apart. -/
theorem keepsTypes_replaceExpr (checked : shader.check version = .ok types)
    (sameDecls : drawn.decls = shader.decls) {value replacement : Expr}
    (isValue : value ∈ Reduction.rvalues shader)
    (fits : shader.Fits version types value.id replacement)
    (numbered : (drawn.replaceExpr value.id replacement).1.IsNumbered) :
    shader.KeepsTypes version types (drawn.replaceExpr value.id replacement).1 := by
  unfold replaceExpr orUnchanged at numbered ⊢
  cases found : drawn.modifyExpr? value.id fun _ => replacement with
  | none => exact keepsTypes_of_decls_eq checked sameDecls
  | some edited =>
      rw [found] at numbered
      dsimp only [Option.getD_some] at numbered ⊢
      have valid := isValid_iff.mp ⟨types, checked⟩
      have samePlaced : drawn.placed version = shader.placed version := by
        rw [placed, placed, sameDecls]
      have alike := (atExpr_of_modifyExpr? found).alike
      have retypes : Retypes (Relation.ReflGen
          (Expr.Inside (Expr.ChangeOf value.id fun _ => replacement))) (drawn.placed version) := by
        intro one listed root' related
        rw [samePlaced] at listed
        cases related with
        | refl => rfl
        | single changed => exact (unmoved_of_inside valid.1 isValue fits listed changed).typeOf
      have followsDrawn : drawn.FollowsRules version := by
        cases drawn
        subst sameDecls
        exact ⟨valid.2.decls, valid.2.main⟩
      have follows := (alike.followsRules_iff retypes).mp followsDrawn
      rcases isValid_iff.mpr ⟨numbered.1, follows⟩ with ⟨types', checked'⟩
      refine ⟨types', checked', fun e isExpr e' isExpr' sameId => ?_⟩
      rcases mem_exprs_iff.mp isExpr with ⟨one, listed, isPart⟩
      rcases mem_exprs_iff.mp isExpr' with ⟨one', listed', isPart'⟩
      have isTy := types_eq_typeOf checked listed isPart
      have isTy' := types_eq_typeOf checked' listed' isPart'
      rcases Option.isSome_iff_exists.mp isTy.1 with ⟨ty, isSome⟩
      rw [isTy'.2, isTy.2, isSome]
      -- The expression stands where an alike one stood before.
      rcases exists_of_mem_right ((Check.Context.Alike.refl _).placedDecls
          (Check.Context.holdsAlike_self _) alike.decls) listed' with
        ⟨before, isBefore, same⟩
      have isBefore : before ∈ shader.placed version := samePlaced ▸ isBefore
      rw [same.ctx.typeOf]
      have known : ∀ part ∈ before.e.subexprs, part.id = e.id → before.ctx.typeOf part = some ty := by
        intro part isPart samePart
        rw [← (types_eq_typeOf checked isBefore isPart).2, samePart, isTy.2, isSome]
      rcases (Relation.reflGen_iff _ _ _).mp same.e with sameRoot | changed
      · rw [sameRoot] at isPart'
        exact known e' isPart' sameId
      · have unmoved := unmoved_of_inside valid.1 isValue fits isBefore changed
        rcases unmoved.parts e' isPart' with ⟨part, isPart, samePart, sameTy⟩ | replaced
        · rw [sameTy]
          exact known part isPart (samePart.symm.trans sameId)
        · rcases replaced with ⟨part, isPart, _, isChange, isNew⟩
          rw [isChange.2] at isNew
          refine fits.parts before isBefore ⟨part, isPart, isChange.1⟩ e' isNew ty ?_
          rw [sameId, isTy.2, isSome]

/-- A value of the shader is one of its expressions. -/
theorem mem_exprs_of_mem_rvalues {value : Expr} (isValue : value ∈ Reduction.rvalues shader) :
    value ∈ shader.exprs := by
  rcases List.mem_flatMap.mp isValue with ⟨root, isRoot, within⟩
  exact List.mem_flatMap.mpr ⟨root, isRoot, root.values_subset.1 within⟩

/-- A part of the same type may take the place of a value. -/
theorem keepsTypes_promoteExpr (checked : shader.check version = .ok types) {value part : Expr}
    (isValue : value ∈ Reduction.rvalues shader) (isPart : part ∈ value.subexprs)
    (sameType : types[part.id]? = types[value.id]?)
    (numbered : (shader.promoteExpr value.id part.id).IsNumbered) :
    shader.KeepsTypes version types (shader.promoteExpr value.id part.id) := by
  have distinct := (isValid_iff.mp ⟨types, checked⟩).1
  have isExpr := mem_exprs_of_mem_rvalues isValue
  have isExprPart : part ∈ shader.exprs := by
    rcases List.mem_flatMap.mp isExpr with ⟨root, isRoot, within⟩
    exact List.mem_flatMap.mpr ⟨root, isRoot, Expr.mem_subexprs_trans isPart within⟩
  unfold promoteExpr at numbered ⊢
  split
  · rename_i kept found
    rw [found] at numbered
    rcases Option.bind_eq_some_iff.mp found with ⟨target, isTarget, inside⟩
    have sameTarget : target = value :=
      expr_eq_of_id_eq distinct (List.mem_of_find?_eq_some isTarget) isExpr
        (id_of_findExpr? isTarget)
    subst sameTarget
    have isKept : kept ∈ target.subexprs := List.mem_of_find?_eq_some inside
    have sameId : kept.id = part.id := by
      have fits := List.find?_some inside
      exact beq_iff_eq.mp fits
    have whole : ∀ {one : Placed} {other : Expr}, one ∈ shader.placed version →
        other ∈ one.e.subexprs → other.id = target.id → other = target := by
      intro one other listed within same
      exact expr_eq_of_id_eq distinct (mem_exprs_iff.mpr ⟨one, listed, within⟩) isExpr same
    refine keepsTypes_replaceExpr checked rfl isValue ⟨?_, ?_⟩ numbered
    · intro one listed other within same
      have sameOther := whole listed within same
      subst sameOther
      rw [← (types_eq_typeOf checked listed within).2,
        ← (types_eq_typeOf checked listed (Expr.mem_subexprs_trans isKept within)).2, sameId,
        sameType]
    · rintro one listed ⟨other, within, same⟩ inner isInner ty isTy
      have sameOther := whole listed within same
      subst sameOther
      have inOne := Expr.mem_subexprs_trans (Expr.mem_subexprs_trans isInner isKept) within
      rw [← (types_eq_typeOf checked listed inOne).2, isTy]
  · exact keepsTypes_of_decls_eq checked rfl

end Shader

end Whittle
