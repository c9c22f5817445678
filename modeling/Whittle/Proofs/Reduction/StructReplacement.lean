import Whittle.Proofs.Syntax.Mapping
import Whittle.Proofs.Typing.Calls
import Whittle.Proofs.Typing.Congruence
import Whittle.Reduction.Struct.FieldAccess

namespace Whittle

/-!
# A struct and its uses changed together

A change of a struct leaves three pieces of a shader: the declarations in front of
the struct, the struct, and those behind it.  Only behind it the struct is in scope.
If the expressions change with the struct and keep their types, the declarations on
both sides are accepted as before, and what is left to look at is the struct.
-/

theorem Decl.modifyFirst?_append {change? : Decl → Option Decl} {before behind : List Decl}
    {decl decl' : Decl} (passed : ∀ other ∈ before, change? other = none)
    (changed : change? decl = some decl') :
    Decl.modifyFirst? change? (before ++ decl :: behind) = some (before ++ decl' :: behind) := by
  induction before with
  | nil => rw [List.nil_append, Decl.modifyFirst?, changed]; rfl
  | cons first rest inductionHypothesis =>
      rw [List.forall_mem_cons] at passed
      rw [List.cons_append, Decl.modifyFirst?, passed.1, inductionHypothesis passed.2]
      rfl

namespace Shader

variable {shader : Shader} {version : Version} {types : TypeTable} {before behind : List Decl}
  {decl : StructDecl}

/-- In a valid shader the struct of a name is replaced where it stands. -/
theorem replaceStruct_eq (checked : shader.check version = .ok types)
    (split : shader.decls = before ++ .struct decl :: behind) (replacement : StructDecl)
    (nextId : NodeId) :
    { shader with nextId }.replaceStruct decl.name replacement =
      ⟨shader.version, before ++ .struct replacement :: behind, nextId⟩ := by
  have apart := nodup_topNames checked
  rw [split, List.filterMap_append, List.filterMap_cons] at apart
  have passed : ∀ other ∈ before, ∀ struct, other = .struct struct → struct.name ≠ decl.name := by
    rintro _ isBefore struct rfl same
    exact (List.nodup_append'.mp apart).2.2 (List.mem_filterMap.mpr ⟨_, isBefore, rfl⟩)
      (same ▸ List.mem_cons_self)
  unfold replaceStruct modifyDecl?
  dsimp only
  rw [split, Decl.modifyFirst?_append (fun other isBefore => ?_) (if_pos (beq_self_eq_true decl.name))]
  · rfl
  · cases other with
    | struct struct => exact if_neg (by simpa using passed _ isBefore struct rfl)
    | _ => rfl

/-- A struct has no expressions, so replacing one leaves them all. -/
theorem roots_replaceStruct (split : shader.decls = before ++ .struct decl :: behind)
    (replacement : StructDecl) (nextId : NodeId) :
    (Shader.mk shader.version (before ++ .struct replacement :: behind) nextId).roots =
      shader.roots := by
  rw [roots, roots, split, List.flatMap_append, List.flatMap_append, List.flatMap_cons,
    List.flatMap_cons]
  rfl

/-- Wherever an expression stands, the name of a struct stands for it and for nothing
else. -/
theorem scope_of_struct (checked : shader.check version = .ok types)
    (isDeclared : .struct decl ∈ shader.decls) {one : Check.Context.Placed}
    (listed : one ∈ shader.placed version) :
    (∀ other ∈ one.ctx.structs, other.name = decl.name → other = decl) ∧
      ∀ f ∈ one.ctx.functions, f.name ≠ decl.name := by
  rcases exists_split_of_mem_placed checked listed with
    ⟨before, place, behind, split, areStructs, areFunctions⟩
  have apart := nodup_topNames checked
  constructor
  · intro other inScope same
    rw [areStructs, List.mem_reverse, Decl.mem_filterMap_struct?_iff] at inScope
    have isDeclared' : .struct other ∈ shader.decls := split ▸ List.mem_append_left _ inScope
    cases Decl.eq_of_topName?_eq apart isDeclared' isDeclared (congrArg some same) rfl
    rfl
  · intro f inScope same
    rw [areFunctions, List.mem_reverse, Decl.mem_filterMap_function?_iff] at inScope
    have isDeclared' : .function f ∈ shader.decls := split ▸ List.mem_append_left _ inScope
    cases Decl.eq_of_topName?_eq apart isDeclared' isDeclared (congrArg some same) rfl

open Check.Context (Placed RetypesBy HoldsAlike AlikeBy NamedBy)

/-- What the struct is replaced by is related to it, and other structs are related to
all that are alike. -/
structure ReplacesIn (S : StructDecl → StructDecl → Prop) (decl decl' : StructDecl) : Prop where
  named : NamedBy S decl decl'
  others : ∀ other, other ≠ decl → ∀ other', other.Alike other' → S other other'

/-- If a struct is replaced by one that is accepted in its place, and all expressions
change so that they keep their types, the shader follows the rules as before. -/
theorem followsRules_replaceStruct {S : StructDecl → StructDecl → Prop} {decl' : StructDecl}
    {change : Expr → Expr} {edited : Shader} (checked : shader.check version = .ok types)
    (split : shader.decls = before ++ .struct decl :: behind)
    (changed : edited.decls = before.map (Decl.mapExprs change) ++
      .struct decl' :: behind.map (Decl.mapExprs change))
    (replaces : ReplacesIn S decl decl')
    (accepted' : ((Check.Context.initial version).behindDecls before).AcceptsDecl (.struct decl'))
    (retypes : RetypesBy S (fun e e' => e' = change e) (shader.placed version)) :
    edited.FollowsRules version ∧
      List.Forall₂ (Placed.AlikeBy S fun e e' => e' = change e) (shader.placed version)
        (edited.placed version) := by
  have valid := (isValid_iff.mp ⟨types, checked⟩).2
  have accepted := valid.decls
  rw [split, Check.Context.acceptsDecls_append_iff] at accepted
  rw [placed, split, Check.Context.placedDecls_append, Check.Context.retypesBy_append] at retypes
  have same : ∀ decls : List Decl,
      List.Forall₂ (Decl.Alike fun e e' => e' = change e) decls (decls.map (Decl.mapExprs change)) :=
    fun decls => List.forall₂_map_right_iff.mpr (List.forall₂_same.mpr fun decl _ => decl.alike_mapExprs)
  have holds : ∀ decls ⊆ before ++ behind, HoldsAlike S decls := by
    intro decls among other listed other' alike
    refine replaces.others other (fun same => ?_) other' alike
    exact topName?_ne_of_split checked split rfl (among listed) (by rw [same]; rfl)
  have holdsFront := holds before (List.subset_append_left _ _)
  have holdsBehind := holds behind (List.subset_append_right _ _)
  have start : (Check.Context.initial version).AlikeBy S (.initial version) :=
    .of_refl _ (List.forall_mem_nil _)
  have front := start.behindDecls holdsFront (same before)
  have inside := front.behindStruct replaces.named
  refine ⟨⟨?_, ?_⟩, ?_⟩
  · rw [changed, Check.Context.acceptsDecls_append_iff]
    exact ⟨(Check.Context.acceptsDecls_iff start holdsFront (same before) retypes.1).mp accepted.1,
      (Check.Context.acceptsDecl_iff (R := Eq) front (.struct ⟨rfl, rfl⟩) (List.forall_mem_nil _)).mp
        accepted',
      (Check.Context.acceptsDecls_iff inside holdsBehind (same behind) retypes.2).mp accepted.2.2⟩
  · refine (Check.hasMain_iff_of_heads ?_).mp valid.main
    rw [functions, functions, changed, split]
    simp only [List.filterMap_append, List.filterMap_cons, Decl.function?, List.filter_append]
    exact List.rel_append (Check.functions_alike (· == "main") (same before))
      (Check.functions_alike (· == "main") (same behind))
  · rw [placed, placed, changed, split, Check.Context.placedDecls_append,
      Check.Context.placedDecls_append]
    exact List.rel_append (start.placedDecls holdsFront (same before))
      (inside.placedDecls holdsBehind (same behind))

end Shader

namespace Reduction

variable {types : TypeTable}

theorem accessesField_eq_true_iff {struct field : String} {e : Expr} :
    accessesField types struct field e = true ↔
      ∃ id base, e = .member id base field ∧ types[base.id]? = some (.struct struct) := by
  cases e with
  | member id base name =>
      simp only [accessesField, Bool.and_eq_true, beq_iff_eq, Expr.member.injEq]
      constructor
      · rintro ⟨isStruct, rfl⟩
        exact ⟨id, base, ⟨rfl, rfl, rfl⟩, isStruct⟩
      · rintro ⟨id', base', ⟨rfl, rfl, rfl⟩, isStruct⟩
        exact ⟨isStruct, rfl⟩
  | _ => simp [accessesField]

/-- An access as the table of types knows it is one as the rules know it. -/
theorem accessesField_iff_typeOf {shader : Shader} {version : Version}
    (checked : shader.check version = .ok types) {one : Check.Context.Placed}
    (listed : one ∈ shader.placed version) {part : Expr} (isPart : part ∈ one.e.subexprs)
    {struct field : String} :
    accessesField types struct field part = true ↔
      ∃ id base, part = .member id base field ∧ one.ctx.typeOf base = some (.struct struct) := by
  rw [accessesField_eq_true_iff]
  refine exists_congr fun id => exists_congr fun base => and_congr_right ?_
  rintro rfl
  rw [(Shader.types_eq_typeOf checked listed
    (Expr.mem_subexprs_of_child List.mem_cons_self isPart)).2]

end Reduction
end Whittle
