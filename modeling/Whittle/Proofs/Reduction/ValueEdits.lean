import Whittle.Proofs.Identifiers.Edits
import Whittle.Proofs.Reduction.ValueReplacement

namespace Whittle
namespace Reduction

/-!
# Edits of values keep a shader valid

A value becomes the constant of its type, one of its operands, or what an
identity leaves as it is.  Each of these has the type of the value, so each fits
in its place.
-/

variable {shader : Shader} {version : Version} {types : TypeTable}

theorem eq_of_haveSameType {first second : Expr} (same : haveSameType types first second = true) :
    types[first.id]? = types[second.id]? :=
  beq_iff_eq.mp (Bool.and_eq_true_iff.mp same).2

theorem bare_mem_subexprs (e : Expr) : e.bare ∈ e.subexprs := by
  induction e using Expr.children_induction with
  | step e inductionHypothesis =>
      cases e with
      | paren id inner =>
          exact List.mem_cons_of_mem _ (inductionHypothesis inner List.mem_cons_self)
      | _ => exact Expr.self_mem_subexprs _

theorem eq_or_eq_of_neutralized? {op : BinaryOp} {lhs rhs kept : Expr}
    (found : neutralized? op lhs rhs = some kept) : kept = lhs ∨ kept = rhs := by
  have either : ∀ first second : Bool,
      (if first then some lhs else if second then some rhs else none) = some kept →
        kept = lhs ∨ kept = rhs := by
    intro first second chosen
    cases first <;> cases second <;> cases chosen
    · exact Or.inr rfl
    · exact Or.inl rfl
    · exact Or.inl rfl
  have only : ∀ first : Bool, (if first then some lhs else none) = some kept →
      kept = lhs ∨ kept = rhs := by
    intro first chosen
    cases first <;> cases chosen
    exact Or.inl rfl
  cases op with
  | add | mul | and | or => exact either _ _ found
  | sub | div => exact only _ found
  | rem | lt | gt | le | ge | eq | ne | xor => cases found

/-- What an expression leaves as it is is a part of it. -/
theorem mem_subexprs_of_identityPart? {e kept : Expr} (found : identityPart? e = some kept) :
    kept ∈ e.subexprs := by
  cases e with
  | int | float | bool | var | assign | call | member | index => cases found
  | paren id inner =>
      simp only [identityPart?, Option.ite_none_right_eq_some, Option.some.injEq] at found
      rw [← found.2]
      exact Expr.mem_subexprs_of_mem_children List.mem_cons_self
  | ternary id cond whenTrue whenFalse =>
      refine Expr.mem_subexprs_of_mem_children ?_
      simp only [identityPart?] at found
      split at found
      · cases found
        exact List.mem_cons_of_mem _ List.mem_cons_self
      · split at found
        · cases found
          exact List.mem_cons_of_mem _ (List.mem_cons_of_mem _ List.mem_cons_self)
        · cases found
  | binary id op lhs rhs =>
      refine Expr.mem_subexprs_of_mem_children (List.mem_pair.mpr ?_)
      exact eq_or_eq_of_neutralized? found
  | unary id op operand =>
      simp only [identityPart?, doublyNegated?] at found
      split at found
      · rename_i innerId inner kept' isBare
        simp only [Option.ite_none_right_eq_some, Option.some.injEq] at found
        rw [← found.2]
        have isPart := bare_mem_subexprs operand
        rw [isBare] at isPart
        exact List.mem_cons_of_mem _ (Expr.mem_subexprs_of_child List.mem_cons_self isPart)
      · cases found

theorem eq_of_unary_eq_ok {op : UnaryOp} {operand ty : Ty} (typed : Check.unary op operand = .ok ty) :
    ty = operand := by
  unfold Check.unary at typed
  split at typed
  · split at typed
    · rename_i isBool
      rw [beq_iff_eq.mp isBool]
      exact (Except.ok.inj typed).symm
    · cases typed
  · split at typed
    · exact (Except.ok.inj typed).symm
    · cases typed

theorem ofKeyword?_of_marker {callee : String} {marker : Marker}
    (isMarker : Marker.ofName? callee = some marker) : Ty.ofKeyword? callee = none := by
  have named : marker.name = callee := by
    have fits := List.find?_some isMarker
    exact beq_iff_eq.mp fits
  subst named
  cases marker <;> rfl

/-- A marker that stands for its first argument has the type of that. -/
theorem exists_cons_of_callMarker {marker : Marker} {args : List Ty} {ty : Ty}
    (transparent : marker.isTransparent = true) (typed : Check.callMarker marker args = .ok ty) :
    ∃ rest, args = ty :: rest := by
  cases marker with
  | dead | wrappedIfTrue | wrappedIfFalse | wrappedLoop | switch => cases transparent
  | fuzzed =>
      match args with
      | [] | _ :: _ :: _ => cases typed
      | [arg] =>
          cases typed
          exact ⟨[], rfl⟩
  | identity =>
      match args with
      | [] | [_] | _ :: _ :: _ :: _ => cases typed
      | [first, second] =>
          simp only [Check.callMarker] at typed
          split at typed
          · cases typed
            exact ⟨[second], rfl⟩
          · cases typed

/-- The arguments of a call of a marker are those that the marker takes, unless a
struct has its name. -/
theorem callMarker_of_typeOf {ctx : Check.Context} {id : NodeId} {callee : String} {args : List Expr}
    {marker : Marker} {ty : Ty} (isMarker : Marker.ofName? callee = some marker)
    (unmarked : ∀ decl ∈ ctx.structs, Marker.ofName? decl.name = none)
    (typed : ctx.typeOf (.call id callee args) = some ty) :
    ∃ tys, ctx.typesOf args = some tys ∧ Check.callMarker marker tys = .ok ty := by
  rcases Check.Context.typeOf_call_eq_some_iff.mp typed with ⟨tys, areTypes, isTy⟩
  have noStruct : ctx.struct? callee = none := by
    refine List.find?_eq_none.mpr fun decl listed named => ?_
    have missing := unmarked decl listed
    rw [beq_iff_eq.mp named, isMarker] at missing
    cases missing
  refine ⟨tys, areTypes, ?_⟩
  rw [← isTy, Check.Context.call, ofKeyword?_of_marker isMarker, noStruct, isMarker]

/-- An operand that may replace an expression is a part of the same type. -/
theorem sameType_of_mem_promotable (checked : shader.check version = .ok types)
    (unmarked : ∀ decl ∈ shader.structs, Marker.ofName? decl.name = none) {e operand : Expr}
    (isExpr : e ∈ shader.exprs) (listed : operand ∈ promotable types shader e) :
    operand ∈ e.subexprs ∧ types[operand.id]? = types[e.id]? := by
  rcases Shader.mem_exprs_iff.mp isExpr with ⟨one, isPlaced, within⟩
  -- Where the types were not compared, the rules say that they are the same.
  have byRules : ∀ {child : Expr}, child ∈ e.subexprs →
      (∀ ty, one.ctx.typeOf e = some ty → one.ctx.typeOf child = some ty) →
        types[child.id]? = types[e.id]? := by
    intro child isPart same
    have typed := Shader.types_eq_typeOf checked isPlaced within
    rcases Option.isSome_iff_exists.mp typed.1 with ⟨ty, isTy⟩
    rw [(Shader.types_eq_typeOf checked isPlaced (Expr.mem_subexprs_trans isPart within)).2, typed.2,
      isTy, same ty isTy]
  cases e with
  | int | float | bool | var | assign | member | index | paren => cases listed
  | binary id op lhs rhs =>
      rcases List.mem_filter.mp listed with ⟨isOperand, same⟩
      exact ⟨Expr.mem_subexprs_of_mem_children isOperand, eq_of_haveSameType same⟩
  | ternary id cond whenTrue whenFalse =>
      rcases List.mem_filter.mp listed with ⟨isOperand, same⟩
      exact ⟨Expr.mem_subexprs_of_mem_children isOperand, eq_of_haveSameType same⟩
  | unary id op inner =>
      simp only [promotable] at listed
      split at listed
      · cases listed
      · rw [List.mem_singleton.mp listed]
        have isPart : inner ∈ (Expr.unary id op inner).subexprs :=
          Expr.mem_subexprs_of_mem_children List.mem_cons_self
        refine ⟨isPart, byRules isPart fun ty isTy => ?_⟩
        rcases Check.Context.typeOf_unary_eq_some_iff.mp isTy with ⟨_, innerTy, isInner, sameTy⟩
        rw [isInner, eq_of_unary_eq_ok sameTy]
  | call id callee args =>
      simp only [promotable] at listed
      split at listed
      · rename_i marker isMarker
        split at listed
        · rename_i transparent
          have isPart : operand ∈ (Expr.call id callee args).subexprs :=
            Expr.mem_subexprs_of_mem_children (List.mem_of_mem_take listed)
          refine ⟨isPart, byRules isPart fun ty isTy => ?_⟩
          rcases callMarker_of_typeOf isMarker (fun decl inScope =>
            unmarked decl (Shader.structs_subset_of_mem_placed isPlaced inScope)) isTy with
            ⟨tys, areTypes, typed⟩
          rcases exists_cons_of_callMarker transparent typed with ⟨rest, rfl⟩
          cases args with
          | nil => cases listed
          | cons first others =>
              rw [List.mem_singleton.mp listed]
              rcases Check.Context.typesOf_cons_eq_some_iff.mp areTypes with
                ⟨_, _, isFirst, _, split⟩
              rw [isFirst, (List.cons.inj split).1]
        · cases listed
      · split at listed
        · cases listed
        · rcases List.mem_filter.mp listed with ⟨isArg, same⟩
          exact ⟨Expr.mem_subexprs_of_mem_children isArg, eq_of_haveSameType same⟩

theorem typeOf_oneLiteral (ctx : Check.Context) (id : NodeId) (component : Scalar) :
    ctx.typeOf (oneLiteral id component) = some (.scalar component) := by
  cases component <;> rfl

/-- The constructor of a vector takes a single literal for all components. -/
theorem typeOf_vectorConstant (ctx : Check.Context) (id literal : NodeId) (component : Scalar)
    (width : Width) :
    ctx.typeOf (.call id (Ty.vector component width).text [oneLiteral literal component]) =
      some (.vector component width) := by
  refine Check.Context.typeOf_call_eq_some_iff.mpr ⟨[.scalar component], ?_, ?_⟩
  · rw [Check.Context.typesOf, typeOf_oneLiteral]
    rfl
  · cases component <;> cases width <;> rfl

theorem fits_oneLiteral (checked : shader.check version = .ok types) {value : Expr}
    {component : Scalar} (isTy : types[value.id]? = some (.scalar component)) :
    shader.Fits version types value.id (oneLiteral value.id component) := by
  constructor
  · intro one listed part isPart same
    rw [typeOf_oneLiteral, ← (Shader.types_eq_typeOf checked listed isPart).2, same, isTy]
  · intro one listed _ part isPart ty isTyOfPart
    have self : part = oneLiteral value.id component := by
      cases component <;> exact List.mem_singleton.mp isPart
    have sameId : (oneLiteral value.id component).id = value.id := by
      cases component <;> rfl
    rw [self, sameId, isTy] at isTyOfPart
    rw [self, typeOf_oneLiteral, isTyOfPart]

/-- The literal in a vector constant has an identifier that no expression had
before. -/
theorem fits_vectorConstant (checked : shader.check version = .ok types)
    (below : ∀ id ∈ shader.ids, id < shader.nextId) {value : Expr} {component : Scalar}
    {width : Width} (isTy : types[value.id]? = some (.vector component width)) :
    shader.Fits version types value.id
      (.call value.id (Ty.vector component width).text [oneLiteral shader.nextId component]) := by
  constructor
  · intro one listed part isPart same
    rw [typeOf_vectorConstant, ← (Shader.types_eq_typeOf checked listed isPart).2, same, isTy]
  · intro one listed _ part isPart ty isTyOfPart
    rcases List.mem_cons.mp isPart with rfl | within
    · rw [typeOf_vectorConstant, ← isTy]
      exact isTyOfPart
    · have self : part = oneLiteral shader.nextId component := by
        cases component <;> exact List.mem_singleton.mp within
      have sameId : (oneLiteral shader.nextId component).id = shader.nextId := by
        cases component <;> rfl
      rw [self, sameId] at isTyOfPart
      have isOld := below _ (Shader.mem_ids_of_getElem? checked isTyOfPart)
      exact absurd isOld (Nat.lt_irrefl _)

/-- Whether edits of the kind put an expression in the place of a value and do
nothing else. -/
def Kind.replacesValue : Kind → Bool
  | .exprToConstant | .compoundExprToSubExpr | .mutation => true
  | _ => false

theorem Kind.needsTypes_of_replacesValue {kind : Kind} (replaces : kind.replacesValue = true) :
    kind.needsTypes = true := by
  cases kind with
  | exprToConstant | compoundExprToSubExpr | mutation => rfl
  | _ => cases replaces

theorem isNumbered_of_check (checked : shader.check version = .ok types)
    (below : ∀ id ∈ shader.ids, id < shader.nextId) : shader.IsNumbered :=
  ⟨(Shader.isValid_iff.mp ⟨types, checked⟩).1, below⟩

theorem keepsTypes_constantReplacement (checked : shader.check version = .ok types)
    (below : ∀ id ∈ shader.ids, id < shader.nextId) {everywhere : Bool} {edit : ConstantReplacement}
    (listed : edit ∈ ConstantReplacement.find everywhere types shader) :
    shader.KeepsTypes version types (edit.apply shader) := by
  have numbered := (Edit.exprToConstant edit).isNumbered_apply (isNumbered_of_check checked below)
  rcases List.mem_filterMap.mp listed with ⟨value, isTarget, isEdit⟩
  have isValue := (List.mem_filter.mp isTarget).1
  unfold ConstantReplacement.ofExpr? at isEdit
  rcases Option.bind_eq_some_iff.mp isEdit with ⟨ty, isTy, isEdit⟩
  simp only [Option.ite_none_right_eq_some, Option.some.injEq] at isEdit
  rcases isEdit with ⟨_, rfl⟩
  change ((ConstantReplacement.mk value.id ty).apply shader).IsNumbered at numbered
  unfold ConstantReplacement.apply at numbered ⊢
  cases ty with
  | void | struct => exact Shader.keepsTypes_of_decls_eq checked rfl
  | scalar component =>
      exact Shader.keepsTypes_replaceExpr checked rfl isValue (fits_oneLiteral checked isTy) numbered
  | vector component width =>
      have sameDecls : shader.freshId.2.decls = shader.decls := rfl
      exact Shader.keepsTypes_replaceExpr checked sameDecls isValue
        (fits_vectorConstant checked below isTy) numbered

theorem keepsTypes_operandPromotion (checked : shader.check version = .ok types)
    (below : ∀ id ∈ shader.ids, id < shader.nextId)
    (unmarked : ∀ decl ∈ shader.structs, Marker.ofName? decl.name = none) {everywhere : Bool}
    {edit : OperandPromotion} (listed : edit ∈ OperandPromotion.find everywhere types shader) :
    shader.KeepsTypes version types (edit.apply shader) := by
  have numbered :=
    (Edit.compoundExprToSubExpr edit).isNumbered_apply (isNumbered_of_check checked below)
  rcases List.mem_flatMap.mp listed with ⟨value, isTarget, isEdit⟩
  have isValue := (List.mem_filter.mp isTarget).1
  unfold OperandPromotion.ofExpr at isEdit
  split at isEdit
  · rcases List.mem_map.mp isEdit with ⟨operand, isOperand, rfl⟩
    have same := sameType_of_mem_promotable checked unmarked
      (Shader.mem_exprs_of_mem_rvalues isValue) isOperand
    exact Shader.keepsTypes_promoteExpr checked isValue same.1 same.2 numbered
  · cases isEdit

theorem keepsTypes_identityRemoval (checked : shader.check version = .ok types)
    (below : ∀ id ∈ shader.ids, id < shader.nextId) {edit : IdentityRemoval}
    (listed : edit ∈ IdentityRemoval.find types shader) :
    shader.KeepsTypes version types (edit.apply shader) := by
  have numbered := (Edit.mutation edit).isNumbered_apply (isNumbered_of_check checked below)
  rcases List.mem_filterMap.mp listed with ⟨value, isValue, isEdit⟩
  rcases Option.map_eq_some_iff.mp isEdit with ⟨kept, isSimpler, rfl⟩
  rcases Option.filter_eq_some_iff.mp isSimpler with ⟨isPart, same⟩
  exact Shader.keepsTypes_promoteExpr checked isValue (mem_subexprs_of_identityPart? isPart)
    (eq_of_haveSameType same) numbered

/-- Every edit that is found among those that replace values leaves a valid shader
valid, and the expressions that remain keep their types.  Identifiers must be
below the next one, as they are in every shader that was read and edited, and no
struct may have the name of a marker, since a call of it would be a call of its
constructor. -/
theorem exists_check_apply_of_replacesValue {kind : Kind} (replaces : kind.replacesValue = true)
    (checked : shader.check version = .ok types) (below : ∀ id ∈ shader.ids, id < shader.nextId)
    (unmarked : ∀ decl ∈ shader.structs, Marker.ofName? decl.name = none) {everywhere : Bool}
    {edits : List Edit} (found : kind.find ⟨version, everywhere⟩ shader = .ok edits) {edit : Edit}
    (listed : edit ∈ edits) :
    ∃ types', (edit.apply shader).check version = .ok types' ∧
      ∀ e ∈ shader.exprs, ∀ e' ∈ (edit.apply shader).exprs, e'.id = e.id →
        types'[e'.id]? = types[e.id]? := by
  rw [Kind.find, if_pos (Kind.needsTypes_of_replacesValue replaces), checked] at found
  cases found
  cases kind with
  | exprToConstant =>
      rcases List.mem_map.mp listed with ⟨edit, isFound, rfl⟩
      exact keepsTypes_constantReplacement checked below isFound
  | compoundExprToSubExpr =>
      rcases List.mem_map.mp listed with ⟨edit, isFound, rfl⟩
      exact keepsTypes_operandPromotion checked below unmarked isFound
  | mutation =>
      rcases List.mem_map.mp listed with ⟨edit, isFound, rfl⟩
      exact keepsTypes_identityRemoval checked below isFound
  | _ => cases replaces

/-- The shader `void main() { int t = 1 + 2; }`. -/
def adding : Shader :=
  .ofDecls .essl100 [.function ⟨.unnumbered, .void, "main", [], ⟨.unnumbered,
    [.decl .unnumbered ⟨.unnumbered, none, .int, "t", some (.binary .unnumbered .add
      (.int .unnumbered 1) (.int .unnumbered 2))⟩]⟩⟩]

/-- The sum becomes its first operand, and what is left is valid. -/
theorem exists_check_apply_adding :
    ∃ types, adding.check .essl100 = .ok types ∧
      Kind.find .compoundExprToSubExpr ⟨.essl100, true⟩ adding =
        .ok [.compoundExprToSubExpr ⟨4, 5⟩, .compoundExprToSubExpr ⟨4, 6⟩] ∧
      ∃ types', ((Edit.compoundExprToSubExpr ⟨4, 5⟩).apply adding).check .essl100 = .ok types' ∧
        ∀ e ∈ adding.exprs, ∀ e' ∈ ((Edit.compoundExprToSubExpr ⟨4, 5⟩).apply adding).exprs,
          e'.id = e.id → types'[e'.id]? = types[e.id]? := by
  have isValid : (adding.check .essl100).toOption.isSome = true := by decide
  have found : Kind.find .compoundExprToSubExpr ⟨.essl100, true⟩ adding =
      .ok [.compoundExprToSubExpr ⟨4, 5⟩, .compoundExprToSubExpr ⟨4, 6⟩] := by
    rfl
  cases checked : adding.check .essl100 with
  | error problems =>
      rw [checked] at isValid
      cases isValid
  | ok types =>
      have below : ∀ id ∈ adding.ids, id < adding.nextId := by decide
      have unmarked : ∀ decl ∈ adding.structs, Marker.ofName? decl.name = none :=
        List.forall_mem_nil _
      have replaces : Kind.replacesValue .compoundExprToSubExpr = true := rfl
      have kept := exists_check_apply_of_replacesValue replaces checked below unmarked found
        List.mem_cons_self
      exact ⟨types, rfl, found, kept⟩

end Reduction
end Whittle
