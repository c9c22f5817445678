import Whittle.Proofs.Identifiers.Exchange
import Whittle.Proofs.Typing.Congruence
import Whittle.Reduction.Site

namespace Whittle

/-!
# Changing what is evaluated for its value

What stands around a value depends on the type of the value alone.  A location
also has to stay a location, so within one only the operands of an index can be
changed.
-/

open Reduction (values valuesWithin valuesOfList)

/-- The expressions differ in one part that is evaluated for its value, and there
as `R` says.  If they are `written`, the part lies within the location. -/
inductive Expr.AtValue (R : Expr → Expr → Prop) : Bool → Expr → Expr → Prop where
  | here {e e' : Expr} (changed : R e e') : AtValue R false e e'
  | unary {id : NodeId} {op : UnaryOp} {operand operand' : Expr}
      (inner : AtValue R op.writesOperand operand operand') :
      AtValue R false (.unary id op operand) (.unary id op operand')
  | binaryLeft {id : NodeId} {op : BinaryOp} {lhs lhs' rhs : Expr}
      (inner : AtValue R false lhs lhs') :
      AtValue R false (.binary id op lhs rhs) (.binary id op lhs' rhs)
  | binaryRight {id : NodeId} {op : BinaryOp} {lhs rhs rhs' : Expr}
      (inner : AtValue R false rhs rhs') :
      AtValue R false (.binary id op lhs rhs) (.binary id op lhs rhs')
  | assignTarget {id : NodeId} {op : AssignOp} {target target' value : Expr}
      (inner : AtValue R true target target') :
      AtValue R false (.assign id op target value) (.assign id op target' value)
  | assignValue {id : NodeId} {op : AssignOp} {target value value' : Expr}
      (inner : AtValue R false value value') :
      AtValue R false (.assign id op target value) (.assign id op target value')
  | ternaryCond {id : NodeId} {cond cond' whenTrue whenFalse : Expr}
      (inner : AtValue R false cond cond') :
      AtValue R false (.ternary id cond whenTrue whenFalse) (.ternary id cond' whenTrue whenFalse)
  | ternaryTrue {id : NodeId} {cond whenTrue whenTrue' whenFalse : Expr}
      (inner : AtValue R false whenTrue whenTrue') :
      AtValue R false (.ternary id cond whenTrue whenFalse) (.ternary id cond whenTrue' whenFalse)
  | ternaryFalse {id : NodeId} {cond whenTrue whenFalse whenFalse' : Expr}
      (inner : AtValue R false whenFalse whenFalse') :
      AtValue R false (.ternary id cond whenTrue whenFalse) (.ternary id cond whenTrue whenFalse')
  | callArg {id : NodeId} {callee : String} {before : List Expr} {arg arg' : Expr}
      {behind : List Expr} (inner : AtValue R false arg arg') :
      AtValue R false (.call id callee (before ++ arg :: behind))
        (.call id callee (before ++ arg' :: behind))
  | memberBase {written : Bool} {id : NodeId} {base base' : Expr} {field : String}
      (inner : AtValue R written base base') :
      AtValue R written (.member id base field) (.member id base' field)
  | indexBase {written : Bool} {id : NodeId} {base base' position : Expr}
      (inner : AtValue R written base base') :
      AtValue R written (.index id base position) (.index id base' position)
  | indexPosition {written : Bool} {id : NodeId} {base position position' : Expr}
      (inner : AtValue R false position position') :
      AtValue R written (.index id base position) (.index id base position')
  | paren {written : Bool} {id : NodeId} {inner inner' : Expr}
      (within : AtValue R written inner inner') :
      AtValue R written (.paren id inner) (.paren id inner')

theorem valuesOfList_eq_flatMap (es : List Expr) : valuesOfList es = es.flatMap values := by
  induction es with
  | nil => rfl
  | cons e rest ih => rw [valuesOfList, ih, List.flatMap_cons]

/-- The values in an expression are parts of it, and those within a location are
parts of its operands. -/
theorem Expr.values_subset (e : Expr) :
    values e ⊆ e.subexprs ∧ valuesWithin e ⊆ e.children.flatMap subexprs := by
  induction e using Expr.children_induction with
  | step e inductionHypothesis =>
      have reads := fun child listed => (inductionHypothesis child listed).1
      have writes : ∀ child ∈ e.children, valuesWithin child ⊆ child.subexprs := by
        intro child listed
        rw [subexprs_eq_cons]
        exact List.subset_cons_of_subset _ (inductionHypothesis child listed).2
      cases e with
      | int | float | bool | var => exact ⟨List.Subset.refl _, List.nil_subset _⟩
      | call id callee args =>
          refine ⟨List.cons_subset_cons _ ?_, List.nil_subset _⟩
          rw [valuesOfList_eq_flatMap, subexprsOfList_eq_flatMap]
          intro value isValue
          rcases List.mem_flatMap.mp isValue with ⟨arg, isArg, inner⟩
          exact List.mem_flatMap.mpr ⟨arg, isArg, reads arg isArg inner⟩
      | _ =>
          simp only [children, List.forall_mem_cons] at reads writes
          simp only [children, List.flatMap_cons, List.flatMap_nil, values, valuesWithin, subexprs]
          grind

/-- The identifiers of the values in an expression, or of those within a
location. -/
def Expr.valueIds (written : Bool) (e : Expr) : List NodeId :=
  (bif written then valuesWithin e else values e).map Expr.id

theorem Expr.valueIds_subset (written : Bool) (e : Expr) : e.valueIds written ⊆ e.ids := by
  rw [← map_id_subexprs]
  refine List.map_subset _ ?_
  cases written with
  | false => exact e.values_subset.1
  | true =>
      rw [subexprs_eq_cons]
      exact List.subset_cons_of_subset _ e.values_subset.2

/-- The identifier of a value.  A location is none. -/
def Expr.ownValueId (written : Bool) (id : NodeId) : List NodeId :=
  bif written then [] else [id]

theorem Expr.ownValueId_subset (written : Bool) (id : NodeId) : ownValueId written id ⊆ [id] := by
  cases written with
  | false => exact List.Subset.refl _
  | true => exact List.nil_subset _

theorem Expr.valueIds_unary (id : NodeId) (op : UnaryOp) (operand : Expr) :
    (unary id op operand).valueIds false = id :: operand.valueIds op.writesOperand := by
  cases op <;> rfl

theorem Expr.valueIds_member (written : Bool) (id : NodeId) (base : Expr) (field : String) :
    (member id base field).valueIds written = ownValueId written id ++ base.valueIds written := by
  cases written <;> rfl

theorem Expr.valueIds_paren (written : Bool) (id : NodeId) (inner : Expr) :
    (paren id inner).valueIds written = ownValueId written id ++ inner.valueIds written := by
  cases written <;> rfl

theorem Expr.valueIds_index (written : Bool) (id : NodeId) (base position : Expr) :
    (index id base position).valueIds written =
      ownValueId written id ++ (base.valueIds written ++ position.valueIds false) := by
  cases written with
  | false => exact congrArg (id :: ·) List.map_append
  | true => exact List.map_append

theorem Expr.valueIds_binary (id : NodeId) (op : BinaryOp) (lhs rhs : Expr) :
    (binary id op lhs rhs).valueIds false = id :: (lhs.valueIds false ++ rhs.valueIds false) :=
  congrArg (id :: ·) List.map_append

theorem Expr.valueIds_assign (id : NodeId) (op : AssignOp) (target value : Expr) :
    (assign id op target value).valueIds false =
      id :: (target.valueIds true ++ value.valueIds false) :=
  congrArg (id :: ·) List.map_append

theorem Expr.valueIds_ternary (id : NodeId) (cond whenTrue whenFalse : Expr) :
    (ternary id cond whenTrue whenFalse).valueIds false =
      id :: (cond.valueIds false ++ (whenTrue.valueIds false ++ whenFalse.valueIds false)) := by
  refine congrArg (id :: ·) ?_
  rw [List.map_append, List.map_append, List.append_assoc]
  rfl

theorem Expr.valueIds_call (id : NodeId) (callee : String) (args : List Expr) :
    (call id callee args).valueIds false = id :: args.flatMap (valueIds false) := by
  refine congrArg (id :: ·) ?_
  rw [valuesOfList_eq_flatMap, List.map_flatMap]
  rfl

/-- What stands in the middle of a list without repetitions is read there if it is
read at all. -/
private theorem mem_middle (front middle behind : List NodeId) {target : NodeId}
    {frontReads reads behindReads : List NodeId} (distinct : (front ++ (middle ++ behind)).Nodup)
    (within : target ∈ middle) (listed : target ∈ frontReads ++ (reads ++ behindReads))
    (isFront : frontReads ⊆ front) (isBehind : behindReads ⊆ behind) :
    middle.Nodup ∧ target ∈ reads := by
  rw [List.nodup_append, List.nodup_append] at distinct
  rcases distinct with ⟨_, ⟨isDistinct, _, apart⟩, apartFront⟩
  refine ⟨isDistinct, ?_⟩
  rcases List.mem_append.mp listed with isRead | isRead
  · exact absurd rfl (apartFront target (isFront isRead) target (List.mem_append_left _ within))
  · rcases List.mem_append.mp isRead with isRead | isRead
    · exact isRead
    · exact absurd rfl (apart target within target (isBehind isRead))

private theorem mem_last (front last : List NodeId) {target : NodeId}
    {frontReads reads : List NodeId} (distinct : (front ++ last).Nodup) (within : target ∈ last)
    (listed : target ∈ frontReads ++ reads) (isFront : frontReads ⊆ front) :
    last.Nodup ∧ target ∈ reads := by
  rw [← List.append_nil reads] at listed
  rw [← List.append_nil last] at distinct
  exact mem_middle front last [] distinct within listed isFront (List.Subset.refl _)

private theorem append_subset_append {first first' second second' : List NodeId}
    (isFirst : first ⊆ first') (isSecond : second ⊆ second') :
    first ++ second ⊆ first' ++ second' :=
  List.append_subset.mpr ⟨List.subset_append_of_subset_left _ isFirst,
    List.subset_append_of_subset_right _ isSecond⟩

private theorem flatMap_valueIds_subset (es : List Expr) :
    es.flatMap (Expr.valueIds false) ⊆ Expr.idsOfList es := by
  induction es with
  | nil => exact List.Subset.refl _
  | cons e rest inductionHypothesis =>
      exact append_subset_append (e.valueIds_subset false) inductionHypothesis

/-- A change of a value by its identifier is one in the place of a value, since
no other part has the identifier. -/
theorem Expr.Inside.atValue {target : NodeId} {change : Expr → Expr} {e e' : Expr}
    (differ : Inside (ChangeOf target change) e e') (distinct : e.ids.Nodup) (written : Bool)
    (listed : target ∈ e.valueIds written) : AtValue (ChangeOf target change) written e e' := by
  have mem_ids : ∀ {e e' : Expr}, Inside (ChangeOf target change) e e' → target ∈ e.ids := by
    intro e e' differ
    rcases differ.exchange with ⟨part, part', changed, isPart, _⟩
    rw [← map_id_subexprs, ← changed.1]
    exact List.mem_map_of_mem isPart
  have self := fun id : NodeId => List.Subset.refl [id]
  have part := fun e : Expr => e.valueIds_subset false
  induction differ generalizing written with
  | @here e e' changed =>
      cases written with
      | false => exact .here changed
      | true =>
          rw [ids_eq_cons, changed.1, List.nodup_cons] at distinct
          refine absurd ?_ distinct.1
          rcases List.mem_map.mp listed with ⟨value, isValue, same⟩
          rcases List.mem_flatMap.mp (e.values_subset.2 isValue) with ⟨child, isChild, isPart⟩
          rw [← same]
          refine List.mem_flatMap.mpr ⟨child, isChild, ?_⟩
          rw [← map_id_subexprs]
          exact List.mem_map_of_mem isPart
  | @memberBase id base base' field inner inductionHypothesis =>
      rw [valueIds_member] at listed
      have reads := mem_last [id] base.ids distinct (mem_ids inner) listed
        (ownValueId_subset written id)
      exact .memberBase (inductionHypothesis reads.1 _ reads.2)
  | @paren id inner inner' within inductionHypothesis =>
      rw [valueIds_paren] at listed
      have reads := mem_last [id] inner.ids distinct (mem_ids within) listed
        (ownValueId_subset written id)
      exact .paren (inductionHypothesis reads.1 _ reads.2)
  | @indexBase id base base' position inner inductionHypothesis =>
      rw [valueIds_index] at listed
      have reads := mem_middle [id] base.ids position.ids distinct (mem_ids inner) listed
        (ownValueId_subset written id) (part position)
      exact .indexBase (inductionHypothesis reads.1 _ reads.2)
  | @indexPosition id base position position' inner inductionHypothesis =>
      rw [valueIds_index, ← List.append_assoc] at listed
      have reads := mem_last ([id] ++ base.ids) position.ids distinct (mem_ids inner) listed
        (append_subset_append (ownValueId_subset written id) (base.valueIds_subset written))
      exact .indexPosition (inductionHypothesis reads.1 _ reads.2)
  | @unary id op operand operand' inner inductionHypothesis =>
      cases written with
      | true => cases listed
      | false =>
          rw [valueIds_unary] at listed
          have reads := mem_last [id] operand.ids distinct (mem_ids inner) listed (self id)
          exact .unary (inductionHypothesis reads.1 _ reads.2)
  | @binaryLeft id op lhs lhs' rhs inner inductionHypothesis =>
      cases written with
      | true => cases listed
      | false =>
          rw [valueIds_binary] at listed
          have reads := mem_middle [id] lhs.ids rhs.ids distinct (mem_ids inner) listed (self id)
            (part rhs)
          exact .binaryLeft (inductionHypothesis reads.1 _ reads.2)
  | @binaryRight id op lhs rhs rhs' inner inductionHypothesis =>
      cases written with
      | true => cases listed
      | false =>
          rw [valueIds_binary] at listed
          have reads := mem_last ([id] ++ lhs.ids) rhs.ids distinct (mem_ids inner) listed
            (append_subset_append (self id) (part lhs))
          exact .binaryRight (inductionHypothesis reads.1 _ reads.2)
  | @assignTarget id op target target' value inner inductionHypothesis =>
      cases written with
      | true => cases listed
      | false =>
          rw [valueIds_assign] at listed
          have reads := mem_middle [id] target.ids value.ids distinct (mem_ids inner) listed
            (self id) (part value)
          exact .assignTarget (inductionHypothesis reads.1 _ reads.2)
  | @assignValue id op target value value' inner inductionHypothesis =>
      cases written with
      | true => cases listed
      | false =>
          rw [valueIds_assign] at listed
          have reads := mem_last ([id] ++ target.ids) value.ids distinct (mem_ids inner) listed
            (append_subset_append (self id) (target.valueIds_subset true))
          exact .assignValue (inductionHypothesis reads.1 _ reads.2)
  | @ternaryCond id cond cond' whenTrue whenFalse inner inductionHypothesis =>
      cases written with
      | true => cases listed
      | false =>
          rw [valueIds_ternary] at listed
          have reads := mem_middle [id] cond.ids _ distinct (mem_ids inner) listed (self id)
            (append_subset_append (part whenTrue) (part whenFalse))
          exact .ternaryCond (inductionHypothesis reads.1 _ reads.2)
  | @ternaryTrue id cond whenTrue whenTrue' whenFalse inner inductionHypothesis =>
      cases written with
      | true => cases listed
      | false =>
          rw [valueIds_ternary] at listed
          have reads := mem_middle ([id] ++ cond.ids) whenTrue.ids whenFalse.ids distinct
            (mem_ids inner) listed (append_subset_append (self id) (part cond)) (part whenFalse)
          exact .ternaryTrue (inductionHypothesis reads.1 _ reads.2)
  | @ternaryFalse id cond whenTrue whenFalse whenFalse' inner inductionHypothesis =>
      cases written with
      | true => cases listed
      | false =>
          rw [valueIds_ternary, ← List.append_assoc] at listed
          rw [ids, ← List.append_assoc] at distinct
          have reads := mem_last ([id] ++ (cond.ids ++ whenTrue.ids)) whenFalse.ids distinct
            (mem_ids inner) listed
            (append_subset_append (self id) (append_subset_append (part cond) (part whenTrue)))
          exact .ternaryFalse (inductionHypothesis reads.1 _ reads.2)
  | @callArg id callee before arg arg' behind inner inductionHypothesis =>
      cases written with
      | true => cases listed
      | false =>
          rw [valueIds_call, List.flatMap_append] at listed
          rw [ids, idsOfList_append] at distinct
          have reads := mem_middle ([id] ++ Expr.idsOfList before) arg.ids (Expr.idsOfList behind)
            distinct (mem_ids inner) listed
            (append_subset_append (self id) (flatMap_valueIds_subset before))
            (flatMap_valueIds_subset behind)
          exact .callArg (inductionHypothesis reads.1 _ reads.2)

/-! ## Types around a changed value -/

namespace Check
namespace Context

variable {ctx : Context} {R : Expr → Expr → Prop}

theorem typesOf_at_member (before : List Expr) {arg arg' : Expr} (behind : List Expr)
    (same : ctx.typeOf arg' = ctx.typeOf arg) :
    ctx.typesOf (before ++ arg' :: behind) = ctx.typesOf (before ++ arg :: behind) := by
  induction before with
  | nil => rw [List.nil_append, List.nil_append, typesOf, typesOf, same]
  | cons e rest inductionHypothesis =>
      rw [List.cons_append, List.cons_append, typesOf, typesOf, inductionHypothesis]

/-- Each part of the second expression has the identifier and the type of a part
of the first one, or belongs to what `R` put in the place of one. -/
def KeepsParts (ctx : Context) (R : Expr → Expr → Prop) (e e' : Expr) : Prop :=
  ∀ part' ∈ e'.subexprs,
    (∃ part ∈ e.subexprs, part'.id = part.id ∧ ctx.typeOf part' = ctx.typeOf part) ∨
      ∃ part ∈ e.subexprs, ∃ changed, R part changed ∧ part' ∈ changed.subexprs

theorem KeepsParts.of_child {e e' child child' : Expr} (front behind : List Expr)
    (inner : ctx.KeepsParts R child child') (children : e.children = front ++ child :: behind)
    (children' : e'.children = front ++ child' :: behind) (sameId : e'.id = e.id)
    (sameTy : ctx.typeOf e' = ctx.typeOf e) : ctx.KeepsParts R e e' := by
  have within : ∀ other ∈ e.children, ∀ part ∈ other.subexprs, part ∈ e.subexprs := by
    intro other isChild part listed
    rw [Expr.subexprs_eq_cons]
    exact List.mem_cons_of_mem _ (List.mem_flatMap.mpr ⟨other, isChild, listed⟩)
  have isChild : child ∈ e.children := by
    rw [children]
    exact List.mem_append_right _ List.mem_cons_self
  intro part' listed
  rw [Expr.subexprs_eq_cons, children'] at listed
  rcases List.mem_cons.mp listed with rfl | listed
  · exact .inl ⟨e, e.self_mem_subexprs, sameId, sameTy⟩
  · rcases List.mem_flatMap.mp listed with ⟨other, isOther, isPart⟩
    rcases List.mem_append.mp isOther with isFront | isOther
    · refine .inl ⟨part', within other ?_ part' isPart, rfl, rfl⟩
      rw [children]
      exact List.mem_append_left _ isFront
    · rcases List.mem_cons.mp isOther with rfl | isBehind
      · rcases inner part' isPart with ⟨part, isPart, same⟩ | ⟨part, isPart, changed⟩
        · exact .inl ⟨part, within child isChild part isPart, same⟩
        · exact .inr ⟨part, within child isChild part isPart, changed⟩
      · refine .inl ⟨part', within other ?_ part' isPart, rfl, rfl⟩
        rw [children]
        exact List.mem_append_right _ (List.mem_cons_of_mem _ isBehind)

/-- What remains the same of an expression when a value in it, or within it as a
location, is changed. -/
structure Unmoved (ctx : Context) (R : Expr → Expr → Prop) (written : Bool) (e e' : Expr) :
    Prop where
  typeOf : ctx.typeOf e' = ctx.typeOf e
  mayWrite : written = true → ctx.mayWrite e' = ctx.mayWrite e
  parts : ctx.KeepsParts R e e'

/-- What stands around a value keeps its type if the value does, and a location
around it stays one. -/
theorem unmoved_of_atValue {written : Bool} {e e' : Expr} (differ : Expr.AtValue R written e e')
    (same : ∀ part ∈ e.subexprs, ∀ part', R part part' → ctx.typeOf part' = ctx.typeOf part) :
    ctx.Unmoved R written e e' := by
  have noLocation : ∀ {P : Prop}, false = true → P := fun impossible => nomatch impossible
  induction differ with
  | @here e e' changed =>
      exact ⟨same e e.self_mem_subexprs e' changed, noLocation, fun part' listed =>
        .inr ⟨e, e.self_mem_subexprs, e', changed, listed⟩⟩
  | @unary id op operand operand' _ inductionHypothesis =>
      have inner := inductionHypothesis fun part listed => same part (List.mem_cons_of_mem _ listed)
      have sameTy : ctx.typeOf (.unary id op operand') = ctx.typeOf (.unary id op operand) := by
        rw [Context.typeOf, Context.typeOf, inner.typeOf]
        cases writes : op.writesOperand with
        | false => rfl
        | true => rw [inner.mayWrite writes]
      exact ⟨sameTy, noLocation, inner.parts.of_child [] [] rfl rfl rfl sameTy⟩
  | @binaryLeft id op lhs lhs' rhs _ inductionHypothesis =>
      have inner := inductionHypothesis fun part listed =>
        same part (List.mem_cons_of_mem _ (List.mem_append_left _ listed))
      have sameTy : ctx.typeOf (.binary id op lhs' rhs) = ctx.typeOf (.binary id op lhs rhs) := by
        rw [Context.typeOf, Context.typeOf, inner.typeOf]
      exact ⟨sameTy, noLocation, inner.parts.of_child [] [rhs] rfl rfl rfl sameTy⟩
  | @binaryRight id op lhs rhs rhs' _ inductionHypothesis =>
      have inner := inductionHypothesis fun part listed =>
        same part (List.mem_cons_of_mem _ (List.mem_append_right _ listed))
      have sameTy : ctx.typeOf (.binary id op lhs rhs') = ctx.typeOf (.binary id op lhs rhs) := by
        rw [Context.typeOf, Context.typeOf, inner.typeOf]
      exact ⟨sameTy, noLocation, inner.parts.of_child [lhs] [] rfl rfl rfl sameTy⟩
  | @assignTarget id op target target' value _ inductionHypothesis =>
      have inner := inductionHypothesis fun part listed =>
        same part (List.mem_cons_of_mem _ (List.mem_append_left _ listed))
      have sameTy : ctx.typeOf (.assign id op target' value) =
          ctx.typeOf (.assign id op target value) := by
        rw [Context.typeOf, Context.typeOf, inner.typeOf, inner.mayWrite rfl]
      exact ⟨sameTy, noLocation, inner.parts.of_child [] [value] rfl rfl rfl sameTy⟩
  | @assignValue id op target value value' _ inductionHypothesis =>
      have inner := inductionHypothesis fun part listed =>
        same part (List.mem_cons_of_mem _ (List.mem_append_right _ listed))
      have sameTy : ctx.typeOf (.assign id op target value') =
          ctx.typeOf (.assign id op target value) := by
        rw [Context.typeOf, Context.typeOf, inner.typeOf]
      exact ⟨sameTy, noLocation, inner.parts.of_child [target] [] rfl rfl rfl sameTy⟩
  | @ternaryCond id cond cond' whenTrue whenFalse _ inductionHypothesis =>
      have inner := inductionHypothesis fun part listed =>
        same part (List.mem_cons_of_mem _ (List.mem_append_left _ (List.mem_append_left _ listed)))
      have sameTy : ctx.typeOf (.ternary id cond' whenTrue whenFalse) =
          ctx.typeOf (.ternary id cond whenTrue whenFalse) := by
        rw [Context.typeOf, Context.typeOf, inner.typeOf]
      exact ⟨sameTy, noLocation,
        inner.parts.of_child [] [whenTrue, whenFalse] rfl rfl rfl sameTy⟩
  | @ternaryTrue id cond whenTrue whenTrue' whenFalse _ inductionHypothesis =>
      have inner := inductionHypothesis fun part listed =>
        same part (List.mem_cons_of_mem _ (List.mem_append_left _ (List.mem_append_right _ listed)))
      have sameTy : ctx.typeOf (.ternary id cond whenTrue' whenFalse) =
          ctx.typeOf (.ternary id cond whenTrue whenFalse) := by
        rw [Context.typeOf, Context.typeOf, inner.typeOf]
      exact ⟨sameTy, noLocation, inner.parts.of_child [cond] [whenFalse] rfl rfl rfl sameTy⟩
  | @ternaryFalse id cond whenTrue whenFalse whenFalse' _ inductionHypothesis =>
      have inner := inductionHypothesis fun part listed =>
        same part (List.mem_cons_of_mem _ (List.mem_append_right _ listed))
      have sameTy : ctx.typeOf (.ternary id cond whenTrue whenFalse') =
          ctx.typeOf (.ternary id cond whenTrue whenFalse) := by
        rw [Context.typeOf, Context.typeOf, inner.typeOf]
      exact ⟨sameTy, noLocation, inner.parts.of_child [cond, whenTrue] [] rfl rfl rfl sameTy⟩
  | @callArg id callee before arg arg' behind _ inductionHypothesis =>
      have inner := inductionHypothesis fun part listed => same part (by
        rw [Expr.subexprs, Expr.subexprsOfList_eq_flatMap]
        refine List.mem_cons_of_mem _ (List.mem_flatMap.mpr ⟨arg, ?_, listed⟩)
        exact List.mem_append_right _ List.mem_cons_self)
      have sameTy : ctx.typeOf (.call id callee (before ++ arg' :: behind)) =
          ctx.typeOf (.call id callee (before ++ arg :: behind)) := by
        rw [Context.typeOf, Context.typeOf, typesOf_at_member before behind inner.typeOf]
      exact ⟨sameTy, noLocation, inner.parts.of_child before behind rfl rfl rfl sameTy⟩
  | @memberBase written id base base' field _ inductionHypothesis =>
      have inner := inductionHypothesis fun part listed => same part (List.mem_cons_of_mem _ listed)
      have sameTy : ctx.typeOf (.member id base' field) = ctx.typeOf (.member id base field) := by
        rw [Context.typeOf, Context.typeOf, inner.typeOf]
      refine ⟨sameTy, fun isWritten => ?_, inner.parts.of_child [] [] rfl rfl rfl sameTy⟩
      rw [Context.mayWrite, Context.mayWrite, inner.typeOf, inner.mayWrite isWritten]
  | @indexBase written id base base' position _ inductionHypothesis =>
      have inner := inductionHypothesis fun part listed =>
        same part (List.mem_cons_of_mem _ (List.mem_append_left _ listed))
      have sameTy : ctx.typeOf (.index id base' position) =
          ctx.typeOf (.index id base position) := by
        rw [Context.typeOf, Context.typeOf, inner.typeOf]
      refine ⟨sameTy, fun isWritten => ?_, inner.parts.of_child [] [position] rfl rfl rfl sameTy⟩
      rw [Context.mayWrite, Context.mayWrite, inner.mayWrite isWritten]
  | @indexPosition written id base position position' _ inductionHypothesis =>
      have inner := inductionHypothesis fun part listed =>
        same part (List.mem_cons_of_mem _ (List.mem_append_right _ listed))
      have sameTy : ctx.typeOf (.index id base position') =
          ctx.typeOf (.index id base position) := by
        rw [Context.typeOf, Context.typeOf, inner.typeOf]
      exact ⟨sameTy, fun _ => rfl, inner.parts.of_child [base] [] rfl rfl rfl sameTy⟩
  | @paren written id inner inner' _ inductionHypothesis =>
      have within := inductionHypothesis fun part listed =>
        same part (List.mem_cons_of_mem _ listed)
      exact ⟨within.typeOf, within.mayWrite,
        within.parts.of_child [] [] rfl rfl rfl within.typeOf⟩

end Context
end Check
end Whittle
