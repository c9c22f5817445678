import Whittle.Proofs.Typing.Redeclaration
import Whittle.Reduction.Var.VectorSplit

namespace Whittle

/-!
# Types where a vector is split

A variable of a vector type can be split into one variable for each component.  Where
the vector is in scope together with these scalars, an access to a component and the
scalar of that component have one type, and both may be written.  So whatever holds
such accesses keeps its type, as long as the vector is not used in any other way.
-/

open Reduction (splitName componentOf? singleComponent?)

/-- A variable of a vector type that is to be split. -/
structure Splitting where
  name : String
  component : Scalar
  width : Width

theorem Width.count_pos (width : Width) : 0 < width.count := by
  cases width <;> decide

theorem Width.count_le_four (width : Width) : width.count ≤ 4 := by
  cases width <;> decide

theorem splitName_ne (name : String) (i : Nat) : splitName name i ≠ name := by
  intro same
  have longer := congrArg String.length same
  simp only [splitName, String.length_append] at longer
  have mark : "_".length = 1 := by decide
  omega

theorem splitName_inj {name : String} {i j : Nat} (isLetter : i < 4) (isLetter' : j < 4)
    (same : splitName name i = splitName name j) : i = j := by
  have letters := (String.append_right_inj _).mp same
  have apart : Reduction.splitLetters.Nodup := by decide
  rw [List.getElem?_eq_getElem (show i < Reduction.splitLetters.length from isLetter),
    List.getElem?_eq_getElem (show j < Reduction.splitLetters.length from isLetter')] at letters
  exact (List.Nodup.getElem_inj_iff apart).mp letters

/-- The name of a component is reserved only if the name of the vector is, or if that is
the stem of reserved names. -/
theorem isReservedName_splitName {name : String} (i : Nat) (isFree : Check.isReservedName name = false)
    (differ : name ≠ "gl") : Check.isReservedName (splitName name i) = false := by
  have chars : (splitName name i).toList = name.toList ++
      '_' :: ((Reduction.splitLetters[i]?).getD "").toList := by
    simp only [splitName, String.toList_append, List.append_assoc]
    rfl
  rw [Check.isReservedName, chars]
  rw [Check.isReservedName] at isFree
  have differ' : name.toList ≠ ['g', 'l'] := fun same => differ (String.toList_inj.mp same)
  generalize name.toList = letters at isFree differ'
  rcases letters with _ | ⟨first, _ | ⟨second, _ | ⟨third, rest⟩⟩⟩
  · rfl
  · simp [Check.reservedStem, List.isPrefixOf]
  · simp only [Check.reservedStem, List.isPrefixOf, List.cons_append, List.nil_append,
      Bool.and_eq_false_iff, beq_eq_false_iff_ne, ne_eq, beq_self_eq_true, Bool.true_and]
    by_contra both
    simp only [not_or, not_not, Bool.true_eq_false, not_false_eq_true] at both
    exact differ' (by rw [← both.1, ← both.2.1])
  · simp only [Check.reservedStem, List.isPrefixOf, List.cons_append] at isFree ⊢
    exact isFree

namespace Splitting

variable (vector : Splitting)

def ty : Ty :=
  .vector vector.component vector.width

/-- The name of the variable for a component. -/
def part (i : Nat) : String :=
  splitName vector.name i

/-- Where the vector is in scope, so are the variables for its components, and all of
them may be written. -/
def Shows (see : String → Option Check.Binding) : Prop :=
  see vector.name = none ∨ see vector.name = some ⟨vector.ty, true⟩ ∧
    ∀ i < vector.width.count, see (vector.part i) = some ⟨.scalar vector.component, true⟩

/-- Declarations of other names do not change that. -/
theorem stable_shows : Check.Context.Stable
    (fun name => name ≠ vector.name ∧ ∀ i < vector.width.count, name ≠ vector.part i)
    vector.Shows := by
  rintro see name binding ⟨isOther, isNoPart⟩ shows
  refine shows.imp (fun isHidden => ?_) fun both => ⟨?_, fun i inRange => ?_⟩
  · exact (if_neg isOther.symm).trans isHidden
  · exact (if_neg isOther.symm).trans both.1
  · exact (if_neg (isNoPart i inRange).symm).trans (both.2 i inRange)

/-- The component that an expression selects of the vector. -/
def componentOf? (e : Expr) : Option Nat :=
  Reduction.componentOf? vector.name vector.width.count e

variable {vector}

theorem componentOf?_eq_some_iff {e : Expr} {i : Nat} :
    vector.componentOf? e = some i ↔ ∃ id baseId field, e = .member id (.var baseId vector.name) field ∧
      singleComponent? field = some i ∧ i < vector.width.count := by
  constructor
  · intro isAccess
    unfold componentOf? Reduction.componentOf? at isAccess
    split at isAccess
    · rename_i id base field
      rw [Option.ite_none_right_eq_some, beq_iff_eq, Option.filter_eq_some_iff,
        decide_eq_true_iff] at isAccess
      cases base with
      | var baseId name =>
          cases Option.some.inj isAccess.1
          exact ⟨id, baseId, field, rfl, isAccess.2⟩
      | _ => cases isAccess.1
    · cases isAccess
  · rintro ⟨id, baseId, field, rfl, isField, inRange⟩
    simp [componentOf?, Reduction.componentOf?, Expr.varName?, isField, inRange]

/-- A single letter selects a scalar. -/
theorem select?_singleton {component : Scalar} {width : Width} {letter : Char} {ty : Ty}
    (isSelection : Check.select? (.vector component width) [letter] = some ty) :
    ty = .scalar component := by
  rw [Check.select?, Option.bind_eq_some_iff] at isSelection
  rcases isSelection with ⟨positions, arePositions, isTy⟩
  rw [Check.selection?, if_neg (by simp), Option.bind_eq_some_iff] at arePositions
  rcases arePositions with ⟨letters, _, isPosition⟩
  simp only [List.mapM_cons, List.mapM_nil, Option.bind_eq_bind, Option.bind_eq_some_iff,
    Option.pure_def, Option.some.injEq] at isPosition
  rcases isPosition with ⟨position, _, _, rfl, rfl⟩
  exact (Option.some.inj isTy).symm

/-- Change one part of an expression: an access becomes the variable for its component,
and whatever else is not the vector itself changes in its operands. -/
inductive SplitsAt (vector : Splitting) (change : Expr → Expr) (e : Expr) : Prop where
  | access {i : Nat} {id : NodeId} (isAccess : vector.componentOf? e = some i)
      (changed : change e = .var id (vector.part i))
  | other (noAccess : vector.componentOf? e = none)
      (noUse : ∀ child ∈ e.children, child.varName? ≠ some vector.name)
      (changed : change e = e.mapChildren change)

variable {ctx : Check.Context} {change : Expr → Expr}

/-- An access that has a type selects a scalar and may be written. -/
theorem typeOf_access {e : Expr} {i : Nat} (isAccess : vector.componentOf? e = some i)
    (isVector : ctx.lookup? vector.name = some ⟨vector.ty, true⟩) (typed : (ctx.typeOf e).isSome) :
    ctx.typeOf e = some (.scalar vector.component) ∧ ctx.mayWrite e = true := by
  rcases componentOf?_eq_some_iff.mp isAccess with ⟨id, baseId, field, rfl, isField, _⟩
  rcases Option.isSome_iff_exists.mp typed with ⟨ty, isTy⟩
  rcases Check.Context.typeOf_member_eq_some_iff.mp isTy with ⟨baseTy, isBase, isMember⟩
  rw [Check.Context.typeOf, isVector, Option.map_some, Option.some.injEq] at isBase
  cases isBase
  have single : ∃ letter, field.toList = [letter] := by
    unfold singleComponent? at isField
    split at isField
    · rename_i letter isLetter
      exact ⟨letter, isLetter⟩
    · cases isField
  rcases single with ⟨letter, isLetter⟩
  constructor
  · rw [isTy]
    cases isSelection : Check.select? vector.ty [letter] with
    | none =>
        simp only [Check.Context.member, Splitting.ty, isLetter] at isMember
        rw [← Splitting.ty, isSelection] at isMember
        cases isMember
    | some selected =>
        simp only [Check.Context.member, Splitting.ty, isLetter] at isMember
        rw [← Splitting.ty, isSelection] at isMember
        cases isMember
        rw [select?_singleton isSelection]
  · simp [Check.Context.mayWrite, isVector, Check.repeatsLetter, isLetter]

/-- Whatever is split apart from the vector itself keeps its type, and may be written if
it could be. -/
theorem typeOf_and_mayWrite (shows : vector.Shows ctx.lookup?) {e : Expr}
    (typed : (ctx.typeOf e).isSome) (noUse : e.varName? ≠ some vector.name)
    (splits : ∀ part ∈ e.subexprs, vector.SplitsAt change part) :
    ctx.typeOf (change e) = ctx.typeOf e ∧ ctx.mayWrite (change e) = ctx.mayWrite e := by
  refine @Check.Context.typeOf_and_mayWrite_change ctx change
    (fun part => part.varName? ≠ some vector.name) e noUse typed fun part isPart _ typed => ?_
  cases splits part isPart with
  | @access i id isAccess changed =>
      -- The access has a type, so the vector is in scope, and then the scalar is.
      rcases componentOf?_eq_some_iff.mp isAccess with ⟨_, baseId, field, rfl, _, inRange⟩
      have inScope := shows.resolve_left fun hidden => Check.Context.varName?_ne_of_lookup? hidden
        typed (Expr.mem_subexprs_of_mem_children
          (List.mem_cons_self : Expr.var baseId vector.name ∈ _)) rfl
      have kept := typeOf_access isAccess inScope.1 typed
      rw [changed, kept.1, kept.2]
      refine .inl ⟨?_, ?_⟩
      · rw [Check.Context.typeOf, inScope.2 i inRange]
        rfl
      · rw [Check.Context.mayWrite, inScope.2 i inRange]
        rfl
  | other _ noUseBelow changed => exact .inr ⟨changed, noUseBelow⟩

/-- Every part afterwards comes from a part that is not the vector itself. -/
theorem exists_of_mem_subexprs_change {e part' : Expr} (noUse : e.varName? ≠ some vector.name)
    (splits : ∀ part ∈ e.subexprs, vector.SplitsAt change part)
    (isPart : part' ∈ (change e).subexprs) :
    ∃ part ∈ e.subexprs, part' = change part ∧ part.varName? ≠ some vector.name := by
  rcases @Expr.exists_kept_of_mem_subexprs_change change (fun part => part.varName? ≠ some vector.name)
    (fun part => ∃ id name, change part = .var id name) e part' noUse (fun part isPart _ => by
      cases splits part isPart with
      | access _ changed => exact .inl ⟨_, _, changed⟩
      | other _ noUseBelow changed => exact .inr ⟨changed, noUseBelow⟩) isPart with
    ⟨part, isBefore, noUse, rfl | ⟨⟨id, name, changed⟩, within⟩⟩
  · exact ⟨part, isBefore, rfl, noUse⟩
  · rw [changed] at within
    exact ⟨part, isBefore, (List.mem_singleton.mp within).trans changed.symm, noUse⟩

/-- Every part is still there afterwards, changed, unless it is the vector itself. -/
theorem change_mem_subexprs {e part : Expr} (splits : ∀ part ∈ e.subexprs, vector.SplitsAt change part)
    (isPart : part ∈ e.subexprs) (notVector : part.varName? ≠ some vector.name) :
    change part ∈ (change e).subexprs := by
  refine Expr.change_mem_subexprs isPart fun outer isOuter child isChild within => ?_
  cases splits outer isOuter with
  | access isAccess _ =>
      -- Below an access there is only the vector itself.
      rcases componentOf?_eq_some_iff.mp isAccess with ⟨_, baseId, _, rfl, _, _⟩
      rw [List.mem_singleton.mp isChild] at within
      rw [List.mem_singleton.mp within] at notVector
      exact absurd rfl notVector
  | other _ _ changed => exact changed

/-- The vector is not used any more. -/
theorem SplitsAt.varName?_change {e : Expr} (splits : vector.SplitsAt change e)
    (noUse : e.varName? ≠ some vector.name) : (change e).varName? ≠ some vector.name := by
  cases splits with
  | access _ changed =>
      rw [changed]
      exact fun same => splitName_ne vector.name _ (Option.some.inj same)
  | other _ _ changed =>
      rw [changed]
      cases e <;> exact noUse

end Splitting
end Whittle
