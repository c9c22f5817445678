import Whittle.Proofs.Scoping.WrittenNames
import Whittle.Proofs.Syntax.Operands
import Whittle.Proofs.Typing.Values

namespace Whittle

/-!
# Values are what is not written

A write goes to a location: a variable, or a part of one that members, indices and parentheses
select.  Everything on the way from the location down to the variable is written as well, and
nothing else in the shader is.  The search for values walks in two modes, one for values and one
for locations.  Which of them it is in at an expression depends on the expression around it
alone, and so does whether the expression is written.
-/

open Reduction (values valuesWithin rvalues valuesOfList)

namespace Expr

/-- What the outermost node of the expression selects a part of. -/
def base? : Expr → Option Expr
  | .member _ base _ => some base
  | .index _ base _ => some base
  | .paren _ inner => some inner
  | _ => none

/-- A location with everything that it is a part of.  The operand of an index only says which part
it is. -/
def chain : Expr → List Expr
  | .member id base field => .member id base field :: base.chain
  | .index id base position => .index id base position :: base.chain
  | .paren id inner => .paren id inner :: inner.chain
  | e => [e]

variable {e location part base : Expr}

theorem mem_children_of_base? (isBase : e.base? = some base) : base ∈ e.children := by
  cases e with
  | member | index | paren =>
      cases isBase
      exact List.mem_cons_self
  | _ => cases isBase

theorem mem_chain_iff : part ∈ location.chain ↔
    part = location ∨ ∃ base, location.base? = some base ∧ part ∈ base.chain := by
  cases location <;> simp [chain, base?]

/-- A chain goes on to what its members are parts of. -/
theorem mem_chain_of_base? (within : e ∈ location.chain) (isBase : e.base? = some base) :
    base ∈ location.chain := by
  induction location using children_induction with
  | step location inductionHypothesis =>
      rcases mem_chain_iff.mp within with rfl | ⟨next, isNext, within⟩
      · exact mem_chain_iff.mpr (.inr ⟨base, isBase, mem_chain_iff.mpr (.inl rfl)⟩)
      · exact mem_chain_iff.mpr
          (.inr ⟨next, isNext, inductionHypothesis next (mem_children_of_base? isNext) within⟩)

/-- All that a chain has besides its location are things that its members are parts of. -/
theorem eq_or_exists_base?_of_mem_chain (within : part ∈ location.chain) :
    part = location ∨ ∃ e ∈ location.chain, e.base? = some part := by
  induction location using children_induction with
  | step location inductionHypothesis =>
      rcases mem_chain_iff.mp within with same | ⟨next, isNext, within⟩
      · exact .inl same
      · right
        rcases inductionHypothesis next (mem_children_of_base? isNext) within with
          rfl | ⟨e, inChain, isBase⟩
        · exact ⟨location, mem_chain_iff.mpr (.inl rfl), isNext⟩
        · exact ⟨e, mem_chain_iff.mpr (.inr ⟨next, isNext, inChain⟩), isBase⟩

theorem chain_subset (location : Expr) : location.chain ⊆ location.subexprs := by
  induction location using children_induction with
  | step location inductionHypothesis =>
      intro part within
      rw [subexprs_eq_cons]
      rcases mem_chain_iff.mp within with rfl | ⟨next, isNext, within⟩
      · exact List.mem_cons_self
      · have isChild := mem_children_of_base? isNext
        exact List.mem_cons_of_mem _
          (List.mem_flatMap.mpr ⟨next, isChild, inductionHypothesis next isChild within⟩)

/-- Everything on a chain is the same variable or a part of it. -/
theorem writtenVar?_of_mem_chain (within : part ∈ location.chain) :
    part.writtenVar? = location.writtenVar? := by
  induction location using children_induction with
  | step location inductionHypothesis =>
      rcases mem_chain_iff.mp within with rfl | ⟨next, isNext, within⟩
      · rfl
      · rw [inductionHypothesis next (mem_children_of_base? isNext) within]
        cases location with
        | member | index | paren =>
            cases isNext
            rfl
        | _ => cases isNext

/-- The expressions on the chains of what some of these expressions write. -/
def writtenIn (exprs : List Expr) : List Expr :=
  exprs.flatMap fun e => e.written?.toList.flatMap chain

/-- Whether none of these expressions writes the expression. -/
def unwrittenIn (exprs : List Expr) (e : Expr) : Bool :=
  !((writtenIn exprs).map Expr.id).contains e.id

theorem mem_writtenIn_iff {exprs : List Expr} : part ∈ writtenIn exprs ↔
    ∃ e ∈ exprs, ∃ location, e.Writes location ∧ part ∈ location.chain := by
  simp only [writtenIn, List.mem_flatMap, Option.mem_toList, writes_iff]

/-- No two parts of these expressions have one identifier, and what the parts write are variables
and parts of variables. -/
structure WriteVars (roots : List Expr) : Prop where
  distinct : ((roots.flatMap subexprs).map Expr.id).Nodup
  isVar (e : Expr) (isPart : e ∈ roots.flatMap subexprs) (location : Expr)
    (writes : e.Writes location) : ∃ name, location.writtenVar? = some name

namespace WriteVars

variable {roots : List Expr} {child : Expr}

theorem mem_of_mem_subexprs (isPart : e ∈ roots.flatMap subexprs) (within : part ∈ e.subexprs) :
    part ∈ roots.flatMap subexprs := by
  rcases List.mem_flatMap.mp isPart with ⟨root, isRoot, inRoot⟩
  exact List.mem_flatMap.mpr ⟨root, isRoot, mem_subexprs_trans within inRoot⟩

theorem mem_of_mem_children (isPart : e ∈ roots.flatMap subexprs) (isChild : child ∈ e.children) :
    child ∈ roots.flatMap subexprs :=
  mem_of_mem_subexprs isPart (mem_subexprs_of_mem_children isChild)

/-- The parts of an expression inherit this. -/
theorem singleton (well : WriteVars roots) (isPart : e ∈ roots.flatMap subexprs) :
    WriteVars [e] := by
  constructor
  · have distinct := well.distinct
    rw [flatMap_map_id_subexprs] at distinct ⊢
    rw [List.flatMap_singleton]
    rcases List.mem_flatMap.mp isPart with ⟨root, isRoot, within⟩
    have ofRoot := (List.nodup_flatMap.mp distinct).1 root isRoot
    exact ofRoot.sublist (ids_sublist_of_mem_subexprs within)
  · intro inner isInner
    rw [List.flatMap_singleton] at isInner
    exact well.isVar inner (mem_of_mem_subexprs isPart isInner)

/-- Each part stands in one place: on its own, or as an operand of one part. -/
theorem nodup_places (well : WriteVars roots) :
    (roots ++ (roots.flatMap subexprs).flatMap children).Nodup := by
  have perm := perm_flatMap_subexprs fun e (_ : e ∈ roots) => e.perm_subexprs
  exact perm.nodup_iff.mp (.of_map _ well.distinct)

theorem nodup_children (well : WriteVars roots) (isPart : e ∈ roots.flatMap subexprs) :
    e.children.Nodup := by
  have ofParts := (List.nodup_append'.mp well.nodup_places).2.1
  exact (List.nodup_flatMap.mp ofParts).1 e isPart

/-- Whatever is written on a chain of some part is an operand of a part. -/
theorem exists_parent (isWritten : child ∈ writtenIn (roots.flatMap subexprs)) :
    ∃ e ∈ roots.flatMap subexprs, child ∈ e.children ∧
      (e.written? = some child ∨
        (e ∈ writtenIn (roots.flatMap subexprs) ∧ e.base? = some child)) := by
  rcases mem_writtenIn_iff.mp isWritten with ⟨write, isPart, location, writes, within⟩
  have isLocation := mem_children_of_written? writes.written?
  rcases eq_or_exists_base?_of_mem_chain within with rfl | ⟨e, inChain, isBase⟩
  · exact ⟨write, isPart, isLocation, .inl writes.written?⟩
  · have isPart' := mem_of_mem_subexprs (mem_of_mem_children isPart isLocation)
      (location.chain_subset inChain)
    have isWritten := mem_writtenIn_iff.mpr ⟨write, isPart, location, writes, inChain⟩
    exact ⟨e, isPart', mem_children_of_base? isBase, .inr ⟨isWritten, isBase⟩⟩

/-- An outermost expression is not written. -/
theorem notMem_written (well : WriteVars roots) (isRoot : e ∈ roots) :
    e ∉ writtenIn (roots.flatMap subexprs) := by
  intro isWritten
  rcases exists_parent isWritten with ⟨parent, isPart, isChild, _⟩
  have apart := (List.nodup_append'.mp well.nodup_places).2.2
  exact apart isRoot (List.mem_flatMap.mpr ⟨parent, isPart, isChild⟩)

/-- An operand is written if the node around it writes it, or is written itself and is a part
of it. -/
theorem mem_written_iff (well : WriteVars roots) (isPart : e ∈ roots.flatMap subexprs)
    (isChild : child ∈ e.children) : child ∈ writtenIn (roots.flatMap subexprs) ↔
      e.written? = some child ∨
        (e ∈ writtenIn (roots.flatMap subexprs) ∧ e.base? = some child) := by
  constructor
  · intro isWritten
    rcases exists_parent isWritten with ⟨parent, isPart', isChild', because⟩
    -- No part is an operand of two, so this is the node around the operand.
    have ofParts := (List.nodup_append'.mp well.nodup_places).2.1
    cases eq_of_mem_flatMap ofParts isPart' isPart isChild' isChild
    exact because
  · rintro (isWritten | ⟨isWritten, isBase⟩)
    · exact mem_writtenIn_iff.mpr
        ⟨e, isPart, child, writes_iff.mpr isWritten, mem_chain_iff.mpr (.inl rfl)⟩
    · rcases mem_writtenIn_iff.mp isWritten with ⟨write, isWrite, location, writes, within⟩
      exact mem_writtenIn_iff.mpr
        ⟨write, isWrite, location, writes, mem_chain_of_base? within isBase⟩

/-- The operand of an index is no part of what the index selects from. -/
theorem position_notMem_written (well : WriteVars roots) {id : NodeId} {base position : Expr}
    (isPart : .index id base position ∈ roots.flatMap subexprs) :
    position ∉ writtenIn (roots.flatMap subexprs) := by
  intro isWritten
  have isChild : position ∈ children (.index id base position) :=
    List.mem_cons_of_mem _ List.mem_cons_self
  rcases (well.mem_written_iff isPart isChild).mp isWritten with isTarget | ⟨_, isBase⟩
  · cases isTarget
  · have apart := well.nodup_children isPart
    cases isBase
    simp [children] at apart

theorem exists_writtenVar? (well : WriteVars roots)
    (isWritten : e ∈ writtenIn (roots.flatMap subexprs)) : ∃ name, e.writtenVar? = some name := by
  rcases mem_writtenIn_iff.mp isWritten with ⟨write, isWrite, location, writes, within⟩
  rw [writtenVar?_of_mem_chain within]
  exact well.isVar write isWrite location writes

theorem mem_parts_of_written (isWritten : e ∈ writtenIn (roots.flatMap subexprs)) :
    e ∈ roots.flatMap subexprs := by
  rcases exists_parent isWritten with ⟨parent, isPart, isChild, _⟩
  exact mem_of_mem_children isPart isChild

theorem unwrittenIn_iff (well : WriteVars roots) (isPart : e ∈ roots.flatMap subexprs) :
    unwrittenIn (roots.flatMap subexprs) e = true ↔ e ∉ writtenIn (roots.flatMap subexprs) := by
  rw [unwrittenIn, Bool.not_eq_true', ← Bool.not_eq_true, List.contains_iff_mem, List.mem_map]
  refine not_congr ⟨?_, fun isWritten => ⟨e, isWritten, rfl⟩⟩
  rintro ⟨other, isWritten, same⟩
  cases List.inj_on_of_nodup_map well.distinct (mem_parts_of_written isWritten) isPart same
  exact isWritten

end WriteVars

/-! ## The two modes -/

/-- In a node that writes nothing every operand is evaluated for its value. -/
theorem values_eq_cons (isRead : e.written? = none) : values e = e :: e.children.flatMap values := by
  cases e with
  | unary id op operand =>
      have noStep : op.writesOperand = false := by
        rw [written?, ite_eq_right_iff] at isRead
        exact Bool.not_eq_true _ ▸ fun isStep => by cases isRead isStep
      simp [values, children, noStep]
  | call id callee args => rw [values, valuesOfList_eq_flatMap, children]
  | assign => cases isRead
  | _ => simp [values, children]

namespace WriteVars

variable {roots : List Expr}

/-- The parts of an expression that are evaluated for their value are those that are not written,
whether the expression is written or not. -/
theorem values_eq_filter (well : WriteVars roots) (isPart : e ∈ roots.flatMap subexprs) :
    (e ∉ writtenIn (roots.flatMap subexprs) →
        values e = e.subexprs.filter (unwrittenIn (roots.flatMap subexprs))) ∧
      (e ∈ writtenIn (roots.flatMap subexprs) →
        valuesWithin e = e.subexprs.filter (unwrittenIn (roots.flatMap subexprs))) := by
  -- Either mode goes on in the other for some operands, so both are needed of these.
  induction e using children_induction with
  | step e inductionHypothesis =>
      have below := fun child (isChild : child ∈ e.children) =>
        inductionHypothesis child isChild (mem_of_mem_children isPart isChild)
      have isKept := well.unwrittenIn_iff isPart
      rw [subexprs_eq_cons]
      constructor
      · intro unwritten
        rw [List.filter_cons_of_pos (isKept.mpr unwritten), List.filter_flatMap]
        have isTarget : ∀ child ∈ e.children,
            child ∈ writtenIn (roots.flatMap subexprs) ↔ e.written? = some child := by
          intro child isChild
          rw [well.mem_written_iff isPart isChild, or_iff_left fun isBase => unwritten isBase.1]
        cases writes : e.written? with
        | none =>
            rw [values_eq_cons writes]
            refine congrArg (e :: ·) (List.flatMap_congr fun child isChild => ?_)
            refine (below child isChild).1 fun isWritten => ?_
            cases writes.symm.trans ((isTarget child isChild).mp isWritten)
        | some location =>
            -- Of the operands exactly the location is written.
            cases writes_iff.mpr writes with
            | @assign id op _ value =>
                have apart := well.nodup_children isPart
                simp only [children, List.nodup_cons, List.mem_singleton] at apart
                have ofTarget := (below location List.mem_cons_self).2
                  ((isTarget location List.mem_cons_self).mpr rfl)
                have isValue : value ∈ children (.assign id op location value) :=
                  List.mem_cons_of_mem _ List.mem_cons_self
                have ofValue := (below value isValue).1 fun isWritten =>
                  apart.1 (Option.some.inj ((isTarget value isValue).mp isWritten))
                simp [values, children, ofTarget, ofValue]
            | @unary id op _ isStep =>
                have ofOperand := (below location List.mem_cons_self).2
                  ((isTarget location List.mem_cons_self).mpr writes)
                simp [values, children, isStep, ofOperand]
      · intro isWritten
        rw [List.filter_cons_of_neg fun isUnwritten => isKept.mp isUnwritten isWritten,
          List.filter_flatMap]
        have ofBase : ∀ base, e.base? = some base →
            valuesWithin base = base.subexprs.filter (unwrittenIn (roots.flatMap subexprs)) := by
          intro base isBase
          have isChild := mem_children_of_base? isBase
          exact (below base isChild).2
            ((well.mem_written_iff isPart isChild).mpr (.inr ⟨isWritten, isBase⟩))
        rcases well.exists_writtenVar? isWritten with ⟨name, isName⟩
        cases e with
        | var id name => rfl
        | member id base field =>
            simp [valuesWithin, children, ofBase base rfl]
        | paren id inner =>
            simp [valuesWithin, children, ofBase inner rfl]
        | index id base position =>
            have ofPosition := (below position (List.mem_cons_of_mem _ List.mem_cons_self)).1
              (well.position_notMem_written isPart)
            simp [valuesWithin, children, ofBase base rfl, ofPosition]
        | _ => cases isName

/-- The values in some expressions are their parts without what is written. -/
theorem flatMap_values (well : WriteVars roots) :
    roots.flatMap values =
      (roots.flatMap subexprs).filter (unwrittenIn (roots.flatMap subexprs)) := by
  rw [List.filter_flatMap]
  refine List.flatMap_congr fun root isRoot => ?_
  have isPart := List.mem_flatMap.mpr ⟨root, isRoot, root.self_mem_subexprs⟩
  exact (well.values_eq_filter isPart).1 (well.notMem_written isRoot)

theorem mem_flatMap_values_iff (well : WriteVars roots) (isPart : e ∈ roots.flatMap subexprs) :
    e ∈ roots.flatMap values ↔ e ∉ writtenIn (roots.flatMap subexprs) := by
  rw [well.flatMap_values, List.mem_filter, and_iff_right isPart, well.unwrittenIn_iff isPart]

/-- The operand of an index is not written with what the index is a part of.  Only writes within
the operand take anything from its values. -/
theorem values_of_position (well : WriteVars roots) {id : NodeId} {base position : Expr}
    (isWritten : .index id base position ∈ writtenIn (roots.flatMap subexprs)) :
    position ∈ roots.flatMap values ∧ ∀ part ∈ position.subexprs,
      (part ∈ roots.flatMap values ↔ part ∉ writtenIn position.subexprs) := by
  have isPart := mem_parts_of_written isWritten
  have isOperand := mem_of_mem_children isPart (List.mem_cons_of_mem _ List.mem_cons_self)
  have unwritten := well.position_notMem_written isPart
  refine ⟨(well.mem_flatMap_values_iff isOperand).mpr unwritten, fun part within => ?_⟩
  have inRoots := mem_of_mem_subexprs isOperand within
  have ofOperand := (well.singleton isOperand).mem_flatMap_values_iff (e := part)
  rw [List.flatMap_singleton, List.flatMap_singleton] at ofOperand
  rw [well.mem_flatMap_values_iff inRoots, ← well.unwrittenIn_iff inRoots, ← ofOperand within,
    (well.values_eq_filter isOperand).1 unwritten, List.mem_filter, and_iff_right within]

end WriteVars
end Expr

namespace Shader

variable {shader : Shader} {version : Version}

theorem writeVars_roots (valid : shader.IsValid version) : Expr.WriteVars shader.roots where
  distinct := (isValid_iff.mp valid).1.sublist shader.map_id_exprs_sublist
  isVar _ isPart _ writes := exists_writtenVar?_of_writes valid isPart writes

end Shader

namespace Reduction

variable {shader : Shader} {version : Version}

/-- The values of a valid shader are all of its expressions, in the same order, without those that
some write reaches on the way from its location to the variable.  None stands among them twice.
The operand of an index on such a way is among them, together with all of its parts that no write
within the operand reaches. -/
theorem rvalues_eq_unwritten (valid : shader.IsValid version) :
    rvalues shader = shader.exprs.filter (Expr.unwrittenIn shader.exprs) ∧
      ((rvalues shader).map Expr.id).Nodup ∧
      (∀ e ∈ shader.exprs, e ∈ rvalues shader ↔
        ¬∃ write ∈ shader.exprs, ∃ location, write.Writes location ∧ e ∈ location.chain) ∧
      ∀ id base position, .index id base position ∈ Expr.writtenIn shader.exprs →
        position ∈ rvalues shader ∧ ∀ part ∈ position.subexprs,
          (part ∈ rvalues shader ↔ part ∉ Expr.writtenIn position.subexprs) := by
  have well := Shader.writeVars_roots valid
  have isFiltered := well.flatMap_values
  refine ⟨isFiltered, ?_, ?_, ?_⟩
  · rw [rvalues, isFiltered]
    exact well.distinct.sublist (List.filter_sublist.map Expr.id)
  · intro e listed
    rw [← Expr.mem_writtenIn_iff]
    exact well.mem_flatMap_values_iff listed
  · intro id base position isWritten
    exact well.values_of_position isWritten

open Scoping (stepping) in
/-- In `(v)[i++] += 1.0` the values are the assignment, the increment and the literal.  The
variables are written, and so are the parentheses and the index. -/
theorem rvalues_eq_unwritten_stepping :
    stepping.IsValid .essl100 ∧ (rvalues stepping).map Expr.id = [4, 7, 9, 13, 15] ∧
      (.index 10 (.paren 11 (.var 12 "v")) (.unary 13 .postIncrement (.var 14 "i")) : Expr) ∈
        Expr.writtenIn stepping.exprs ∧
      .unary 13 .postIncrement (.var 14 "i") ∈ rvalues stepping := by
  have valid : stepping.IsValid .essl100 := by decide
  have isWritten : (.index 10 (.paren 11 (.var 12 "v"))
      (.unary 13 .postIncrement (.var 14 "i")) : Expr) ∈ Expr.writtenIn stepping.exprs :=
    List.mem_cons_self
  have unwritten := rvalues_eq_unwritten valid
  refine ⟨valid, ?_, isWritten, (unwritten.2.2.2 _ _ _ isWritten).1⟩
  rw [unwritten.1]
  rfl

end Reduction
end Whittle
