import Whittle.Proofs.Identifiers.NodeIds
import Whittle.Proofs.Syntax.Alike
import Whittle.Syntax.Target

namespace Whittle

/-!
# Changing expressions throughout a tree

A change by identifier looks for its target and leaves everything else as it is.
In a tree in which no identifier is repeated this is a special case of changing
every node, the operands first, by a function that only looks at the node: there
is no search and no failure, and several changes one after the other are one such
function.
-/

namespace Expr

/-- The expression with its operands changed. -/
def mapChildren (change : Expr → Expr) : Expr → Expr
  | .int id value => .int id value
  | .float id value => .float id value
  | .bool id value => .bool id value
  | .var id name => .var id name
  | .unary id op operand => .unary id op (change operand)
  | .binary id op lhs rhs => .binary id op (change lhs) (change rhs)
  | .assign id op target value => .assign id op (change target) (change value)
  | .ternary id cond whenTrue whenFalse =>
      .ternary id (change cond) (change whenTrue) (change whenFalse)
  | .call id callee args => .call id callee (args.map change)
  | .member id base field => .member id (change base) field
  | .index id base position => .index id (change base) (change position)
  | .paren id inner => .paren id (change inner)

mutual

/-- The expression with every node changed, the operands of a node before the node
itself. -/
def rewrite (change : Expr → Expr) : Expr → Expr
  | .int id value => change (.int id value)
  | .float id value => change (.float id value)
  | .bool id value => change (.bool id value)
  | .var id name => change (.var id name)
  | .unary id op operand => change (.unary id op (operand.rewrite change))
  | .binary id op lhs rhs => change (.binary id op (lhs.rewrite change) (rhs.rewrite change))
  | .assign id op target value =>
      change (.assign id op (target.rewrite change) (value.rewrite change))
  | .ternary id cond whenTrue whenFalse =>
      change (.ternary id (cond.rewrite change) (whenTrue.rewrite change)
        (whenFalse.rewrite change))
  | .call id callee args => change (.call id callee (rewriteList change args))
  | .member id base field => change (.member id (base.rewrite change) field)
  | .index id base position => change (.index id (base.rewrite change) (position.rewrite change))
  | .paren id inner => change (.paren id (inner.rewrite change))

def rewriteList (change : Expr → Expr) : List Expr → List Expr
  | [] => []
  | e :: rest => e.rewrite change :: rewriteList change rest

end

variable {change : Expr → Expr}

theorem rewriteList_eq_map (change : Expr → Expr) (es : List Expr) :
    rewriteList change es = es.map (rewrite change) := by
  induction es with
  | nil => rfl
  | cons e rest inductionHypothesis => rw [rewriteList, inductionHypothesis, List.map_cons]

theorem rewrite_eq (change : Expr → Expr) (e : Expr) :
    e.rewrite change = change (e.mapChildren (rewrite change)) := by
  cases e with
  | call id callee args => rw [rewrite, mapChildren, rewriteList_eq_map]
  | _ => rfl

@[simp] theorem id_mapChildren (change : Expr → Expr) (e : Expr) : (e.mapChildren change).id = e.id := by
  cases e <;> rfl

theorem children_mapChildren (change : Expr → Expr) (e : Expr) :
    (e.mapChildren change).children = e.children.map change := by
  cases e <;> rfl

theorem mem_children_of_written? {e operand : Expr} (isWritten : e.written? = some operand) :
    operand ∈ e.children := by
  cases e with
  | assign id op target value =>
      cases isWritten
      exact List.mem_cons_self
  | unary id op inner =>
      rw [written?, Option.ite_none_right_eq_some] at isWritten
      cases isWritten.2
      exact List.mem_cons_self
  | _ => cases isWritten

theorem mapChildren_mapChildren (first second : Expr → Expr) (e : Expr) :
    (e.mapChildren first).mapChildren second = e.mapChildren fun child => second (first child) := by
  cases e with
  | call id callee args => rw [mapChildren, mapChildren, mapChildren, List.map_map]; rfl
  | _ => rfl

theorem mapChildren_congr {change change' : Expr → Expr} {e : Expr}
    (same : ∀ child ∈ e.children, change child = change' child) :
    e.mapChildren change = e.mapChildren change' := by
  cases e with
  | int | float | bool | var => rfl
  | call id callee args => exact congrArg (call id callee) (List.map_congr_left same)
  | _ =>
      simp only [children, List.forall_mem_cons] at same
      simp only [mapChildren, same]

theorem mapChildren_eq_self {e : Expr} (same : ∀ child ∈ e.children, change child = child) :
    e.mapChildren change = e := by
  rw [mapChildren_congr same]
  cases e with
  | call id callee args => rw [mapChildren, List.map_id'']; exact fun _ => rfl
  | _ => rfl

/-- Where no node is changed the expression stays as it is. -/
theorem rewrite_eq_self {e : Expr} (same : ∀ part ∈ e.subexprs, change part = part) :
    e.rewrite change = e := by
  induction e using children_induction with
  | step e inductionHypothesis =>
      have children : ∀ child ∈ e.children, child.rewrite change = child := fun child isChild =>
        inductionHypothesis child isChild fun part isPart =>
          same part (mem_subexprs_trans isPart (mem_subexprs_of_mem_children isChild))
      rw [rewrite_eq, mapChildren_eq_self children]
      exact same e e.self_mem_subexprs

/-- Only what a change does to the parts counts, whatever their operands became. -/
theorem rewrite_congr {change' : Expr → Expr} {e : Expr}
    (same : ∀ part ∈ e.subexprs, ∀ inner : Expr → Expr,
      change (part.mapChildren inner) = change' (part.mapChildren inner)) :
    e.rewrite change = e.rewrite change' := by
  induction e using children_induction with
  | step e inductionHypothesis =>
      have children : ∀ child ∈ e.children, child.rewrite change = child.rewrite change' :=
        fun child isChild => inductionHypothesis child isChild fun part isPart =>
          same part (mem_subexprs_trans isPart (mem_subexprs_of_mem_children isChild))
      rw [rewrite_eq, rewrite_eq, mapChildren_congr children]
      exact same e e.self_mem_subexprs _

theorem sizeOf_le_of_mem_subexprs {part e : Expr} (isPart : part ∈ e.subexprs) :
    sizeOf part ≤ sizeOf e := by
  induction e using children_induction with
  | step e inductionHypothesis =>
      rw [subexprs_eq_cons, List.mem_cons] at isPart
      rcases isPart with rfl | within
      · exact Nat.le_refl _
      · rcases List.mem_flatMap.mp within with ⟨child, isChild, isPart⟩
        exact Nat.le_trans (inductionHypothesis child isChild isPart)
          (Nat.le_of_lt (sizeOf_lt_of_mem_children isChild))

/-- No expression is a part of one of its operands. -/
theorem notMem_subexprs_of_mem_children {child e : Expr} (isChild : child ∈ e.children) :
    e ∉ child.subexprs := fun isPart =>
  Nat.lt_irrefl _ (Nat.lt_of_le_of_lt (sizeOf_le_of_mem_subexprs isPart)
    (sizeOf_lt_of_mem_children isChild))

/-- A part is still there, changed, if whatever it is within changes in its operands
alone. -/
theorem change_mem_subexprs {e part : Expr} (isPart : part ∈ e.subexprs)
    (around : ∀ outer ∈ e.subexprs, ∀ child ∈ outer.children, part ∈ child.subexprs →
      change outer = outer.mapChildren change) : change part ∈ (change e).subexprs := by
  induction e using children_induction with
  | step e inductionHypothesis =>
      rw [subexprs_eq_cons, List.mem_cons] at isPart
      rcases isPart with rfl | within
      · exact (change part).self_mem_subexprs
      rcases List.mem_flatMap.mp within with ⟨child, isChild, isPart⟩
      have below := inductionHypothesis child isChild isPart fun outer isOuter =>
        around outer (mem_subexprs_trans isOuter (mem_subexprs_of_mem_children isChild))
      refine mem_subexprs_trans below (mem_subexprs_of_mem_children ?_)
      rw [around e e.self_mem_subexprs child isChild isPart, children_mapChildren]
      exact List.mem_map_of_mem isChild

/-- Where every part changes in its operands alone, nothing changes. -/
theorem change_eq_self {e : Expr}
    (changes : ∀ part ∈ e.subexprs, change part = part.mapChildren change) : change e = e := by
  induction e using children_induction with
  | step e inductionHypothesis =>
      rw [changes e e.self_mem_subexprs]
      exact mapChildren_eq_self fun child isChild => inductionHypothesis child isChild
        fun part isPart => changes part (mem_subexprs_trans isPart (mem_subexprs_of_mem_children isChild))

/-- Whatever is there after a change is a part that was kept and has changed, or it stands in
what an expression has become for which `P` holds.  Others change in their operands alone,
which are kept with them. -/
theorem exists_kept_of_mem_subexprs_change {kept P : Expr → Prop} {e part' : Expr} (isKept : kept e)
    (changes : ∀ part ∈ e.subexprs, kept part → P part ∨
      change part = part.mapChildren change ∧ ∀ child ∈ part.children, kept child)
    (isPart : part' ∈ (change e).subexprs) :
    ∃ part ∈ e.subexprs, kept part ∧
      (part' = change part ∨ P part ∧ part' ∈ (change part).subexprs) := by
  induction e using children_induction with
  | step e inductionHypothesis =>
      rcases changes e e.self_mem_subexprs isKept with holds | ⟨changed, areKept⟩
      · exact ⟨e, e.self_mem_subexprs, isKept, .inr ⟨holds, isPart⟩⟩
      rw [subexprs_eq_cons, List.mem_cons] at isPart
      rcases isPart with rfl | within
      · exact ⟨e, e.self_mem_subexprs, isKept, .inl rfl⟩
      rw [changed, children_mapChildren] at within
      rcases List.mem_flatMap.mp within with ⟨child', isChild', isPart⟩
      rcases List.mem_map.mp isChild' with ⟨child, isChild, rfl⟩
      have below := @mem_subexprs_of_mem_children child e isChild
      rcases inductionHypothesis child isChild (areKept child isChild) (fun part isPart =>
        changes part (mem_subexprs_trans isPart below)) isPart with ⟨part, isPart, stays⟩
      exact ⟨part, mem_subexprs_trans isPart below, stays⟩

theorem exists_of_mem_subexprs_change {P : Expr → Prop} {e part' : Expr}
    (changes : ∀ part ∈ e.subexprs, P part ∨ change part = part.mapChildren change)
    (isPart : part' ∈ (change e).subexprs) :
    ∃ part ∈ e.subexprs, part' = change part ∨ P part ∧ part' ∈ (change part).subexprs := by
  rcases @exists_kept_of_mem_subexprs_change change (fun _ => True) P e part' trivial
    (fun part isPart _ => (changes part isPart).imp_right fun changed => ⟨changed, fun _ _ => trivial⟩)
    isPart with ⟨part, isPart, _, stays⟩
  exact ⟨part, isPart, stays⟩

/-! ## One target -/

def changeAt (target : NodeId) (change : Expr → Expr) (e : Expr) : Expr :=
  if e.id = target then change e else e

theorem changeAt_of_ne {target : NodeId} {e : Expr} (differ : e.id ≠ target) :
    changeAt target change e = e :=
  if_neg differ

theorem rewrite_changeAt_id (copy e : Expr) : e.rewrite (changeAt e.id fun _ => copy) = copy :=
  (rewrite_eq _ _).trans (if_pos (id_mapChildren _ e))

theorem rewrite_changeAt_of_ne {target : NodeId} {e : Expr} (differ : e.id ≠ target) :
    e.rewrite (changeAt target change) = e.mapChildren (rewrite (changeAt target change)) :=
  (rewrite_eq _ _).trans (changeAt_of_ne (by rwa [id_mapChildren]))

theorem rewrite_changeAt_of_notMem {target : NodeId} {e : Expr} (absent : target ∉ e.ids) :
    e.rewrite (changeAt target change) = e := by
  refine rewrite_eq_self fun part isPart => changeAt_of_ne fun isTarget => absent ?_
  rw [← isTarget, ← map_id_subexprs]
  exact List.mem_map_of_mem isPart

theorem changedOr_eq {target : NodeId} {e : Expr} {inside : Option Expr} :
    e.changedOr target change inside = if e.id = target then some (change e) else inside := by
  unfold changedOr
  split <;> rename_i isTarget
  · rw [if_pos (beq_iff_eq.mp isTarget)]
  · rw [if_neg fun same => isTarget (beq_iff_eq.mpr same)]

/-! A search looks through the parts of a node one after the other.  What it puts
together at the part that has the target is the node with all parts changed, since
no other part has it. -/

theorem map_ite_some {α β : Type} {inside : Prop} [Decidable inside] {part : α} {build : α → β}
    {whole : β} (same : inside → build part = whole) :
    (if inside then some part else none).map build = if inside then some whole else none := by
  by_cases holds : inside
  · simp only [if_pos holds, Option.map_some, same holds]
  · simp only [if_neg holds, Option.map_none]

theorem map_ite_some_orElse {α β : Type} {inside behind : Prop} [Decidable inside]
    [Decidable behind] {part : α} {build : α → β} {whole : β} {rest : Option β}
    (same : inside → build part = whole) (isRest : rest = if behind then some whole else none) :
    ((if inside then some part else none).map build <|> rest) =
      if inside ∨ behind then some whole else none := by
  rw [map_ite_some same, isRest]
  by_cases holds : inside <;> simp [holds]

mutual

/-- A change by identifier changes the node of the target, if there is one. -/
theorem modify?_eq {target : NodeId} {e : Expr} (distinct : e.ids.Nodup) :
    e.modify? target change =
      if target ∈ e.ids then some (e.rewrite (changeAt target change)) else none := by
  have atRoot : ∀ inside : Option Expr,
      (e.id ≠ target → inside = if target ∈ e.children.flatMap ids then
        some (e.mapChildren (rewrite (changeAt target change))) else none) →
      e.changedOr target change inside =
        if target ∈ e.ids then some (e.rewrite (changeAt target change)) else none := by
    intro inside within
    rw [changedOr_eq, ids_eq_cons]
    rw [ids_eq_cons, List.nodup_cons] at distinct
    by_cases isTarget : e.id = target
    · have unchanged : e.mapChildren (rewrite (changeAt target change)) = e :=
        mapChildren_eq_self fun child isChild => rewrite_changeAt_of_notMem fun inChild =>
          distinct.1 (List.mem_flatMap.mpr ⟨child, isChild, isTarget ▸ inChild⟩)
      rw [if_pos isTarget, rewrite_eq, unchanged, changeAt, if_pos isTarget,
        if_pos (isTarget ▸ List.mem_cons_self)]
    · rw [if_neg isTarget, within isTarget, rewrite_changeAt_of_ne isTarget]
      simp only [List.mem_cons, Ne.symm isTarget, false_or]
  have apart := distinct
  rw [ids_eq_cons, List.nodup_cons] at apart
  have same : ∀ {e : Expr}, target ∉ e.ids → e.rewrite (changeAt target change) = e :=
    rewrite_changeAt_of_notMem
  cases e with
  | int | float | bool | var => exact atRoot none fun _ => rfl
  | unary id op part | member id part field | paren id part =>
      simp only [children, List.flatMap_singleton] at apart
      refine atRoot _ fun _ => ?_
      rw [modify?_eq apart.2, children, List.flatMap_singleton]
      exact map_ite_some fun _ => rfl
  | binary id op first second | assign id op first second | index id first second =>
      simp only [children, List.flatMap_cons, List.flatMap_nil, List.append_nil,
        List.nodup_append'] at apart
      refine atRoot _ fun _ => ?_
      rw [modify?_eq apart.2.1, modify?_eq apart.2.2.1]
      simp only [children, List.flatMap_cons, List.flatMap_nil, List.append_nil, List.mem_append]
      refine map_ite_some_orElse (fun inFirst => ?_) (map_ite_some fun inSecond => ?_)
      · rw [mapChildren, same fun inSecond => apart.2.2.2 inFirst inSecond]
      · rw [mapChildren, same fun inFirst => apart.2.2.2 inFirst inSecond]
  | ternary id cond whenTrue whenFalse =>
      simp only [children, List.flatMap_cons, List.flatMap_nil, List.append_nil,
        List.nodup_append', List.disjoint_append_right] at apart
      rcases apart.2 with ⟨ofCond, ⟨ofTrue, ofFalse, apartArms⟩, apartTrue, apartFalse⟩
      refine atRoot _ fun _ => ?_
      rw [modify?_eq ofCond, modify?_eq ofTrue, modify?_eq ofFalse]
      simp only [children, List.flatMap_cons, List.flatMap_nil, List.append_nil, List.mem_append]
      refine map_ite_some_orElse (fun inCond => ?_)
        (map_ite_some_orElse (fun inTrue => ?_) (map_ite_some fun inFalse => ?_))
      · rw [mapChildren, same fun inTrue => apartTrue inCond inTrue,
          same fun inFalse => apartFalse inCond inFalse]
      · rw [mapChildren, same fun inCond => apartTrue inCond inTrue,
          same fun inFalse => apartArms inTrue inFalse]
      · rw [mapChildren, same fun inCond => apartFalse inCond inFalse,
          same fun inTrue => apartArms inTrue inFalse]
  | call id callee args =>
      have ofArgs : (args.flatMap ids).Nodup := apart.2
      refine atRoot _ fun _ => ?_
      rw [modifyList?_eq ofArgs]
      exact map_ite_some fun _ => rfl

theorem modifyList?_eq {target : NodeId} {es : List Expr} (distinct : (es.flatMap ids).Nodup) :
    modifyList? target change es =
      if target ∈ es.flatMap ids then some (es.map (rewrite (changeAt target change))) else none := by
  match es with
  | [] => rfl
  | e :: rest =>
      rw [List.flatMap_cons, List.nodup_append'] at distinct
      rw [modifyList?, modify?_eq distinct.1, modifyList?_eq distinct.2.1]
      simp only [List.flatMap_cons, List.mem_append]
      refine map_ite_some_orElse (fun inFirst => ?_) (map_ite_some fun inRest => ?_)
      · have unchanged : rest.map (rewrite (changeAt target change)) = rest := by
          refine (List.map_congr_left fun other listed => ?_).trans (List.map_id' rest)
          exact rewrite_changeAt_of_notMem fun inOther =>
            distinct.2.2 inFirst (List.mem_flatMap.mpr ⟨other, listed, inOther⟩)
        rw [List.map_cons, unchanged]
      · rw [List.map_cons, rewrite_changeAt_of_notMem fun inFirst => distinct.2.2 inFirst inRest]

end

/-- The change of each node whose identifier is a target, as its step says. -/
def changeBy (steps : List (NodeId × (Expr → Expr))) (e : Expr) : Expr :=
  match steps.lookup e.id with
  | some change => change e
  | none => e

/-- A local change that leaves alone what is no target. -/
def Spares (targets : List NodeId) (change : Expr → Expr) : Prop :=
  ∀ e : Expr, e.id ∉ targets → change e = e

/-- Whether a change of a node may come before or after changes of other targets in
it.  What it drops must not be a target. -/
def NaturalAt (targets : List NodeId) (change : Expr → Expr) (e : Expr) : Prop :=
  ∀ before after : Expr → Expr, Spares targets before → Spares targets after →
    (∀ e' : Expr, e'.id = e.id → after e' = e') →
    (change (e.mapChildren (rewrite before))).rewrite after =
      change ((e.mapChildren (rewrite before)).mapChildren (rewrite after))

variable {steps : List (NodeId × (Expr → Expr))} {targets : List NodeId}

/-- Fewer targets ask for less. -/
theorem NaturalAt.anti {others : List NodeId} {e : Expr} (natural : NaturalAt targets change e)
    (fewer : others ⊆ targets) : NaturalAt others change e :=
  fun before after sparesBefore sparesAfter => natural before after
    (fun e absent => sparesBefore e fun isTarget => absent (fewer isTarget))
    (fun e absent => sparesAfter e fun isTarget => absent (fewer isTarget))

theorem changeBy_of_lookup {e : Expr} {change : Expr → Expr}
    (isStep : steps.lookup e.id = some change) : changeBy steps e = change e := by
  rw [changeBy, isStep]

theorem lookup_eq_none_iff_notMem {id : NodeId} :
    steps.lookup id = none ↔ id ∉ steps.map Prod.fst := by
  rw [List.lookup_eq_none_iff, List.mem_map, not_exists]
  refine forall_congr' fun step => ?_
  rw [not_and, bne_iff_ne]
  exact imp_congr_right fun _ => ne_comm

theorem changeBy_of_notMem {e : Expr} (absent : e.id ∉ steps.map Prod.fst) :
    changeBy steps e = e := by
  rw [changeBy, lookup_eq_none_iff_notMem.mpr absent]

/-- Where one change is for all targets, it is found for the targets alone. -/
theorem lookup_map_target (targets : List NodeId) (change : Expr → Expr) (id : NodeId) :
    (targets.map fun target => (target, change)).lookup id =
      if id ∈ targets then some change else none := by
  induction targets with
  | nil => rfl
  | cons target rest inductionHypothesis =>
      rw [List.map_cons, List.lookup_cons, inductionHypothesis]
      by_cases same : id = target
      · simp [same]
      · simp [same, beq_eq_false_iff_ne.mpr same]

theorem spares_changeBy (listed : steps.map Prod.fst ⊆ targets) : Spares targets (changeBy steps) :=
  fun _ absent => changeBy_of_notMem fun isTarget => absent (listed isTarget)

theorem spares_changeAt {target : NodeId} (listed : target ∈ targets) (change : Expr → Expr) :
    Spares targets (changeAt target change) :=
  fun _ absent => changeAt_of_ne fun isTarget => absent (isTarget ▸ listed)

/-- Of an expression that is no target only the operands change. -/
theorem Spares.rewrite_eq (spares : Spares targets change) {e : Expr} (absent : e.id ∉ targets) :
    e.rewrite change = e.mapChildren (rewrite change) := by
  rw [Expr.rewrite_eq, spares _ (by rwa [id_mapChildren])]

theorem lookup_append_singleton {target : NodeId} {change : Expr → Expr} {id : NodeId} :
    (steps ++ [(target, change)]).lookup id =
      (steps.lookup id).or (if id = target then some change else none) := by
  rw [List.lookup_append]
  by_cases same : id = target
  · simp [same]
  · simp [same, List.lookup_cons, beq_eq_false_iff_ne.mpr same]

/-- One more step after several is a step like the others, provided that each of them
is natural where it applies. -/
theorem rewrite_rewrite {target : NodeId} {e : Expr} (isNew : target ∉ steps.map Prod.fst)
    (natural : ∀ part ∈ e.subexprs, ∀ earlier, steps.lookup part.id = some earlier →
      NaturalAt (target :: steps.map Prod.fst) earlier part) :
    (e.rewrite (changeBy steps)).rewrite (changeAt target change) =
      e.rewrite (changeBy (steps ++ [(target, change)])) := by
  induction e using children_induction with
  | step e inductionHypothesis =>
      have children : ∀ child ∈ e.children,
          (child.rewrite (changeBy steps)).rewrite (changeAt target change) =
            child.rewrite (changeBy (steps ++ [(target, change)])) := fun child isChild =>
        inductionHypothesis child isChild fun part isPart =>
          natural part (mem_subexprs_trans isPart (mem_subexprs_of_mem_children isChild))
      have within : (e.mapChildren (rewrite (changeBy steps))).mapChildren
          (rewrite (changeAt target change)) =
            e.mapChildren (rewrite (changeBy (steps ++ [(target, change)]))) := by
        rw [mapChildren_mapChildren, mapChildren_congr children]
      rw [rewrite_eq (changeBy steps), rewrite_eq (changeBy (steps ++ _)), ← within]
      generalize isBehind : (e.mapChildren (rewrite (changeBy steps))).mapChildren
        (rewrite (changeAt target change)) = behind
      have sameId : behind.id = e.id := by rw [← isBehind, id_mapChildren, id_mapChildren]
      have ofStep : changeBy (steps ++ [(target, change)]) behind =
          match steps.lookup e.id with
          | some earlier => earlier behind
          | none => changeAt target change behind := by
        rw [changeBy, lookup_append_singleton, sameId, changeAt, sameId]
        cases steps.lookup e.id with
        | some earlier => rfl
        | none => by_cases isTarget : e.id = target <;> simp only [Option.none_or, isTarget, if_true, if_false]
      rw [ofStep]
      cases isStep : steps.lookup e.id with
      | some earlier =>
          have differ : e.id ≠ target := fun isTarget => by
            rw [lookup_eq_none_iff_notMem.mpr (isTarget ▸ isNew)] at isStep
            cases isStep
          rw [changeBy_of_lookup (by rwa [id_mapChildren]),
            natural e e.self_mem_subexprs earlier isStep _ _
              (spares_changeBy (List.subset_cons_self _ _))
              (spares_changeAt List.mem_cons_self _)
              fun e' same => changeAt_of_ne (same ▸ differ), isBehind]
      | none =>
          have unchanged : changeBy steps (e.mapChildren (rewrite (changeBy steps))) =
              e.mapChildren (rewrite (changeBy steps)) := by
            rw [changeBy, id_mapChildren, isStep]
          rw [unchanged, rewrite_eq, isBehind]

end Expr
end Whittle
