import Whittle.Proofs.Identifiers.NodeIds
import Whittle.Proofs.Scoping.References
import Whittle.Proofs.Typing.Congruence

namespace Whittle

open Reduction (Names)

/-!
# Copies under new identifiers

An edit that needs an expression or a statement a second time takes a copy with
new identifiers.  The copy has the shape, the types and the names of the
original, so its references resolve as those of the original would in its place.
-/

namespace Check.Context

mutual

/-- A copy has the type of the original, and may be written if that may. -/
theorem typeOf_and_mayWrite_numbered (ctx : Context) (start : NodeId) (e : Expr) :
    ctx.typeOf (e.numbered start) = ctx.typeOf e ∧
      ctx.mayWrite (e.numbered start) = ctx.mayWrite e := by
  cases e with
  | int | float | bool | var => exact ⟨rfl, rfl⟩
  | call id callee args =>
      exact ⟨by rw [Expr.numbered, typeOf, typeOf, typesOf_numberedList], rfl⟩
  | unary | binary | assign | ternary | member | index | paren =>
      simp only [Expr.numbered, typeOf, mayWrite, typeOf_and_mayWrite_numbered, and_self]

theorem typesOf_numberedList (ctx : Context) (start : NodeId) (es : List Expr) :
    ctx.typesOf (Expr.numberedList start es) = ctx.typesOf es := by
  match es with
  | [] => rfl
  | e :: rest =>
      simp only [Expr.numberedList, typesOf, (typeOf_and_mayWrite_numbered ctx _ e).1,
        typesOf_numberedList ctx _ rest]

end

theorem typeOf_numbered (ctx : Context) (start : NodeId) (e : Expr) :
    ctx.typeOf (e.numbered start) = ctx.typeOf e :=
  (ctx.typeOf_and_mayWrite_numbered start e).1

end Check.Context

namespace Expr

mutual

/-- A copy refers to the same variables in the same order. -/
theorem varNames_numbered (start : NodeId) (e : Expr) :
    (e.numbered start).subexprs.filterMap varName? = e.subexprs.filterMap varName? := by
  cases e with
  | int | float | bool | var => rfl
  | call id callee args =>
      simp only [numbered, subexprs, List.filterMap_cons, varName?]
      exact varNames_numberedList (start + 1) args
  | unary | binary | assign | ternary | member | index | paren =>
      simp only [numbered, subexprs, List.filterMap_cons, varName?, List.filterMap_append,
        varNames_numbered]

theorem varNames_numberedList (start : NodeId) (es : List Expr) :
    (subexprsOfList (numberedList start es)).filterMap varName? =
      (subexprsOfList es).filterMap varName? := by
  match es with
  | [] => rfl
  | e :: rest =>
      simp only [numberedList, subexprsOfList, List.filterMap_append, varNames_numbered start e,
        varNames_numberedList _ rest]

end

theorem exists_of_mem_numberedList {start : NodeId} {es : List Expr} {e' : Expr}
    (listed : e' ∈ numberedList start es) : ∃ e ∈ es, ∃ from' : NodeId, e' = e.numbered from' := by
  induction es generalizing start with
  | nil => cases listed
  | cons e rest inductionHypothesis =>
      rw [numberedList, List.mem_cons] at listed
      rcases listed with rfl | listed
      · exact ⟨e, List.mem_cons_self, start, rfl⟩
      · rcases inductionHypothesis listed with ⟨e, isMember, from', rfl⟩
        exact ⟨e, List.mem_cons_of_mem _ isMember, from', rfl⟩

theorem children_numbered (start : NodeId) (e : Expr) :
    (e.numbered start).children = numberedList (start + 1) e.children := by
  cases e <;> rfl

/-- A part of a copy is a copy of a part. -/
theorem exists_of_mem_subexprs_numbered {start : NodeId} {e part' : Expr}
    (isPart : part' ∈ (e.numbered start).subexprs) :
    ∃ part ∈ e.subexprs, ∃ from' : NodeId, part' = part.numbered from' := by
  induction e using children_induction generalizing start with
  | step e inductionHypothesis =>
      rw [subexprs_eq_cons, List.mem_cons] at isPart
      rcases isPart with rfl | within
      · exact ⟨e, e.self_mem_subexprs, start, rfl⟩
      rcases List.mem_flatMap.mp within with ⟨child', isChild', isPart⟩
      rw [children_numbered] at isChild'
      rcases exists_of_mem_numberedList isChild' with ⟨child, isChild, from', rfl⟩
      rcases inductionHypothesis child isChild isPart with ⟨part, isPart, isCopy⟩
      exact ⟨part, mem_subexprs_trans isPart (mem_subexprs_of_mem_children isChild), isCopy⟩

/-- A copy writes a copy of what the original writes. -/
theorem written?_numbered (start : NodeId) (e : Expr) :
    (e.numbered start).written? = e.written?.map (numbered (start + 1)) := by
  cases e with
  | unary id op operand =>
      simp only [numbered, written?]
      split <;> rfl
  | _ => rfl

theorem referenced_numbered (start : NodeId) (e : Expr) :
    (Names.ofExpr (e.numbered start)).referenced = (Names.ofExpr e).referenced := by
  simp only [Names.ofExpr, Names.ofExprs, List.flatMap_singleton, varNames_numbered]

/-- References resolve as the names do that are referred to. -/
theorem map_references (bindings : Bindings) (roots : List Expr) :
    (references bindings roots).map (fun r => (r.name, r.decl)) =
      (Names.ofExprs roots).referenced.map fun name => (name, bindings name) := by
  simp only [references, Names.ofExprs, List.map_filterMap]
  refine List.filterMap_congr fun e _ => ?_
  cases e <;> rfl

/-- A reference in a copy has a new identifier, and in its place the original has
one that resolves alike. -/
theorem exists_of_mem_references_numbered {bindings : Bindings} {start : NodeId} {e : Expr}
    {r : Reference} (listed : r ∈ references bindings [e.numbered start]) :
    start ≤ r.id ∧ ∃ original ∈ references bindings [e],
      original.name = r.name ∧ original.decl = r.decl := by
  constructor
  · rcases List.mem_filterMap.mp listed with ⟨part, isPart, isReference⟩
    rw [List.flatMap_singleton] at isPart
    have inCopy : part.id ∈ (e.numbered start).ids :=
      (map_id_subexprs (e.numbered start)) ▸ List.mem_map_of_mem isPart
    rw [ids_numbered, List.mem_range'_1] at inCopy
    cases part with
    | var id name =>
        rw [← Option.some.inj isReference]
        exact inCopy.1
    | _ => cases isReference
  · have same : (Names.ofExprs [e.numbered start]).referenced = (Names.ofExprs [e]).referenced :=
      referenced_numbered start e
    have inMap : (r.name, r.decl) ∈
        (references bindings [e.numbered start]).map fun r => (r.name, r.decl) :=
      List.mem_map_of_mem listed
    rw [map_references, same, ← map_references] at inMap
    rcases List.mem_map.mp inMap with ⟨original, isOriginal, alike⟩
    exact ⟨original, isOriginal, (Prod.mk.inj alike).1, (Prod.mk.inj alike).2⟩

end Expr
end Whittle
