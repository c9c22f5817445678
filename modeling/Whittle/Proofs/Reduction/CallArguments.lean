import Whittle.Proofs.Reduction.ValueEdits
import Whittle.Proofs.Syntax.Mapping
import Whittle.Proofs.Typing.Narrowing

namespace Whittle

/-!
# Taking an argument out of every call of a name

The calls are collected by identifier and change one after the other, also where one
stands in an argument of another.  Together this is one change of all expressions.
-/

open Reduction (callIds withoutArg)
open Whittle.Expr (rewrite changeBy NaturalAt)
open Narrowing (shortened withoutArgOf)

/-- Where no two members have one key, the first member with the key of a member is that
member. -/
theorem findIdx?_key {α β : Type} [BEq β] [LawfulBEq β] {key : α → β} {all : List α} {position : Nat}
    {one : α} (apart : (all.map key).Nodup) (isAt : all[position]? = some one) :
    (all.findIdx? fun other => key other == key one) = some position := by
  rcases List.getElem?_eq_some_iff.mp isAt with ⟨inRange, rfl⟩
  refine List.findIdx?_eq_some_iff_getElem.mpr
    ⟨inRange, beq_self_eq_true _, fun earlier isEarlier same => ?_⟩
  have sameMember := List.inj_on_of_nodup_map apart (List.getElem_mem _) (List.getElem_mem inRange)
    (beq_iff_eq.mp same)
  exact Nat.ne_of_lt isEarlier ((List.Nodup.getElem_inj_iff apart.of_map).mp sameMember)

/-- An argument may go before or after the others change. -/
theorem Expr.naturalAt_withoutArg (targets : List NodeId) (position : Nat) (e : Expr) :
    NaturalAt targets (withoutArg position) e := by
  intro before after _ _ fixed
  cases e with
  | call id callee args =>
      have keeps : ∀ args, after (.call id callee args) = .call id callee args := fun args =>
        fixed (.call id callee args) rfl
      simp only [Expr.mapChildren, withoutArg, Expr.rewrite_eq, keeps, List.eraseIdx_map]
  | _ =>
      rw [Expr.mapChildren, withoutArg, Expr.rewrite_eq]
      · exact fixed _ rfl
      all_goals rintro _ _ _ ⟨⟩

namespace Shader

variable {shader : Shader}

/-- The changes by identifier that take an argument out of each call of a name. -/
def argSteps (shader : Shader) (callee : String) (position : Nat) : List (NodeId × (Expr → Expr)) :=
  (callIds shader.exprs callee).map fun target => (target, withoutArg position)

/-- In an expression of the shader, the calls with these identifiers are the calls of the
name. -/
theorem rewrite_argSteps (distinct : shader.ids.Nodup) (callee : String) (position : Nat) {e : Expr}
    (isRoot : e ∈ shader.roots) :
    e.rewrite (changeBy (shader.argSteps callee position)) = shortened callee position e := by
  refine Expr.rewrite_congr fun part isPart inner => ?_
  have listed : part ∈ shader.exprs := List.mem_flatMap.mpr ⟨e, isRoot, isPart⟩
  have sameCalls : (part.mapChildren inner).calls callee = part.calls callee := by
    cases part <;> rfl
  have isStep : (shader.argSteps callee position).lookup (part.mapChildren inner).id =
      if part.calls callee = true then some (withoutArg position) else none := by
    rw [argSteps, Expr.lookup_map_target, Expr.id_mapChildren, callIds]
    simp only [Shader.id_mem_map_filter_iff distinct listed]
  rw [changeBy, isStep, withoutArgOf, sameCalls]
  cases part.calls callee <;> rfl

/-- Taking an argument out of each call of a name in turn shortens all of them. -/
theorem modifyExprs_callIds (numbered : shader.IsNumbered) (callee : String) (position : Nat) :
    shader.modifyExprs (callIds shader.exprs callee) (withoutArg position) =
      shader.mapExprs (shortened callee position) := by
  have unchanged : shader.mapExprs (rewrite (changeBy [])) = shader :=
    Shader.mapExprs_eq_self fun e _ => Expr.rewrite_eq_self fun _ _ => rfl
  have changed : (shader.mapExprs (rewrite (changeBy []))).modifyExprs (callIds shader.exprs callee)
      (withoutArg position) =
        shader.mapExprs (rewrite (changeBy ([] ++ shader.argSteps callee position))) := by
    refine Shader.modifyExprs_mapExprs (unchanged.symm ▸ numbered)
      (Reduction.ids_withoutArg_sublist position) ?_ fun part _ change isStep => ?_
    · exact (numbered.1.sublist (Shader.map_id_exprs_sublist shader)).sublist
        (List.filter_sublist.map Expr.id)
    · have isTarget : (shader.argSteps callee position).lookup part.id = some change := isStep
      rw [argSteps, Expr.lookup_map_target, Option.ite_none_right_eq_some] at isTarget
      cases isTarget.2
      exact Expr.naturalAt_withoutArg _ _ _
  rw [unchanged, List.nil_append] at changed
  rw [changed]
  exact Shader.mapExprs_congr fun e isRoot => rewrite_argSteps numbered.1 callee position isRoot

end Shader

namespace Narrowing

variable {callee : String} {position : Nat}

/-- What has no calls of the name stays as it is. -/
theorem shortened_eq_self {e : Expr} (noCalls : ∀ part ∈ e.subexprs, part.calls callee = false) :
    shortened callee position e = e := by
  rw [shortened, Expr.rewrite_eq_self]
  exact fun part isPart => if_neg (Bool.eq_false_iff.mp (noCalls part isPart))

/-- A call afterwards was a call before, with one more argument. -/
theorem exists_args_of_shortened_eq {id : NodeId} {args' : List Expr} {e : Expr}
    (same : .call id callee args' = shortened callee position e) :
    ∃ args, e = .call id callee args ∧ args' = (args.eraseIdx position).map (shortened callee position) ∧
      args'.map Expr.id = (args.eraseIdx position).map Expr.id := by
  cases calls : e.calls callee with
  | false =>
      rw [shortened_of_calls_eq_false calls] at same
      cases e <;> cases same
      cases calls.symm.trans (beq_self_eq_true callee)
  | true =>
      rcases exists_of_calls calls with ⟨_, args, rfl⟩
      rw [shortened_call] at same
      cases same
      refine ⟨args, rfl, rfl, ?_⟩
      rw [List.map_map]
      exact List.map_congr_left fun arg _ => id_shortened arg

end Narrowing
end Whittle
