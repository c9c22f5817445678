import Whittle.Proofs.RoundTrip.Stripped
import Whittle.Proofs.Scoping.Copies
import Whittle.Proofs.Typing.Placement
import Whittle.Proofs.Typing.Equivariance

namespace Whittle

/-!
# Checking copies

A copy of a shader is checked as the shader is.  A copy under other identifiers has the same
outcome, as long as the identifiers that stand in the shader stay distinct from each other.  A
copy whose nodes are numbered anew, and one that is read from the text of the shader, have
distinct identifiers in any case; apart from that they are valid if the shader is.
-/

/-- The map on these numbers, and elsewhere a map to what lies beyond their images, the further
the larger the offset is. -/
def spread (image : Nat → Nat) (ids : List Nat) (offset id : Nat) : Nat :=
  if id ∈ ids then image id else id + (ids.map image).sum + offset + 1

section

variable {image : Nat → Nat} {ids : List Nat} {offset id : Nat}

theorem spread_of_mem (listed : id ∈ ids) : spread image ids offset id = image id :=
  if_pos listed

theorem spread_injective (injOn : Set.InjOn image {id | id ∈ ids}) :
    Function.Injective (spread image ids offset) := by
  have bounded : ∀ id ∈ ids, image id ≤ (ids.map image).sum := fun id listed =>
    List.le_sum_of_mem (List.mem_map_of_mem listed)
  intro first second same
  unfold spread at same
  split at same
  · rename_i isFirst
    have bound := bounded first isFirst
    split at same
    · rename_i isSecond
      exact injOn isFirst isSecond same
    · omega
  · split at same
    · rename_i isSecond
      have bound := bounded second isSecond
      omega
    · omega

/-- Where the offset makes no difference, the map is the one that was given. -/
theorem spread_eq_of_offsets (same : spread image ids 0 id = spread image ids 1 id) :
    spread image ids 0 id = image id := by
  unfold spread at same ⊢
  split
  · rfl
  · rename_i notListed
    rw [if_neg notListed, if_neg notListed] at same
    omega

theorem Check.Fault.mapIds_eq_of_offsets {fault : Fault}
    (same : fault.mapIds (spread image ids 0) = fault.mapIds (spread image ids 1)) :
    fault.mapIds (spread image ids 0) = fault.mapIds image := by
  cases fault with
  | repeatedId id => exact congrArg repeatedId (spread_eq_of_offsets (repeatedId.inj same))
  | _ => rfl

theorem Check.Problem.mapIds_eq_of_offsets {problem : Problem}
    (same : problem.mapIds (spread image ids 0) = problem.mapIds (spread image ids 1)) :
    problem.mapIds (spread image ids 0) = problem.mapIds image := by
  rcases problem with ⟨fault, node?⟩
  rcases Problem.mk.inj same with ⟨sameFault, sameNode⟩
  have node : node?.map (spread image ids 0) = node?.map image := by
    cases node? with
    | none => rfl
    | some node => exact congrArg some (spread_eq_of_offsets (Option.some.inj sameNode))
  exact congrArg₂ Problem.mk (Fault.mapIds_eq_of_offsets sameFault) node

end

namespace Shader

variable {shader : Shader} {version : Version} {image : NodeId → NodeId}

/-- Maps keep the outcome of the check of a shader if they are injective on its identifiers. -/
theorem check_mapIds_of_injOn (injOn : Set.InjOn image {id | id ∈ shader.ids}) :
    Check.OutcomeMapsTo image (shader.check version) ((shader.mapIds image).check version) := by
  have outcome : ∀ offset, Check.OutcomeMapsTo (spread image shader.ids offset)
      (shader.check version) ((shader.mapIds image).check version) := by
    intro offset
    have agree : shader.mapIds image = shader.mapIds (spread image shader.ids offset) :=
      mapIds_congr fun id listed => (spread_of_mem listed).symm
    rw [agree]
    exact check_mapIds_of_injective (spread_injective injOn) shader version
  cases checked : shader.check version with
  | ok types =>
      cases checked' : (shader.mapIds image).check version with
      | error problems' =>
          have impossible := outcome 0
          rw [checked, checked'] at impossible
          exact impossible
      | ok types' =>
          have same := outcome 0
          rw [checked, checked'] at same
          refine same.trans (.of_eq (List.map_congr_left fun (id, ty) listed => ?_))
          have isId : id ∈ shader.ids := mem_ids_of_getElem? checked
            (Std.TreeMap.mem_toList_iff_getElem?_eq_some.mp listed)
          rw [spread_of_mem isId]
  | error problems =>
      cases checked' : (shader.mapIds image).check version with
      | ok types' =>
          have impossible := outcome 0
          rw [checked, checked'] at impossible
          exact impossible
      | error problems' =>
          have first := outcome 0
          have second := outcome 1
          rw [checked, checked'] at first second
          -- Elsewhere the two maps differ, so every problem is at an identifier of the shader.
          refine first.trans (List.map_congr_left fun problem listed => ?_)
          exact Check.Problem.mapIds_eq_of_offsets
            (List.map_inj_left.mp (first.symm.trans second) problem listed)

end Shader

/-- The second expression has the type of the first one, wherever it stands. -/
def KeepsTy (e e' : Expr) : Prop :=
  ∀ ctx : Check.Context, ctx.typeOf e' = ctx.typeOf e

namespace Check.Context

mutual

/-- Parentheses do not change the type, and neither whether an expression may be written. -/
theorem typeOf_and_mayWrite_stripped (ctx : Context) (e : Expr) :
    ctx.typeOf e.stripped = ctx.typeOf e ∧ ctx.mayWrite e.stripped = ctx.mayWrite e := by
  cases e with
  | int | float | bool | var => exact ⟨rfl, rfl⟩
  | call id callee args => exact ⟨by rw [Expr.stripped, typeOf, typeOf, typesOf_strippedList], rfl⟩
  | paren id inner => exact ctx.typeOf_and_mayWrite_stripped inner
  | unary | binary | assign | ternary | member | index =>
      simp only [Expr.stripped, typeOf, mayWrite, typeOf_and_mayWrite_stripped, and_self]

theorem typesOf_strippedList (ctx : Context) (es : List Expr) :
    ctx.typesOf (Expr.strippedList es) = ctx.typesOf es := by
  match es with
  | [] => rfl
  | e :: rest =>
      simp only [Expr.strippedList, typesOf, (ctx.typeOf_and_mayWrite_stripped e).1,
        ctx.typesOf_strippedList rest]

end

end Check.Context

/-- An expression that can be written is read as one of its type. -/
theorem keepsTy_of_readAs {e e' : Expr} (isRead : Parse.ReadAs Expr.isPrintable e e') :
    KeepsTy e e' := by
  intro ctx
  rw [← (ctx.typeOf_and_mayWrite_stripped e').1, Expr.stripped_of_readAs isRead,
    (ctx.typeOf_and_mayWrite_stripped e).1]

namespace Shader

variable {shader : Shader} {version : Version}

/-- A freshly numbered shader whose expressions have the types of those of another shader is
valid exactly when the other one is, apart from the identifiers of that. -/
theorem isValid_iff_ofDecls {R : Expr → Expr → Prop} {decls : List Decl}
    (alike : List.Forall₂ (Decl.Alike R) shader.decls decls)
    (keeps : ∀ e e', R e e' → KeepsTy e e') :
    shader.IsValid version ↔
      shader.ids.Nodup ∧ (ofDecls shader.version decls).IsValid version := by
  have numbered : Renumbers R KeepsTy := fun start e e' related ctx =>
    (ctx.typeOf_numbered start e').trans (keeps e e' related ctx)
  have same : shader.Alike KeepsTy (ofDecls shader.version decls) :=
    ⟨rfl, Decl.alikeList_numbered numbered 0 alike⟩
  have follows : shader.FollowsRules version ↔
      (ofDecls shader.version decls).FollowsRules version :=
    same.followsRules_iff fun one _ _ keepsTy => keepsTy one.ctx
  have distinct := (isNumbered_ofDecls shader.version decls).1
  rw [isValid_iff, isValid_iff, follows, and_iff_right distinct]

/-- The outcome of a check does not depend on which identifiers the nodes have, but only on which
of them have the same.  So a copy with distinct identifiers, freshly numbered or read from the
text, is valid exactly when the shader is, apart from identifiers that stand twice in it. -/
theorem check_mapIds :
    (∀ (shader : Shader) (version : Version) (image : NodeId → NodeId),
      Set.InjOn image {id | id ∈ shader.ids} →
        Check.OutcomeMapsTo image (shader.check version) ((shader.mapIds image).check version)) ∧
    (∀ (shader : Shader) (version : Version), shader.IsValid version ↔
      shader.ids.Nodup ∧ (ofDecls shader.version shader.decls).IsValid version) ∧
    ∀ (shader : Shader) (version : Version), shader.isPrintable = true →
      ∃ copy, Shader.parse shader.text = .ok copy ∧
        (shader.IsValid version ↔ shader.ids.Nodup ∧ copy.IsValid version) := by
  refine ⟨fun shader version image injOn => check_mapIds_of_injOn injOn, fun shader version => ?_,
    fun shader version printable => ?_⟩
  · have unchanged : List.Forall₂ (Decl.Alike Eq) shader.decls shader.decls :=
      List.forall₂_same.mpr fun decl _ => .of_refl (fun _ => rfl) decl
    exact isValid_iff_ofDecls unchanged fun e e' same ctx => by rw [same]
  · rcases exists_parse_text Expr.readable_of_isPrintable printable with ⟨decls, isRead, alike⟩
    exact ⟨_, isRead, isValid_iff_ofDecls alike fun _ _ => keepsTy_of_readAs⟩

/-- The shader `void main() { x; }`, in which the statement and the expression in it have one
identifier. -/
def clashing : Shader :=
  ⟨.essl300, [.function ⟨0, .void, "main", [], ⟨1, [.expr 2 (.var 2 "x")]⟩⟩], 3⟩

/-- The identifiers from zero to two in the opposite order. -/
def opposite (id : NodeId) : NodeId :=
  2 - id

/-- The two problems of the shader are at another node if its identifiers are exchanged, and no
copy with distinct identifiers is valid either. -/
theorem check_mapIds_clashing :
    Set.InjOn opposite {id | id ∈ clashing.ids} ∧
    (clashing.mapIds opposite).check .essl300 =
      .error [⟨.repeatedId 0, some 0⟩, ⟨.undeclared "x", some 0⟩] ∧
    clashing.isPrintable = true ∧ ∃ copy, Shader.parse clashing.text = .ok copy ∧
      (clashing.IsValid .essl300 ↔ clashing.ids.Nodup ∧ copy.IsValid .essl300) := by
  have distinct : ∀ first ∈ clashing.ids, ∀ second ∈ clashing.ids,
      opposite first = opposite second → first = second := by decide
  have injOn : Set.InjOn opposite {id | id ∈ clashing.ids} := fun first isFirst second isSecond =>
    distinct first isFirst second isSecond
  have printable : clashing.isPrintable = true := by decide
  have outcome := check_mapIds.1 clashing .essl300 opposite injOn
  have problems : ((Check.checkShader clashing .essl300).run .empty).2.problems =
      [⟨.repeatedId 2, some 2⟩, ⟨.undeclared "x", some 2⟩] := by decide
  have rejected : clashing.check .essl300 =
      .error [⟨.repeatedId 2, some 2⟩, ⟨.undeclared "x", some 2⟩] := by
    unfold check
    dsimp only
    rw [problems]
    rfl
  refine ⟨injOn, ?_, printable, check_mapIds.2.2 clashing .essl300 printable⟩
  rw [rejected] at outcome
  cases checked : (clashing.mapIds opposite).check .essl300 with
  | ok types =>
      rw [checked] at outcome
      exact outcome.elim
  | error others =>
      rw [checked] at outcome
      exact congrArg _ outcome

end Shader
end Whittle
