import Whittle.Proofs.Identifiers.Edits
import Whittle.Proofs.Reduction.Places

namespace Whittle

/-!
# Unwrapping keeps shaders valid

What a wrapper keeps comes from a scope of its own, or from that of a loop, and
moves into the list that holds the wrapper.  It may, because no jump in it needs
the wrapper, because nothing around mentions what it declares, and because it
does not refer to the variable that a loop may have declared for it.
-/

open Reduction (Names Jumps Unmentioned)

namespace Reduction
namespace Unwrapping

/-- A wrapper with the statements that it keeps and the statement that is dropped
with it, if there is one. -/
inductive Wraps : Stmt → List Stmt → Option Stmt → Prop where
  | block {id scope : NodeId} {stmts : List Stmt} : Wraps (.block id scope stmts) stmts none
  | branchTrue {id : NodeId} {cond : Expr} {whenTrue : Stmt} {whenFalse : Option Stmt} :
      Wraps (.branch id cond whenTrue whenFalse) (bodyStmts whenTrue) whenFalse
  | branchFalse {id : NodeId} {cond : Expr} {whenTrue whenFalse : Stmt} :
      Wraps (.branch id cond whenTrue (some whenFalse)) (bodyStmts whenFalse) (some whenTrue)
  | whileLoop {id : NodeId} {cond : Expr} {body : Stmt} (stays : Jumps.ofStmt body = .none) :
      Wraps (.whileLoop id cond body) (bodyStmts body) none
  | forLoop {id : NodeId} {init : Option Stmt} {cond step : Option Expr} {body : Stmt}
      (idle : isIdleInit init body = true) (stays : Jumps.ofStmt body = .none) :
      Wraps (.forLoop id init cond step body) (bodyStmts body) none

theorem eq_none_of_escape_eq_false {jumps : Jumps} (stays : (!jumps.escape) = true) :
    jumps = .none := by
  cases jumps with
  | mk breaks continues => simpa [Jumps.escape, Jumps.none] using stays

theorem wraps_of_wrapper? {everywhere : Bool} {t : Stmt} {wrapper : Wrapper} {dropped : Option Stmt}
    {moved : List Stmt} (isWrapper : wrapper? everywhere t = some (wrapper, dropped))
    (isKept : kept? wrapper t = some moved) : Wraps t moved dropped := by
  unfold wrapper? at isWrapper
  split at isWrapper
  · split at isWrapper <;> cases isWrapper
    cases isKept
    exact .block
  · split at isWrapper <;> cases isWrapper
    cases isKept
    exact .branchTrue
  · split at isWrapper <;> cases isWrapper
    · cases isKept
      exact .branchTrue
    · cases isKept
      exact .branchFalse
  · split at isWrapper
    · rename_i allowed
      cases isWrapper
      cases isKept
      exact .whileLoop (eq_none_of_escape_eq_false (Bool.and_eq_true_iff.mp allowed).2)
    · cases isWrapper
  · dsimp only at isWrapper
    split at isWrapper
    · rename_i allowed
      cases isWrapper
      cases isKept
      rw [Bool.and_eq_true, Bool.and_eq_true] at allowed
      exact .forLoop allowed.1.2 (eq_none_of_escape_eq_false allowed.2)
    · cases isWrapper
  · cases isWrapper

variable {t : Stmt} {moved : List Stmt} {dropped : Option Stmt}

theorem ofStmts_bodyStmts (body : Stmt) : Names.ofStmts (bodyStmts body) = Names.ofStmts [body] := by
  cases body with
  | block id scope stmts => exact (Names.ofStmts_block id scope stmts).symm
  | _ => rfl

theorem jumps_bodyStmts (body : Stmt) : Jumps.ofStmts (bodyStmts body) = Jumps.ofStmt body := by
  cases body <;> rfl

theorem any_holdsReturn_bodyStmts (body : Stmt) :
    (bodyStmts body).any Stmt.holdsReturn = body.holdsReturn := by
  cases body with
  | block id scope stmts => exact (Stmt.holdsReturn_block id scope stmts).symm
  | _ => exact Bool.or_false _

theorem referencesOfList_bodyStmts (bindings : Bindings) (body : Stmt) :
    Stmt.referencesOfList bindings (bodyStmts body) = body.references bindings := by
  cases body with
  | block id scope stmts => rfl
  | _ => exact List.append_nil _

/-- A variable that an idle initialiser declares is not referred to in the body. -/
theorem notMem_referenced_of_isIdleInit {init : Option Stmt} {body : Stmt} {name : String}
    (idle : isIdleInit init body = true) (declared : name ∈ Stmt.declaredBy init.toList) :
    name ∉ (Names.ofStmts [body]).referenced := by
  cases init with
  | none => cases declared
  | some s =>
      cases s with
      | decl id var =>
          rw [Option.toList_some, Check.Context.declaredBy_cons_decl, Stmt.declaredBy,
            List.filterMap_nil, List.map_nil, List.mem_singleton] at declared
          rw [declared]
          exact List.count_eq_zero.mp (beq_iff_eq.mp idle)
      | _ => cases idle

namespace Wraps

theorem declared?_eq_none (wraps : Wraps t moved dropped) : t.declared? = none := by
  cases wraps <;> rfl

theorem measure_le (wraps : Wraps t moved dropped) {measure : Names → Nat}
    (adds : ∀ first second : Names, measure (first.join second) = measure first + measure second) :
    measure (Names.ofStmts moved) ≤ measure (Names.ofStmts [t]) := by
  cases wraps with
  | block => exact Nat.le_of_eq (by rw [Names.ofStmts_block])
  | branchTrue | branchFalse =>
      simp only [ofStmts_bodyStmts, Names.ofStmts_branch, Option.toList_some, adds]
      omega
  | whileLoop =>
      simp only [ofStmts_bodyStmts, Names.ofStmts_whileLoop, adds]
      omega
  | forLoop =>
      simp only [ofStmts_bodyStmts, Names.ofStmts_forLoop, adds]
      omega

/-- A wrapper declares every name at least as often as what it keeps. -/
theorem declarations_le (wraps : Wraps t moved dropped) (name : String) :
    (Names.ofStmts moved).declarations name ≤ (Names.ofStmts [t]).declarations name :=
  @measure_le t moved dropped wraps (fun names => names.declarations name)
    fun first second => Names.declarations_join first second name

/-- A wrapper refers to every name at least as often as what it keeps. -/
theorem references_le (wraps : Wraps t moved dropped) (name : String) :
    (Names.ofStmts moved).references name ≤ (Names.ofStmts [t]).references name :=
  @measure_le t moved dropped wraps (fun names => names.references name)
    fun first second => Names.references_join first second name

/-- A `return` in a wrapper is kept or dropped with it. -/
theorem holdsReturn (wraps : Wraps t moved dropped) (holds : t.holdsReturn = true) :
    moved.any Stmt.holdsReturn = true ∨ dropped.any Stmt.holdsReturn = true := by
  cases wraps with
  | block =>
      rw [Stmt.holdsReturn_block] at holds
      exact Or.inl holds
  | branchTrue =>
      rw [Stmt.holdsReturn_branch, Bool.or_eq_true] at holds
      rwa [any_holdsReturn_bodyStmts]
  | branchFalse =>
      rw [Stmt.holdsReturn_branch, Bool.or_eq_true] at holds
      rw [any_holdsReturn_bodyStmts]
      exact holds.symm
  | whileLoop =>
      rw [Stmt.holdsReturn_whileLoop] at holds
      rw [any_holdsReturn_bodyStmts]
      exact Or.inl holds
  | @forLoop _ init _ _ body idle =>
      rw [Stmt.holdsReturn_forLoop, Bool.or_eq_true] at holds
      rw [any_holdsReturn_bodyStmts]
      refine Or.inl (holds.resolve_left fun inInit => ?_)
      cases init with
      | none => cases inInit
      | some s =>
          cases s with
          | decl => cases inInit
          | _ => cases idle

/-- The references in what is kept are references in the wrapper. -/
theorem references_subset (wraps : Wraps t moved dropped) (bindings : Bindings) :
    Stmt.referencesOfList bindings moved ⊆ t.references bindings := by
  cases wraps with
  | block => exact List.Subset.refl _
  | branchTrue | branchFalse =>
      rw [referencesOfList_bodyStmts]
      intro r listed
      simp only [Stmt.references, Stmt.referencesOfOption, List.mem_append]
      tauto
  | whileLoop =>
      rw [referencesOfList_bodyStmts]
      exact List.subset_append_right _ _
  | @forLoop _ init _ _ body idle =>
      have same : Bindings.SameOn (Names.ofStmts [body]).referenced bindings
          (bindings.header init) := fun name listed =>
        Bindings.behindList_eq_of_notMem _ fun declared =>
          notMem_referenced_of_isIdleInit idle declared listed
      rw [referencesOfList_bodyStmts, ← Stmt.references_congr same]
      intro r listed
      simp only [Stmt.references, List.mem_append]
      tauto

end Wraps
end Unwrapping
end Reduction

namespace Reduction
namespace Unwrapping

open Check (Context)
open Check.Context (Encloses acceptsList_of_hosts)

/-- The statements of an accepted body are accepted, perhaps in one scope more. -/
theorem exists_acceptsList_bodyStmts {ctx : Context} {body : Stmt} (accepted : ctx.Accepts body) :
    ∃ inner : Context, Encloses [] ctx inner ∧ inner.loops = ctx.loops ∧
      inner.switches = ctx.switches ∧ inner.AcceptsList (bodyStmts body) := by
  cases body with
  | block id scope stmts => exact ⟨ctx.opened, .opened _ ctx, rfl, rfl, accepted⟩
  | _ => exact ⟨ctx, .refl _ ctx, rfl, rfl, accepted, trivial⟩

theorem exists_acceptsList_of_acceptsBody {ctx : Context} {body : Stmt}
    (accepted : ctx.AcceptsBody body) :
    ∃ inner : Context, Encloses [] ctx inner ∧ inner.AcceptsList (bodyStmts body) := by
  cases body with
  | block id scope stmts => exact ⟨ctx, .refl _ ctx, accepted⟩
  | _ => exact ⟨ctx.opened, .opened _ ctx, accepted, trivial⟩

/-- What an accepted wrapper keeps is accepted in its place, where what it
declares is new. -/
theorem Wraps.acceptsList {t : Stmt} {moved : List Stmt} {dropped : Option Stmt} {ctx : Context}
    (wraps : Wraps t moved dropped) (accepted : ctx.Accepts t)
    (free : ∀ name ∈ Stmt.declaredBy moved, ctx.inner.lookup name = none) :
    ctx.AcceptsList moved := by
  cases wraps with
  | block =>
      exact acceptsList_of_hosts ((Encloses.opened [] ctx).hosts (by simp) free
        (fun _ => ⟨rfl, rfl⟩) fun _ => rfl) accepted
  | branchTrue =>
      rcases exists_acceptsList_bodyStmts accepted.2.1 with ⟨inner, encloses, loops, switches, within⟩
      exact acceptsList_of_hosts (((Encloses.opened [] ctx).trans encloses).hosts (by simp) free
        (fun _ => ⟨loops, switches⟩) fun _ => loops) within
  | branchFalse =>
      rcases @exists_acceptsList_bodyStmts ctx.opened _ accepted.2.2 with
        ⟨inner, encloses, loops, switches, within⟩
      exact acceptsList_of_hosts (((Encloses.opened [] ctx).trans encloses).hosts (by simp) free
        (fun _ => ⟨loops, switches⟩) fun _ => loops) within
  | whileLoop stays =>
      rcases exists_acceptsList_bodyStmts accepted.2 with ⟨inner, encloses, -, -, within⟩
      rw [← jumps_bodyStmts] at stays
      exact acceptsList_of_hosts ((((Encloses.inLoop [] ctx).trans (.opened _ _)).trans
        encloses).hosts (by simp) free (fun leaves => absurd (congrArg Jumps.breaks stays) leaves)
          fun leaves => absurd (congrArg Jumps.continues stays) leaves) within
  | @forLoop _ init _ _ body idle stays =>
      rw [Check.Context.accepts_forLoop_iff] at accepted
      rcases exists_acceptsList_of_acceptsBody accepted.2.2.2.2 with ⟨inner, encloses, within⟩
      rw [← jumps_bodyStmts] at stays
      have around : Encloses (Stmt.declaredBy init.toList) ctx inner :=
        ((Encloses.header (List.Subset.refl _)).trans (.inLoop _ _)).trans
          (encloses.mono (List.nil_subset _))
      refine acceptsList_of_hosts (around.hosts (fun name declared => ?_) free
        (fun leaves => absurd (congrArg Jumps.breaks stays) leaves)
        fun leaves => absurd (congrArg Jumps.continues stays) leaves) within
      rw [ofStmts_bodyStmts]
      exact notMem_referenced_of_isIdleInit idle declared

/-- What moves declares names that nothing else in the function mentions. -/
theorem unmentioned_of_isHygienic {f : Function} {slot : Slot} {t : Stmt} {moved : List Stmt}
    {dropped : Option Stmt} (wraps : Wraps t moved dropped) (isAt : f.body.stmts = slot.fill [t])
    (hygienic : isHygienic f moved = true) :
    Unmentioned (Stmt.declaredBy moved) (slot.fill []) ∧
      ∀ name ∈ Stmt.declaredBy moved, name ∉ f.params.map Param.name := by
  have counts : ∀ name ∈ Stmt.declaredBy moved,
      (Names.ofStmts (slot.fill [])).references name = 0 ∧
        (Names.ofStmts (slot.fill [])).declarations name = 0 ∧
          (f.params.map Param.name).count name = 0 := by
    intro name listed
    rcases List.mem_map.mp listed with ⟨var, isMoved, rfl⟩
    have both := List.all_eq_true.mp hygienic var isMoved
    rw [Bool.and_eq_true, beq_iff_eq, beq_iff_eq] at both
    have isDeclared : 0 < (Names.ofStmts moved).declarations var.name :=
      List.count_pos_iff.mpr (Names.declaredBy_subset moved listed)
    have declared := Names.declarations_fill var.name [t] slot
    have referenced := Names.references_fill var.name [t] slot
    have moreDeclared := wraps.declarations_le var.name
    have moreReferenced := wraps.references_le var.name
    have ofFunction : (Names.ofFunction f).declarations var.name =
        [f.name].count var.name + (f.params.map Param.name).count var.name +
          (Names.ofStmts (slot.fill [t])).declarations var.name := by
      rw [← isAt, ← List.count_append, Names.declarations, Names.declarations, ← List.count_append]
      rfl
    have sameReferences : (Names.ofFunction f).references var.name =
        (Names.ofStmts (slot.fill [t])).references var.name := by
      rw [← isAt]
      rfl
    omega
  refine ⟨fun name listed => ⟨?_, ?_⟩, fun name listed => ?_⟩
  · exact List.count_eq_zero.mp (counts name listed).1
  · exact List.count_eq_zero.mp (counts name listed).2.1
  · exact List.count_eq_zero.mp (counts name listed).2.2

/-- What an unwrapping of a site does, and why it may. -/
theorem exists_wraps_of_ofSite? {everywhere : Bool} {site : Site} {edit : Unwrapping}
    (found : ofSite? everywhere site = some edit) :
    ∃ wrapper moved dropped, edit = ⟨site.stmt.id, wrapper⟩ ∧
      kept? wrapper site.stmt = some moved ∧ Wraps site.stmt moved dropped ∧
      dropped.any (holdsRequiredReturn site.function) = false ∧
      (moved ≠ [] ∨ site.list.isSoleStmt = false) ∧ isHygienic site.function moved = true := by
  unfold ofSite? at found
  rcases Option.bind_eq_some_iff.mp found with ⟨⟨wrapper, dropped⟩, isWrapper, found⟩
  rcases Option.bind_eq_some_iff.mp found with ⟨moved, isKept, found⟩
  split at found
  · cases found
  · rename_i allowed
    cases found
    simp only [Bool.or_eq_true, Bool.and_eq_true, Bool.not_eq_true', List.isEmpty_iff, not_or,
      not_and, Bool.not_eq_true, Bool.not_eq_false] at allowed
    refine ⟨wrapper, moved, dropped, rfl, isKept, wraps_of_wrapper? isWrapper isKept, allowed.1.1,
      ?_, allowed.2⟩
    by_cases isEmpty : moved = []
    · exact Or.inr (allowed.1.2 isEmpty)
    · exact Or.inl isEmpty

end Unwrapping

variable {shader : Shader} {version : Version}

/-- An unwrapping that is found leaves a valid shader valid, and every reference
that remains means the variable that it meant before. -/
theorem isValid_apply_of_unwrap (valid : shader.IsValid version)
    (below : ∀ id ∈ shader.ids, id < shader.nextId) {everywhere : Bool} {edits : List Edit}
    (found : Kind.find .unwrap ⟨version, everywhere⟩ shader = .ok edits) {edit : Edit}
    (listed : edit ∈ edits) :
    (edit.apply shader).IsValid version ∧ (edit.apply shader).references ⊆ shader.references := by
  rcases Shader.isValid_iff.mp valid with ⟨distinct, follows⟩
  cases found
  rcases List.mem_map.mp listed with ⟨edit, isFound, rfl⟩
  rcases List.mem_filterMap.mp isFound with ⟨site, isSite, isEdit⟩
  rcases Unwrapping.exists_wraps_of_ofSite? isEdit with
    ⟨wrapper, moved, dropped, rfl, isKept, wraps, keepsReturn, notSole, hygienic⟩
  rcases exists_spot_of_mem_sites follows isSite with ⟨spot, sameFunction, isAt, inFunction, sole⟩
  have applied : ((Edit.unwrap ⟨site.stmt.id, wrapper⟩).apply shader).decls = spot.fill moved := by
    simp only [Edit.apply, Unwrapping.apply, Shader.findStmt?_fill isAt distinct,
      Option.bind_some, isKept]
    exact congrArg Shader.decls (Shader.replaceStmtWith_fill isAt distinct moved)
  have numbered := (Edit.unwrap ⟨site.stmt.id, wrapper⟩).isNumbered_apply ⟨distinct, below⟩
  rcases Unwrapping.unmentioned_of_isHygienic wraps inFunction hygienic with ⟨quiet, notParam⟩
  have declaresNothing := wraps.declared?_eq_none
  constructor
  · refine Shader.isValid_iff.mpr ⟨numbered.1, Shader.followsRules_fill follows isAt applied
      declaresNothing ?_ quiet ?_ ?_⟩
    · refine wraps.acceptsList (Shader.accepts_at follows isAt declaresNothing).2
        fun name isDeclared => ?_
      refine (Check.Context.encloses_atSlot _ spot.slot).free name (quiet name isDeclared).2 ?_
      refine (Check.Context.Encloses.behindParams (List.Subset.refl _)).free name ?_ rfl
      rw [sameFunction]
      exact notParam name isDeclared
    · refine Slot.fill_ne_nil (notSole.imp id fun notSole => sole.resolve_left ?_)
      rw [notSole]
      exact Bool.false_ne_true
    · intro notVoid holds
      refine (wraps.holdsReturn holds).resolve_right fun isDropped => ?_
      rw [sameFunction] at notVoid
      have required : dropped.any (holdsRequiredReturn site.function) = true := by
        cases dropped with
        | none => cases isDropped
        | some s => simpa [holdsRequiredReturn, notVoid] using isDropped
      rw [keepsReturn] at required
      cases required
  · intro r isReference
    rw [Shader.mem_references_iff applied quiet] at isReference
    rw [Shader.mem_references_iff isAt (Shader.unmentioned_of_declared? declaresNothing _)]
    exact isReference.imp id fun inMoved =>
      List.mem_append_left _ (wraps.references_subset _ inMoved)

/-- The shader `void main() { int t = 1; { int u = t; t = u; } }`. -/
def nested : Shader :=
  .ofDecls .essl100 [.function ⟨.unnumbered, .void, "main", [], ⟨.unnumbered,
    [.decl .unnumbered ⟨.unnumbered, none, .int, "t", some (.int .unnumbered 1)⟩,
     .block .unnumbered .unnumbered
      [.decl .unnumbered ⟨.unnumbered, none, .int, "u", some (.var .unnumbered "t")⟩,
       .expr .unnumbered
        (.assign .unnumbered .set (.var .unnumbered "t") (.var .unnumbered "u"))]]⟩⟩]

/-- The block goes away, and both variables are referred to as before. -/
theorem isValid_apply_nested :
    nested.IsValid .essl100 ∧
      Kind.find .unwrap ⟨.essl100, true⟩ nested = .ok [.unwrap ⟨5, .block⟩] ∧
      ((Edit.unwrap ⟨5, .block⟩).apply nested).IsValid .essl100 ∧
      ((Edit.unwrap ⟨5, .block⟩).apply nested).references ⊆ nested.references := by
  have valid : nested.IsValid .essl100 := by decide
  have found : Kind.find .unwrap ⟨.essl100, true⟩ nested = .ok [.unwrap ⟨5, .block⟩] := by rfl
  have below : ∀ id ∈ nested.ids, id < nested.nextId := by decide
  exact ⟨valid, found, isValid_apply_of_unwrap valid below found List.mem_cons_self⟩

end Reduction
end Whittle
