import Whittle.Proofs.Scoping.Sole
import Whittle.Proofs.Typing.Calls

namespace Whittle
namespace Scoping

open Check (Context)
open Reduction (Names)

/-!
# Names of globals

A name that a function does not declare selects what it does at the top level in front of
the function.  Names at the top level are declared once, so further down it still selects
the same.
-/

variable {shader : Shader} {version : Version} {types : TypeTable}

theorem eq_of_split {α β : Type} {f : α → List β} {l before before' behind behind' : List α}
    {a a' : α} {b : β} (apart : (l.flatMap f).Nodup) (split : l = before ++ a :: behind)
    (split' : l = before' ++ a' :: behind') (isPart : b ∈ f a) (isPart' : b ∈ f a') :
    before' = before ∧ a' = a := by
  induction before generalizing l before' with
  | nil =>
      cases before' with
      | nil =>
          rw [split, List.nil_append, List.nil_append] at split'
          exact ⟨rfl, (List.cons.inj split').1.symm⟩
      | cons first rest =>
          rw [split, List.nil_append, List.cons_append] at split'
          rcases List.cons.inj split' with ⟨rfl, inRest⟩
          rw [split, List.nil_append, List.flatMap_cons, inRest, List.nodup_append'] at apart
          exact absurd (List.mem_flatMap.mpr ⟨a', List.mem_append_cons_self, isPart'⟩)
            (apart.2.2 isPart)
  | cons first rest inductionHypothesis =>
      cases before' with
      | nil =>
          rw [split, List.nil_append, List.cons_append] at split'
          rcases List.cons.inj split' with ⟨rfl, inRest⟩
          rw [split, List.cons_append, List.flatMap_cons, List.nodup_append'] at apart
          exact absurd (List.mem_flatMap.mpr ⟨a, List.mem_append_cons_self, isPart⟩)
            (apart.2.2 isPart')
      | cons first' rest' =>
          rw [split, List.cons_append, List.cons_append] at split'
          rcases List.cons.inj split' with ⟨rfl, inRest⟩
          rw [split, List.cons_append, List.flatMap_cons] at apart
          rcases inductionHypothesis apart.of_append_right rfl inRest with ⟨rfl, rfl⟩
          exact ⟨rfl, rfl⟩

/-- An expression of a function stands in its body, behind the parameters and whatever is
in front of the function. -/
theorem StandsInShader.exists_body (distinct : shader.ids.Nodup) {before behind : List Decl}
    {f : Function} (split : shader.decls = before ++ .function f :: behind) {e : Expr}
    (listed : e ∈ (Decl.function f).exprs) {scopes : List Scope}
    (stands : StandsInShader shader version e scopes) :
    ∃ inFront s after root within, f.body.stmts = inFront ++ s :: after ∧ StandsIn s root within ∧
      e ∈ root.subexprs ∧
        scopes = within ++ [f.params.map .ofParam ++ declaredIn inFront, outermost version before] := by
  have ids := Shader.nodup_flatMap_ids_roots distinct
  rw [Shader.roots, List.flatMap_assoc] at ids
  have ofRoot : ∀ {decl : Decl} {root : Expr}, root ∈ decl.roots → e ∈ root.subexprs →
      e.id ∈ decl.roots.flatMap Expr.ids := fun isRoot isPart =>
    List.mem_flatMap.mpr ⟨_, isRoot, Expr.map_id_subexprs _ ▸ List.mem_map_of_mem isPart⟩
  rcases List.mem_flatMap.mp listed with ⟨root, isRoot, isPart⟩
  have here := ofRoot isRoot isPart
  cases stands with
  | globalInit split' isInit isPart' =>
      cases (eq_of_split ids split split' here (ofRoot (Option.mem_toList.mpr isInit) isPart')).2
  | @body before' behind' g inFront after s root' _ _ split' splitBody stands isPart' =>
      have isRoot' : root' ∈ (Decl.function g).roots :=
        List.mem_flatMap.mpr ⟨s, splitBody ▸ List.mem_append_cons_self, stands.mem_roots⟩
      rcases eq_of_split ids split split' here (ofRoot isRoot' isPart') with ⟨rfl, isF⟩
      cases isF
      exact ⟨inFront, s, after, root', _, splitBody, stands, isPart', rfl⟩

theorem select?_append_of_undeclared {inner outer : List Scope} {name : String}
    (undeclared : ∀ scope ∈ inner, ∀ declared ∈ scope, declared.name ≠ name) :
    select? (inner ++ outer) name = select? outer name := by
  have notFound : select? inner name = none := by
    rw [select?, List.findSome?_eq_none_iff]
    intro scope listed
    rw [List.find?_eq_none]
    intro declared isMember same
    exact undeclared scope listed declared (List.mem_reverse.mp isMember) (beq_iff_eq.mp same)
  rw [select?, List.findSome?_append, ← select?, notFound, Option.none_or]
  rfl

/-- What a function does not declare it takes from the top level in front of it. -/
theorem StandsInShader.select?_outermost (distinct : shader.ids.Nodup) {before behind : List Decl}
    {f : Function} (split : shader.decls = before ++ .function f :: behind) {e : Expr}
    (listed : e ∈ (Decl.function f).exprs) {scopes : List Scope}
    (stands : StandsInShader shader version e scopes) {name : String}
    (undeclared : (Names.ofFunction f).declarations name = 0) :
    select? scopes name = select? [outermost version before] name := by
  have others : ∀ declared ∈ declaredByDecl (.function f), declared.name ≠ name := by
    intro declared isMember same
    refine List.count_eq_zero.mp undeclared (List.mem_cons_of_mem _ ?_)
    rw [← map_name_declaredWithin]
    rcases List.mem_append.mp isMember with isParam | isLocal
    · rcases List.mem_map.mp isParam with ⟨param, listed, rfl⟩
      exact List.mem_append_left _ (List.mem_map.mpr ⟨param, listed, same⟩)
    · exact List.mem_append_right _ (same ▸ List.mem_map_of_mem isLocal)
  rcases stands.exists_body distinct split listed with
    ⟨inFront, s, after, root, within, splitBody, standsIn, -, rfl⟩
  have inFunction : ∀ stmts ⊆ f.body.stmts,
      declaredWithin stmts ⊆ declaredByDecl (.function f) := by
    intro stmts among
    refine List.subset_append_of_subset_right _ (List.map_subset _ (List.filterMap_subset _ ?_))
    exact fun s isPart => List.mem_flatMap.mpr ((List.mem_flatMap.mp isPart).imp fun _ both =>
      ⟨among both.1, both.2⟩)
  have inner : ∀ scope ∈ within ++ [f.params.map .ofParam ++ declaredIn inFront],
      scope ⊆ declaredByDecl (.function f) := by
    intro scope isScope
    rcases List.mem_append.mp isScope with isWithin | isOwn
    · refine List.Subset.trans (standsIn.subset scope isWithin) (inFunction [s] ?_)
      exact List.cons_subset.mpr ⟨splitBody ▸ List.mem_append_cons_self, List.nil_subset _⟩
    · rw [List.mem_singleton.mp isOwn]
      refine List.append_subset.mpr ⟨List.subset_append_left _ _, ?_⟩
      exact List.Subset.trans (declaredIn_subset inFront)
        (inFunction inFront (splitBody ▸ List.subset_append_left _ _))
  rw [List.append_cons]
  exact select?_append_of_undeclared fun scope isScope declared isMember =>
    others declared (inner scope isScope isMember)

theorem eq_of_mem_outermost (checked : shader.check version = .ok types) {decls : List Decl}
    (among : decls ⊆ shader.decls) {first second : Declared} (isFirst : first ∈ outermost version decls)
    (isSecond : second ∈ outermost version decls) (same : first.name = second.name) :
    first = second := by
  have isGlobal : ∀ {declared : Declared}, declared ∈ (decls.filterMap Decl.global?).map .ofVar →
      ∃ var, .global var ∈ shader.decls ∧ declared = .ofVar var := by
    intro declared isMember
    rcases List.mem_map.mp isMember with ⟨var, isVar, rfl⟩
    rcases List.mem_filterMap.mp isVar with ⟨decl, listed, isGlobal⟩
    cases decl <;> cases isGlobal
    exact ⟨var, among listed, rfl⟩
  have follows := (Shader.isValid_iff.mp ⟨types, checked⟩).2
  have isOpen : ∀ {var : VarDecl}, .global var ∈ shader.decls → IsOpen var.name := fun listed =>
    isOpen_of_acceptsDecls follows.decls (.ofVar _)
      (List.mem_flatMap.mpr ⟨_, listed, List.mem_singleton_self _⟩)
  rw [outermost_eq, List.mem_append] at isFirst isSecond
  rcases isFirst with isFirst | isFirst <;> rcases isSecond with isSecond | isSecond
  · exact eq_of_mem_predefined isFirst isSecond same
  · rcases isGlobal isSecond with ⟨var, listed, rfl⟩
    exact absurd (same.symm ▸ isOpen listed) (not_isOpen_of_mem_predefined isFirst)
  · rcases isGlobal isFirst with ⟨var, listed, rfl⟩
    exact absurd (same ▸ isOpen listed) (not_isOpen_of_mem_predefined isSecond)
  · rcases isGlobal isFirst with ⟨var, listed, rfl⟩
    rcases isGlobal isSecond with ⟨other, listed', rfl⟩
    cases Decl.eq_of_topName?_eq (Shader.nodup_topNames checked) listed listed' (congrArg some same) rfl
    rfl

/-- What alone has its name in the innermost scope is selected by it. -/
theorem select?_cons_of_mem {scope : Scope} {scopes : List Scope} {declared : Declared}
    (isMember : declared ∈ scope) (sole : ∀ other ∈ scope, other.name = declared.name → other = declared) :
    select? (scope :: scopes) declared.name = some declared := by
  have found : (scope.reverse.find? fun other => other.name == declared.name).isSome :=
    List.find?_isSome.mpr ⟨declared, List.mem_reverse.mpr isMember, beq_self_eq_true _⟩
  rcases Option.isSome_iff_exists.mp found with ⟨other, isOther⟩
  have isMember' := List.mem_reverse.mp (List.mem_of_find?_eq_some isOther)
  have named := List.find?_some isOther
  rw [select?, List.findSome?_cons, isOther, sole other isMember' (beq_iff_eq.mp named)]

/-- At the top level a name selects the one declaration that has it. -/
theorem select?_outermost_eq_some_iff (checked : shader.check version = .ok types) {decls : List Decl}
    (among : decls ⊆ shader.decls) {name : String} {declared : Declared} :
    select? [outermost version decls] name = some declared ↔
      declared ∈ outermost version decls ∧ declared.name = name := by
  constructor
  · intro selected
    rcases exists_mem_of_select? selected with ⟨⟨scope, isScope, isMember⟩, named⟩
    rw [List.mem_singleton.mp isScope] at isMember
    exact ⟨isMember, named⟩
  · rintro ⟨isMember, rfl⟩
    exact select?_cons_of_mem isMember fun other isMember' same =>
      eq_of_mem_outermost checked among isMember' isMember same

/-- Behind more declarations a name still selects what it did at the top level. -/
theorem select?_outermost_append (checked : shader.check version = .ok types) {before more : List Decl}
    (among : before ++ more ⊆ shader.decls) {name : String} {declared : Declared}
    (selected : select? [outermost version before] name = some declared) :
    select? [outermost version (before ++ more)] name = some declared := by
  have isMember := (select?_outermost_eq_some_iff checked
    (List.Subset.trans (List.subset_append_left _ _) among)).mp selected
  refine (select?_outermost_eq_some_iff checked among).mpr ⟨?_, isMember.2⟩
  rw [outermost_eq, List.filterMap_append, List.map_append, ← List.append_assoc, ← outermost_eq]
  exact List.mem_append_left _ isMember.1

end Scoping
end Whittle
