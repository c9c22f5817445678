import Whittle.Proofs.Identifiers.Edits
import Whittle.Proofs.Reduction.ExprChanges
import Whittle.Proofs.Reduction.ValueEdits
import Whittle.Proofs.Scoping.Sole
import Whittle.Proofs.Scoping.Writes
import Whittle.Proofs.Syntax.Renewal
import Whittle.Proofs.Typing.Inlining

namespace Whittle
namespace Reduction
namespace InitInlining

/-!
# Inlining an initialiser keeps a shader valid

The search compares names as text.  It finds a local whose name is declared once, as are
all names that its initialiser refers to, and asks that none of them is written.  So a
copy of the initialiser refers to the same variables wherever it is put in, and these
never change.
-/

open Check (Context Binding)
open Check.Context (Covers)
open Whittle.Expr (rewrite changeBy)
open Scoping (StandsInShader Declared select?)

/-- A local variable with an initialiser, and the statement that declares it. -/
structure Source extends Inlining where
  declId : NodeId
  varId : NodeId
  qualifier : Option Qualifier
  ty : Ty

namespace Source

variable (source : Source)

def var : VarDecl :=
  ⟨source.varId, source.qualifier, source.ty, source.name, some source.init⟩

/-- The statement that declares the variable. -/
def stmt : Stmt :=
  .decl source.declId source.var

/-- What the variable stands for where it is in scope. -/
def binding : Binding :=
  ⟨source.ty, Check.isWritable source.qualifier⟩

end Source

variable {edit : InitInlining} {shader : Shader} {version : Version} {types : TypeTable} {spot : Spot}
  {source : Source}

/-- The edit is about the variable that is declared at the place.  Its name is declared once
and never written, and the initialiser has no effect and reads nothing that may change. -/
structure Follows (edit : InitInlining) (shader : Shader) (spot : Spot) (source : Source) : Prop where
  isAt : shader.decls = spot.fill [source.stmt]
  declStmt : edit.declStmt = source.declId
  name : edit.name = source.name
  sole : (Names.ofShader shader).declarations source.name = 1
  unassigned : (Names.ofShader shader).assigns source.name = false
  isPure : isPure shader source.init = true
  stable : ∀ name ∈ source.names, isStable (Names.ofShader shader) name = true

theorem exists_follows (checked : shader.check version = .ok types) {everywhere : Bool}
    (found : edit ∈ find everywhere shader) : ∃ spot source, edit.Follows shader spot source := by
  rcases List.mem_filterMap.mp found with ⟨site, isSite, found⟩
  rcases exists_spot_of_mem_sites (Shader.isValid_iff.mp ⟨types, checked⟩).2 isSite with
    ⟨spot, -, isAt, -⟩
  simp only [ofStmt?, bind, Option.bind_eq_some_iff, Option.ite_none_right_eq_some, isInlinable,
    Bool.and_eq_true, Bool.not_eq_true', beq_iff_eq, List.all_eq_true, Option.some.injEq] at found
  rcases found with ⟨var, declares, init, hasInit,
    ⟨-, ⟨⟨⟨⟨sole, unassigned⟩, -⟩, isPure⟩, stable⟩⟩, rfl⟩
  rcases site with ⟨f, list, s⟩
  cases s <;> cases declares
  rename_i declId
  rcases var with ⟨varId, qualifier, ty, name, init?⟩
  cases hasInit
  exact ⟨spot, ⟨⟨name, init⟩, declId, varId, qualifier, ty⟩, isAt, rfl, rfl, sole, unassigned, isPure,
    stable⟩

section

variable (follows : edit.Follows shader spot source)
include follows

theorem Follows.init_mem_roots : source.init ∈ shader.roots :=
  (Shader.mem_roots_fill_iff follows.isAt).mpr (.inr List.mem_cons_self)

theorem Follows.mem_exprs_of_init {part : Expr} (isPart : part ∈ source.init.subexprs) :
    part ∈ shader.exprs :=
  List.mem_flatMap.mpr ⟨source.init, follows.init_mem_roots, isPart⟩

theorem Follows.sole_of_mem_names {name : String} (listed : name ∈ source.names) :
    (Names.ofShader shader).declarations name ≤ 1 ∧ (Names.ofShader shader).assigns name = false := by
  have stable := follows.stable name listed
  rwa [isStable, Bool.and_eq_true, decide_eq_true_iff, Bool.not_eq_true'] at stable

/-- Around the place nothing is declared that has the name of the variable. -/
theorem Follows.around : spot.DeclaresAround (· ≠ source.name) := by
  refine Spot.declaresAround_of_fill fun name listed same => ?_
  have adds := Decl.count_declaredNames_fill source.name [source.stmt] spot
  have own : (Names.ofStmts [source.stmt]).declarations source.name = 1 := List.count_singleton_self
  have sole : (Names.ofShader shader).declared.count source.name = 1 := follows.sole
  have isDeclared := List.count_pos_iff.mpr (same ▸ listed)
  rw [← follows.isAt, ← Names.declared_ofShader, own, sole] at adds
  omega

variable (checked : shader.check version = .ok types)
include checked

theorem Follows.acceptsVar : (spot.ctx version).AcceptsVar source.var :=
  (Shader.acceptsList_at (Shader.isValid_iff.mp ⟨types, checked⟩).2 follows.isAt).1.2

omit checked in
theorem Follows.init_placed : ⟨spot.ctx version, source.init⟩ ∈ shader.placed version :=
  Shader.placedList_subset_placed follows.isAt List.mem_cons_self

theorem Follows.typeOf_init : (spot.ctx version).typeOf source.init = some source.ty :=
  (follows.acceptsVar checked).initialised source.init rfl

/-- At the place the variable is not in scope yet. -/
theorem Follows.lookup?_name : (spot.ctx version).lookup? source.name = none :=
  spot.stable_ctx (Context.stable_at source.name (· = none))
    (Context.lookup?_initial (follows.acceptsVar checked).free.1 version) follows.around

/-- Whatever the initialiser refers to is in scope at the place. -/
theorem Follows.isSome_of_mem_names {name : String} (listed : name ∈ source.names) :
    ((spot.ctx version).lookup? name).isSome := by
  rcases Names.mem_referenced_ofExpr_iff.mp listed with ⟨id, isPart⟩
  have typed := Context.isSome_of_mem_subexprs
    (Option.isSome_of_eq_some (follows.typeOf_init checked)) isPart
  rwa [Context.typeOf, Option.isSome_map] at typed

/-- So the initialiser does not refer to the variable. -/
theorem Follows.notMem_names : source.name ∉ source.names := by
  intro listed
  have visible := follows.isSome_of_mem_names checked listed
  rw [follows.lookup?_name checked] at visible
  cases visible

theorem Follows.init_noReference {part : Expr} (isPart : part ∈ source.init.subexprs) :
    part.varName? ≠ some source.name := by
  intro isVar
  cases part <;> cases isVar
  exact follows.notMem_names checked (Names.mem_referenced_ofExpr_iff.mpr ⟨_, isPart⟩)

/-- Wherever the variable is in scope, so is what its initialiser refers to. -/
theorem Follows.allAt_shows : Context.AllAt (source.Shows (spot.ctx version) source.binding)
    (shader.placed version) := by
  have notReserved := (follows.acceptsVar checked).free.1
  have hidden := follows.lookup?_name checked
  rw [Shader.placed, follows.isAt]
  refine spot.allAt_fill (Context.stable_at source.name (· = none)) (source.inherited_shows _ _)
    (fun _ isHidden => .inl isHidden) (Context.lookup?_initial notReserved version) follows.around
    (List.forall_mem_singleton.mpr (.inl hidden)) (.inr ⟨?_, ?_, fun name listed => ?_⟩)
  · exact (Context.lookup?_declared _ _ _ _).trans (if_pos ⟨notReserved, rfl⟩)
  · exact Inlining.covers_declared ⟨rfl, fun _ _ => id, fun _ _ _ => id, List.forall_mem_nil _⟩ _ _
  · show (((spot.ctx version).declared source.name source.binding).lookup? name).isSome
    rw [Context.lookup?_declared]
    split
    · rfl
    · exact follows.isSome_of_mem_names checked listed

/-- What the initialiser refers to stands for the same wherever the variable is in scope, so
the initialiser has the type of the variable there. -/
theorem Follows.sees {one : Check.Context.Placed} (listed : one ∈ shader.placed version)
    {binding : Binding} (isBinding : one.ctx.lookup? source.name = some binding) :
    one.ctx.typeOf source.init = some binding.ty := by
  rcases follows.allAt_shows checked one listed with isHidden | ⟨stands, covers, visible⟩
  · rw [isHidden] at isBinding
    cases isBinding
  rw [stands] at isBinding
  cases isBinding
  have lookups : ∀ name ∈ source.names,
      one.ctx.lookup? name = (spot.ctx version).lookup? name := fun name isRead =>
    Scoping.lookup?_eq_of_mem_placed checked (follows.sole_of_mem_names isRead).1
      follows.init_placed listed (follows.isSome_of_mem_names checked isRead) (visible name isRead)
  have coversNames : Covers source.names (spot.ctx version) one.ctx := { covers with lookups }
  exact coversNames.typeOf_eq_some (List.Subset.refl _) (follows.typeOf_init checked)

omit checked in
/-- Nothing writes the variable or anything that its initialiser refers to. -/
theorem Follows.leavesAlone : shader.LeavesAlone (source.name :: source.names) := by
  refine Shader.leavesAlone_of_written? fun e listed operand isWritten name isName => ?_
  rcases List.mem_cons.mp isName with rfl | isRead
  · exact Names.writtenVar?_ne_of_assigns follows.unassigned listed isWritten
  · exact Names.writtenVar?_ne_of_assigns (follows.sole_of_mem_names isRead).2 listed isWritten

end

def copies (init : Expr) : Renewal NodeId where
  target id := id
  make next _ := .paren (next + init.size) (init.numbered next)
  cost := init.size + 1
  renews next _ := by
    let shader : Shader := ⟨.essl100, [], next⟩
    exact (shader.renews_refreshExpr init []).draw (shader.draws_refreshExpr init).forward

/-- The identifiers of the references to the variable. -/
def targets (edit : InitInlining) (shader : Shader) : List NodeId :=
  (shader.exprs.filter fun e => e.varName? == some edit.name).map Expr.id

def change (edit : InitInlining) (shader : Shader) (init : Expr) : Expr → Expr :=
  rewrite (changeBy ((copies init).steps shader.nextId (edit.targets shader)))

theorem Follows.findStmt? (follows : edit.Follows shader spot source) (distinct : shader.ids.Nodup) :
    shader.findStmt? edit.declStmt = some source.stmt :=
  follows.declStmt ▸ Shader.findStmt?_fill follows.isAt distinct

theorem Follows.apply_eq (follows : edit.Follows shader spot source) (numbered : shader.IsNumbered) :
    edit.apply shader = Shader.mapExprs (edit.change shader source.init)
      { shader with
        nextId := shader.nextId + (copies source.init).cost * (edit.targets shader).length } := by
  have among : (edit.targets shader).Sublist shader.ids :=
    (List.filter_sublist.map Expr.id).trans (Shader.map_id_exprs_sublist shader)
  have folded := (copies source.init).foldl_replace numbered
    ((List.map_id (edit.targets shader)).symm ▸ numbered.1.sublist among)
    fun id listed => numbered.2 id (among.subset listed)
  rw [apply, follows.findStmt? numbered.1]
  exact folded

section

variable (follows : edit.Follows shader spot source) (distinct : shader.ids.Nodup)
include follows distinct

/-- Each part changes as an inlining of its variable does. -/
theorem Follows.changesAt {e : Expr} (listed : e ∈ shader.exprs) :
    source.ChangesAt (edit.change shader source.init) e := by
  by_cases isReference : e.varName? = some source.name
  · have isTarget : e.id ∈ edit.targets shader := by
      refine List.mem_map_of_mem (List.mem_filter.mpr ⟨listed, ?_⟩)
      rw [isReference, follows.name]
      exact beq_self_eq_true _
    rcases (copies source.init).exists_lookup_steps isTarget with ⟨step, isStep⟩
    rcases (copies source.init).exists_of_lookup_steps isStep with ⟨_, _, later, _, _, rfl⟩
    cases e with
    | var id name =>
        cases isReference
        exact .reference rfl (@Expr.changeBy_of_lookup _ (.var id source.name) _ isStep)
    | _ => cases isReference
  · refine .other isReference ((Expr.spares_changeBy (List.Subset.refl _)).rewrite_eq fun isTarget => ?_)
    rw [Renewal.map_fst_steps] at isTarget
    rcases List.mem_map.mp isTarget with ⟨_, isTarget, rfl⟩
    rcases List.mem_map.mp isTarget with ⟨other, isOther, sameId⟩
    rw [List.mem_filter, beq_iff_eq, follows.name] at isOther
    cases Shader.expr_eq_of_id_eq distinct isOther.1 listed sameId
    exact isReference isOther.2

/-- Nothing is around a reference but what changes in its operands alone. -/
theorem Follows.change_around (e : Expr) : ∀ outer ∈ shader.exprs, ∀ child ∈ outer.children,
    e ∈ child.subexprs → edit.change shader source.init outer =
      outer.mapChildren (edit.change shader source.init) := by
  intro outer listed child isChild _
  cases follows.changesAt distinct listed with
  | reference isReference _ =>
      cases isReference
      cases isChild
  | other _ changed => exact changed

end

/-! ## The shader afterwards -/

section

variable (follows : edit.Follows shader spot source) (checked : shader.check version = .ok types)
include follows checked

theorem Follows.typeOf_change {one : Check.Context.Placed} (listed : one ∈ shader.placed version)
    {part : Expr} (isPart : part ∈ one.e.subexprs) :
    one.ctx.typeOf (edit.change shader source.init part) = one.ctx.typeOf part := by
  have inShader : ∀ inner ∈ part.subexprs, inner ∈ shader.exprs := fun inner isInner =>
    Shader.mem_exprs_iff.mpr ⟨one, listed, Expr.mem_subexprs_trans isInner isPart⟩
  refine (Inlining.typeOf_and_mayWrite (fun binding => follows.sees checked listed)
    (Shader.types_eq_typeOf checked listed isPart).1 (fun inner isInner =>
      follows.changesAt (Shader.isValid_iff.mp ⟨types, checked⟩).1 (inShader inner isInner))
    fun inner isInner operand isWritten => ?_).1
  exact Names.writtenVar?_ne_of_assigns follows.unassigned (inShader inner isInner) isWritten

variable {edited : Shader} {types' : TypeTable}
  (isEdited : edited.decls = shader.decls.map (Decl.mapExprs (edit.change shader source.init)))
include isEdited

theorem Follows.followsRules : edited.FollowsRules version := by
  refine (Shader.followsRules_mapExprs_iff isEdited ?_).mp (Shader.isValid_iff.mp ⟨types, checked⟩).2
  rintro one listed _ rfl
  exact follows.typeOf_change checked listed one.e.self_mem_subexprs

/-- Whatever is there afterwards has changed, or it is a part of a copy of the initialiser
with the parentheses around it. -/
theorem Follows.exists_of_mem_exprs {e' : Expr} (listed' : e' ∈ edited.exprs) :
    (∃ e ∈ shader.exprs, e.varName? ≠ some source.name ∧
      e' = e.mapChildren (edit.change shader source.init) ∧
      e' = edit.change shader source.init e) ∨
      ∃ paren start, e' ∈ (Expr.paren paren (source.init.numbered start)).subexprs := by
  have distinct := (Shader.isValid_iff.mp ⟨types, checked⟩).1
  have changes : ∀ e ∈ shader.exprs, e.varName? = some source.name ∨
      edit.change shader source.init e = e.mapChildren (edit.change shader source.init) := by
    intro e listed
    cases follows.changesAt distinct listed with
    | reference isReference _ => exact .inl (isReference ▸ rfl)
    | other _ changed => exact .inr changed
  rcases Shader.exists_of_mem_exprs_mapExprs isEdited listed' changes with ⟨e, listed, stays⟩
  cases follows.changesAt distinct listed with
  | @reference _ paren start _ changed =>
      refine .inr ⟨paren, start, ?_⟩
      rcases stays with rfl | ⟨_, isPart⟩
      · rw [changed]
        exact Expr.self_mem_subexprs _
      · rwa [changed] at isPart
  | other noReference changed =>
      refine .inl ⟨e, listed, noReference, ?_⟩
      rcases stays with rfl | ⟨isReference, _⟩
      · exact ⟨changed, rfl⟩
      · exact absurd isReference noReference

/-- The variable is not referred to any more. -/
theorem Follows.not_referenced (id : NodeId) : .var id source.name ∉ edited.exprs := by
  intro listed'
  rcases follows.exists_of_mem_exprs checked isEdited listed' with
    ⟨e, _, noReference, changed, _⟩ | ⟨paren, start, isPart⟩
  · cases e <;> cases changed
    exact noReference rfl
  · rw [Expr.subexprs, List.mem_cons] at isPart
    rcases isPart with isSelf | isPart
    · cases isSelf
    · refine follows.notMem_names checked ?_
      rw [Inlining.names, ← Expr.referenced_numbered start]
      exact Names.mem_referenced_ofExpr_iff.mpr ⟨id, isPart⟩

/-- Afterwards as well nothing writes the variable or anything that its initialiser refers
to: what is written is still a part of the same variable, and copies write nothing. -/
theorem Follows.leavesAlone_edited : edited.LeavesAlone (source.name :: source.names) := by
  have distinct := (Shader.isValid_iff.mp ⟨types, checked⟩).1
  refine Shader.leavesAlone_of_written? fun e' listed' operand' isWritten' name isName => ?_
  rcases follows.exists_of_mem_exprs checked isEdited listed' with
    ⟨e, listed, _, rfl, _⟩ | ⟨paren, start, isPart⟩
  · have operands : ∃ operand, e.written? = some operand ∧
        operand' = edit.change shader source.init operand := by
      cases e with
      | assign => exact ⟨_, rfl, (Option.some.inj isWritten').symm⟩
      | unary id op inner =>
          simp only [Expr.mapChildren, Expr.written?, Option.ite_none_right_eq_some] at isWritten' ⊢
          exact ⟨inner, ⟨isWritten'.1, rfl⟩, (Option.some.inj isWritten'.2).symm⟩
      | _ => cases isWritten'
    rcases operands with ⟨operand, isWritten, rfl⟩
    have others : ∀ other ∈ source.name :: source.names, operand.writtenVar? ≠ some other := by
      intro other isOther
      rcases List.mem_cons.mp isOther with rfl | isRead
      · exact Names.writtenVar?_ne_of_assigns follows.unassigned listed isWritten
      · exact Names.writtenVar?_ne_of_assigns (follows.sole_of_mem_names isRead).2 listed isWritten
    have isExpr := Shader.mem_exprs_of_mem_subexprs listed
      (Expr.mem_subexprs_of_mem_children (Expr.mem_children_of_written? isWritten))
    rw [Inlining.writtenVar?_change (fun part isPart => follows.changesAt distinct
      (Shader.mem_exprs_of_mem_subexprs isExpr isPart)) (others _ List.mem_cons_self)]
    exact others name isName
  · rw [Expr.subexprs, List.mem_cons] at isPart
    rcases isPart with rfl | isPart
    · cases isWritten'
    · rcases Expr.exists_of_mem_subexprs_numbered isPart with ⟨part, isOriginal, from', rfl⟩
      have isPure := follows.isPure
      rw [Reduction.isPure, List.all_eq_true] at isPure
      have effectFree := isPure part isOriginal
      rw [isEffectFree, Bool.and_eq_true, Option.isNone_iff_eq_none] at effectFree
      rw [Expr.written?_numbered, effectFree.1] at isWritten'
      cases isWritten'

omit isEdited in
/-- The initialiser has no reference in it, so it stays as it is. -/
theorem Follows.change_init : edit.change shader source.init source.init = source.init := by
  refine Expr.change_eq_self fun part isPart => ?_
  cases follows.changesAt (Shader.isValid_iff.mp ⟨types, checked⟩).1
    (follows.mem_exprs_of_init isPart) with
  | reference isReference _ =>
      exact absurd (isReference ▸ rfl) (follows.init_noReference checked isPart)
  | other _ changed => exact changed

omit isEdited in
theorem Follows.type_reference {id : NodeId} (listed : .var id source.name ∈ shader.exprs) :
    types[id]? = some source.ty := by
  rcases (@Shader.mem_exprs_iff shader version _).mp listed with ⟨one, isPlaced, isPart⟩
  have typed := Shader.types_eq_typeOf checked isPlaced isPart
  rw [Context.typeOf, Option.isSome_map] at typed
  rcases follows.allAt_shows checked one isPlaced with isHidden | ⟨stands, _⟩
  · rw [isHidden] at typed
    cases typed.1
  · rw [stands] at typed
    exact typed.2

/-- Wherever a copy of the initialiser stands, its names select what they select in the
initialiser. -/
theorem Follows.exists_select? (checked' : edited.check version = .ok types')
    {scopes scopes' : List Scoping.Scope} (stands : StandsInShader shader version source.init scopes)
    {copy : Expr} (stands' : StandsInShader edited version copy scopes') {name : String}
    (isRead : name ∈ source.names) (isRead' : name ∈ (Names.ofExpr copy).referenced) :
    ∃ declared, select? scopes name = some declared ∧
      select? scopes' name = some (declared.mapExprs (edit.change shader source.init)) := by
  rcases Names.mem_referenced_ofExpr_iff.mp isRead with ⟨id, isPart⟩
  rcases Names.mem_referenced_ofExpr_iff.mp isRead' with ⟨id', isPart'⟩
  rcases (Scoping.exists_select?_of_check checked (follows.mem_exprs_of_init isPart)).2 scopes
    (stands.part isPart) with ⟨declared, selected, _⟩
  rcases stands'.exists_placed (Shader.isValid_iff.mp ⟨types', checked'⟩).2 with ⟨one, isPlaced, inOne, _⟩
  rcases (Scoping.exists_select?_of_check checked' (Shader.mem_exprs_iff.mpr
    ⟨one, isPlaced, Expr.mem_subexprs_trans isPart' inOne⟩)).2 scopes' (stands'.part isPart') with
    ⟨declared', selected', _⟩
  refine ⟨declared, selected, ?_⟩
  rw [selected', stands.select?_mapExprs isEdited (Shader.isValid_iff.mp ⟨types, checked⟩).2
    (follows.sole_of_mem_names isRead).1 stands' selected selected']

end

/-- What a shader and its types are when the initialiser of a variable was inlined. -/
structure Inlined (edit : InitInlining) (version : Version) (shader : Shader) (types : TypeTable)
    (edited : Shader) (types' : TypeTable) (source : Source) (change : Expr → Expr) : Prop where
  isDeclared : shader.findStmt? edit.declStmt = some source.stmt
  name : edit.name = source.name
  /-- Nothing but expressions changes, and the initialiser itself does not. -/
  decls : edited.decls = shader.decls.map (Decl.mapExprs change)
  init : change source.init = source.init
  /-- In the place of each reference there is a copy of the initialiser, of the same type. -/
  references : ∀ id, .var id source.name ∈ shader.exprs → ∃ paren start,
    change (.var id source.name) = .paren paren (source.init.numbered start) ∧
      .paren paren (source.init.numbered start) ∈ edited.exprs ∧
      types'[paren]? = types[id]? ∧ types[id]? = some source.ty
  /-- Whatever else there is changes in its operands alone and keeps its type. -/
  others : ∀ e ∈ shader.exprs, e.varName? ≠ some source.name →
    change e = e.mapChildren change ∧ change e ∈ edited.exprs ∧ types'[e.id]? = types[e.id]?
  gone : ∀ id, .var id source.name ∉ edited.exprs
  /-- Wherever a copy stands, each name in it selects the declaration that it selects in the
  initialiser. -/
  resolves : ∀ scopes, StandsInShader shader version source.init scopes →
    ∀ paren start scopes',
      StandsInShader edited version (.paren paren (source.init.numbered start)) scopes' →
      ∀ name ∈ source.names, ∃ declared, select? scopes name = some declared ∧
        select? scopes' name = some (declared.mapExprs change)
  /-- Neither before nor afterwards anything writes the variable, a variable that its
  initialiser reads, or a part of one. -/
  unwritten : shader.LeavesAlone (source.name :: source.names) ∧
    edited.LeavesAlone (source.name :: source.names)

/-- Inlining an initialiser keeps a shader valid, and the copies read what the initialiser
reads. -/
theorem exists_inlined (checked : shader.check version = .ok types)
    (below : ∀ id ∈ shader.ids, id < shader.nextId) {everywhere : Bool}
    (found : edit ∈ find everywhere shader) :
    ∃ types' source change, (edit.apply shader).check version = .ok types' ∧
      edit.Inlined version shader types (edit.apply shader) types' source change := by
  rcases exists_follows checked found with ⟨spot, source, follows⟩
  have numbered := isNumbered_of_check checked below
  have isEdited : (edit.apply shader).decls =
      shader.decls.map (Decl.mapExprs (edit.change shader source.init)) := by
    rw [follows.apply_eq numbered]
    rfl
  have followsRules := follows.followsRules checked isEdited
  rcases Shader.isValid_iff.mpr ⟨(edit.isNumbered_apply numbered).1, followsRules⟩ with
    ⟨types', checked'⟩
  have changes := fun e (listed : e ∈ shader.exprs) => follows.changesAt numbered.1 listed
  have stays := fun e (listed : e ∈ shader.exprs) =>
    Shader.change_mem_exprs isEdited listed (follows.change_around numbered.1 e)
  have keeps := fun e (listed : e ∈ shader.exprs) =>
    Shader.types_change_eq isEdited checked checked' listed
      (fun one isPlaced isPart => follows.typeOf_change checked isPlaced isPart)
      (follows.change_around numbered.1 e)
  refine ⟨types', source, edit.change shader source.init, checked', ?_⟩
  constructor
  case isDeclared => exact follows.findStmt? numbered.1
  case name => exact follows.name
  case decls => exact isEdited
  case init => exact follows.change_init checked
  case references =>
    intro id listed
    cases changes _ listed with
    | @reference _ paren start _ changed =>
        have stays := stays _ listed
        have keeps := keeps _ listed
        rw [changed] at stays keeps
        exact ⟨paren, start, changed, stays, keeps, follows.type_reference checked listed⟩
    | other noReference => exact absurd rfl noReference
  case others =>
    intro e listed noReference
    cases changes e listed with
    | reference isReference => exact absurd (isReference ▸ rfl) noReference
    | other _ changed =>
        have keeps := keeps e listed
        rw [changed, Expr.id_mapChildren] at keeps
        exact ⟨changed, stays e listed, keeps⟩
  case gone => exact follows.not_referenced checked isEdited
  case resolves =>
    intro scopes stands paren start scopes' stands' name isRead
    refine follows.exists_select? checked isEdited checked' stands stands' isRead ?_
    rw [Inlining.names, ← Expr.referenced_numbered start] at isRead
    exact isRead
  case unwritten => exact ⟨follows.leavesAlone, follows.leavesAlone_edited checked isEdited⟩

/-- The shader `int u; void main() { int t = u + 1; { int x = t * t; } }`. -/
def squaring : Shader :=
  .ofDecls .essl100 [.global ⟨.unnumbered, none, .int, "u", none⟩,
    .function ⟨.unnumbered, .void, "main", [], ⟨.unnumbered,
      [.decl .unnumbered ⟨.unnumbered, none, .int, "t", some (.binary .unnumbered .add
        (.var .unnumbered "u") (.int .unnumbered 1))⟩,
       .block .unnumbered .unnumbered
        [.decl .unnumbered ⟨.unnumbered, none, .int, "x", some (.binary .unnumbered .mul
          (.var .unnumbered "t") (.var .unnumbered "t"))⟩]]⟩⟩]

/-- The sum is put in for both references to `t`. -/
theorem exists_inlined_squaring :
    ∃ types types' source change, squaring.check .essl100 = .ok types ∧
      (∀ id ∈ squaring.ids, id < squaring.nextId) ∧ ⟨3, "t"⟩ ∈ find true squaring ∧
      (apply ⟨3, "t"⟩ squaring).check .essl100 = .ok types' ∧
      Inlined ⟨3, "t"⟩ .essl100 squaring types (apply ⟨3, "t"⟩ squaring) types' source change := by
  have isValid : (squaring.check .essl100).toOption.isSome = true := by decide
  have below : ∀ id ∈ squaring.ids, id < squaring.nextId := by decide
  have found : ⟨3, "t"⟩ ∈ find true squaring := by decide
  cases checked : squaring.check .essl100 with
  | error problems =>
      rw [checked] at isValid
      cases isValid
  | ok types =>
      rcases exists_inlined checked below found with ⟨types', source, change, checked', inlined⟩
      exact ⟨types, types', source, change, rfl, below, found, checked', inlined⟩

end InitInlining
end Reduction
end Whittle
