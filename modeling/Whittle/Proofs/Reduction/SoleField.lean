import Whittle.Proofs.Reduction.ExprChanges
import Whittle.Proofs.Reduction.ValueEdits
import Whittle.Proofs.Syntax.Operands
import Whittle.Proofs.Syntax.Renewal
import Whittle.Proofs.Typing.Redeclaration
import Whittle.Proofs.Typing.Substitution
import Whittle.Reduction.Struct.SoleField

namespace Whittle
namespace Reduction
namespace SoleField

/-!
# Replacing a struct by its only field keeps a shader valid

The search has no types and goes by names.  It counts how often a local variable is
referred to and how often the field is selected of something with its name.  The name is
declared once and the numbers are the same, so every reference is the base of an access,
and all of them are to this one variable.
-/

open Check (Context)
open Whittle.Expr (rewrite changeBy)

variable {edit : SoleField} {next : NodeId} {shader : Shader} {version : Version}
  {types : TypeTable} {spot : Spot} {var : VarDecl} {decl : StructDecl}

/-- The edit is about the variable at the place and the only field of its struct, and no use
of the variable is overlooked. -/
structure Follows (edit : SoleField) (shader : Shader) (spot : Spot) (var : VarDecl)
    (decl : StructDecl) : Prop where
  isAt : shader.decls = spot.fill [.decl edit.declStmt var]
  varName : edit.varName = var.name
  isStruct : var.ty = .struct edit.struct
  declared : shader.struct? edit.struct = some decl
  single : ∃ id, decl.fields = [⟨id, edit.fieldTy, edit.field⟩]
  sole : (Names.ofShader shader).declarations var.name = 1
  accesses : edit.accesses = (shader.exprs.filter (isMemberOf var.name edit.field)).map Expr.id
  covered : edit.accesses.length = (Names.ofShader shader).references var.name

theorem exists_follows (checked : shader.check version = .ok types) {everywhere : Bool}
    (found : edit ∈ find everywhere shader) : ∃ spot var decl, edit.Follows shader spot var decl := by
  rcases List.mem_filterMap.mp found with ⟨site, isSite, found⟩
  rcases exists_spot_of_mem_sites (Shader.isValid_iff.mp ⟨types, checked⟩).2 isSite with
    ⟨spot, -, isAt, -⟩
  simp only [ofStmt?, bind, Option.bind_eq_some_iff] at found
  rcases found with ⟨var, declares, struct, isStruct, decl, declared, found⟩
  split at found
  · rename_i field single
    simp only [Option.ite_none_right_eq_some, Bool.and_eq_true, beq_iff_eq, Option.some.injEq] at found
    rcases found with ⟨⟨⟨-, sole⟩, covered⟩, rfl⟩
    rcases site with ⟨f, list, s⟩
    cases s <;> cases declares
    refine ⟨spot, var, decl, isAt, rfl, ?_, declared, ⟨field.id, single⟩, sole, rfl, covered⟩
    cases isTy : var.ty with
    | struct name =>
        rw [isTy] at isStruct
        cases isStruct
        rfl
    | _ =>
        rw [isTy] at isStruct
        cases isStruct
  · cases found

theorem isMemberOf_eq_true_iff {varName member : String} {e : Expr} :
    isMemberOf varName member e = true ↔
      ∃ id baseId, e = .member id (.var baseId varName) member := by
  cases e with
  | member id base name =>
      rw [isMemberOf, Bool.and_eq_true, beq_iff_eq, beq_iff_eq]
      constructor
      · rintro ⟨isVar, rfl⟩
        cases base <;> cases isVar
        exact ⟨id, _, rfl⟩
      · rintro ⟨_, baseId, same⟩
        cases same
        exact ⟨rfl, rfl⟩
  | _ => simp [isMemberOf]

section

variable (follows : edit.Follows shader spot var decl)
include follows

/-- Around the place nothing has the name of the variable. -/
theorem Follows.notMem_around : var.name ∉ Decl.declaredNames (spot.fill []) := by
  have sole : (Names.ofShader shader).declared.count var.name = 1 := follows.sole
  rw [Names.declared_ofShader, follows.isAt, Decl.count_declaredNames_fill] at sole
  have own : (Names.ofStmts [.decl edit.declStmt var]).declarations var.name = 1 :=
    List.count_singleton_self
  exact List.count_eq_zero.mp (by omega)

/-- The variable is not used but as the base of an access. -/
theorem Follows.uses_covered :
    (∀ root ∈ shader.roots, root.varName? ≠ some var.name) ∧
      ∀ e ∈ shader.exprs, isMemberOf var.name edit.field e = false →
        ∀ child ∈ e.children, child.varName? ≠ some var.name := by
  have sole : ∀ e, isMemberOf var.name edit.field e = true →
      ∃ child, e.children = [child] ∧ (child.varName? == some var.name) = true := by
    intro e isAccess
    rcases isMemberOf_eq_true_iff.mp isAccess with ⟨id, baseId, rfl⟩
    exact ⟨_, rfl, beq_self_eq_true _⟩
  have few : shader.exprs.countP (fun e => e.varName? == some var.name) ≤
      shader.exprs.countP (isMemberOf var.name edit.field) := by
    rw [← Names.references_ofShader, ← follows.covered, follows.accesses, List.length_map,
      List.countP_eq_length_filter]
  have covered := Expr.operands_of_countP_le sole few
  refine ⟨fun root isRoot isVar => ?_, fun e listed noAccess child isChild isVar => ?_⟩
  · have noUse := covered.1 root isRoot
    simp [isVar] at noUse
  · have isAccess := covered.2 e listed child isChild (beq_iff_eq.mpr isVar)
    rw [noAccess] at isAccess
    cases isAccess

/-- A reference to the variable stands in an access. -/
theorem Follows.exists_access {id : NodeId} (listed : .var id var.name ∈ shader.exprs) :
    ∃ accessId, .member accessId (.var id var.name) edit.field ∈ shader.exprs := by
  rcases List.mem_flatMap.mp listed with ⟨root, isRoot, isPart⟩
  rcases List.mem_cons.mp (root.perm_subexprs.mem_iff.mp isPart) with rfl | isOperand
  · exact absurd rfl (follows.uses_covered.1 _ isRoot)
  · rcases List.mem_flatMap.mp isOperand with ⟨e, isPart, isChild⟩
    have inShader : e ∈ shader.exprs := List.mem_flatMap.mpr ⟨root, isRoot, isPart⟩
    cases isAccess : isMemberOf var.name edit.field e with
    | false => exact absurd rfl (follows.uses_covered.2 e inShader isAccess _ isChild)
    | true =>
        rcases isMemberOf_eq_true_iff.mp isAccess with ⟨accessId, baseId, rfl⟩
        cases List.mem_singleton.mp isChild
        exact ⟨accessId, inShader⟩

end

/-- What the edit does to expressions, with new identifiers from `next` on. -/
def change (edit : SoleField) (next : NodeId) : Expr → Expr :=
  rewrite (changeBy ((Renewal.references id fun _ => edit.varName).steps next edit.accesses))

/-- Change one part of an expression: an access becomes a new reference, and whatever else
there is changes in its operands, of which none is the variable itself. -/
inductive ChangesAt (edit : SoleField) (next : NodeId) (name : String) (e : Expr) : Prop where
  | access {accessId baseId later : NodeId}
      (isAccess : e = .member accessId (.var baseId name) edit.field) (isLater : next ≤ later)
      (changed : edit.change next e = .var later name)
  | other (notTarget : e.id ∉ edit.accesses)
      (noUse : ∀ child ∈ e.children, child.varName? ≠ some name)
      (changed : edit.change next e = e.mapChildren (edit.change next))

theorem change_eq_mapChildren {e : Expr} (notTarget : e.id ∉ edit.accesses) :
    edit.change next e = e.mapChildren (edit.change next) := by
  refine (Expr.spares_changeBy (List.Subset.refl _)).rewrite_eq ?_
  rwa [Renewal.map_fst_steps, show edit.accesses.map (Renewal.references id _).target =
    edit.accesses from List.map_id _]

theorem change_eq_self {e : Expr} (noTargets : ∀ part ∈ e.subexprs, part.id ∉ edit.accesses) :
    edit.change next e = e :=
  Expr.change_eq_self fun part isPart => change_eq_mapChildren (noTargets part isPart)

section

variable (follows : edit.Follows shader spot var decl) (distinct : shader.ids.Nodup)
include follows distinct

theorem Follows.notMem_accesses {e : Expr} (listed : e ∈ shader.exprs)
    (noAccess : isMemberOf var.name edit.field e = false) : e.id ∉ edit.accesses := by
  rw [follows.accesses]
  intro isTarget
  rcases List.mem_map.mp isTarget with ⟨other, isOther, sameId⟩
  rw [List.mem_filter] at isOther
  cases Shader.expr_eq_of_id_eq distinct isOther.1 listed sameId
  rw [noAccess] at isOther
  cases isOther.2

theorem Follows.changesAt (next : NodeId) {e : Expr} (listed : e ∈ shader.exprs) :
    edit.ChangesAt next var.name e := by
  cases isAccess : isMemberOf var.name edit.field e with
  | true =>
      have isTarget : e.id ∈ edit.accesses := by
        rw [follows.accesses]
        exact List.mem_map_of_mem (List.mem_filter.mpr ⟨listed, isAccess⟩)
      rcases isMemberOf_eq_true_iff.mp isAccess with ⟨accessId, baseId, rfl⟩
      rcases @Renewal.exists_lookup_steps _ (.references id fun _ => edit.varName) next _ _ isTarget with
        ⟨step, isStep⟩
      rcases Renewal.exists_of_lookup_steps _ isStep with ⟨_, _, later, isLater, _, rfl⟩
      refine .access rfl isLater ?_
      rw [change, Expr.rewrite_eq, Expr.changeBy_of_lookup (by rwa [Expr.id_mapChildren]),
        follows.varName]
      rfl
  | false =>
      have notTarget := follows.notMem_accesses distinct listed isAccess
      exact .other notTarget (follows.uses_covered.2 e listed isAccess) (change_eq_mapChildren notTarget)

end

/-- A call with the name of a struct in scope that yields a struct is a call of the
constructor. -/
theorem args_of_call_struct {ctx : Context} {callee name : String} {args : List Ty}
    (isStruct : ctx.struct? callee = some decl) (isTy : ctx.call callee args = .ok (.struct name)) :
    args = decl.fields.map Field.ty := by
  unfold Context.call at isTy
  split at isTy
  · rename_i target isTarget
    -- No struct is among the types that have a keyword.
    have noStruct : ∀ ty ∈ Ty.builtin, ty.structName? = none := by decide
    have isBuiltin := noStruct target (List.mem_of_find?_eq_some isTarget)
    rw [← Context.eq_of_construct isTy] at isBuiltin
    cases isBuiltin
  · rw [isStruct] at isTy
    exact (Context.constructStruct_eq_ok_iff.mp isTy).1

/-- At a place in a function, the structs in front of the function are in scope. -/
theorem structs_ctx (checked : shader.check version = .ok types) {run : List Stmt}
    (isAt : shader.decls = spot.fill run) :
    (spot.ctx version).structs = (spot.before.filterMap Decl.struct?).reverse := by
  have inherited := Context.inherited_tops ((Context.initial version).behindDecls spot.before).tops
  have inFunction : (((Context.initial version).behindDecls spot.before).inFunction
      spot.function).tops = ((Context.initial version).behindDecls spot.before).tops :=
    inherited.behindParams (inherited.opened rfl) fun _ _ => trivial
  have atSlot : (spot.ctx version).tops = _ := inherited.atSlot inFunction spot.slot fun _ _ => trivial
  exact congrArg Prod.fst (atSlot.trans (Shader.tops_of_split checked isAt))

def fieldVar (edit : SoleField) (memberId : NodeId) (var : VarDecl) : VarDecl :=
  { var with ty := edit.fieldTy, init := var.init.map (edit.fieldInit memberId) }

def declaring (edit : SoleField) (shader : Shader) (spot : Spot) (memberId : NodeId) (var : VarDecl) :
    Shader :=
  { shader with decls := spot.fill [.decl edit.declStmt (edit.fieldVar memberId var)] }

section

variable (checked : shader.check version = .ok types) (follows : edit.Follows shader spot var decl)
include checked follows

theorem Follows.eq_of_struct? {ctx : Context} (within : ctx.structs ⊆ shader.structs)
    {other : StructDecl} (isOther : ctx.struct? edit.struct = some other) : other = decl := by
  rcases (Shader.struct?_eq_some_iff checked within).mp isOther with ⟨known, named⟩
  have declared := Shader.struct?_name checked (Shader.mem_structs_iff.mp (within known))
  rw [named, follows.declared] at declared
  exact (Option.some.inj declared).symm

/-- Wherever the struct is in scope, it has the field. -/
theorem Follows.member_eq_ok_iff {ctx : Context} (within : ctx.structs ⊆ shader.structs) {ty : Ty} :
    ctx.member (.struct edit.struct) edit.field = .ok ty ↔
      (ctx.struct? edit.struct).isSome ∧ ty = edit.fieldTy := by
  rcases follows.single with ⟨id, single⟩
  have isField : (decl.field? edit.field).map Field.ty = some edit.fieldTy := by
    simp [StructDecl.field?, single]
  rw [Context.member_struct_eq_ok_iff]
  constructor
  · rintro ⟨other, isOther, isTy⟩
    rw [follows.eq_of_struct? checked within isOther, isField] at isTy
    exact ⟨Option.isSome_of_eq_some isOther, (Option.some.inj isTy).symm⟩
  · rintro ⟨inScope, rfl⟩
    rcases Option.isSome_iff_exists.mp inScope with ⟨other, isOther⟩
    exact ⟨other, isOther, by rw [follows.eq_of_struct? checked within isOther, isField]⟩

/-- What has become of an expression has its type where the field is in scope under a name of
its own. -/
theorem Follows.typeOf_renamed_change {ctx : Context} (within : ctx.structs ⊆ shader.structs)
    {memberId : NodeId} {name : String}
    (shows : Context.Shows var { edit.fieldVar memberId var with name } ctx.lookup?) {e : Expr}
    (typed : (ctx.typeOf e).isSome) (noUse : e.varName? ≠ some var.name)
    (changes : ∀ part ∈ e.subexprs, edit.ChangesAt next var.name part) :
    ctx.typeOf ((edit.change next e).renamed var.name name) = ctx.typeOf e := by
  refine (@Context.typeOf_and_mayWrite_change ctx
    (fun e => (edit.change next e).renamed var.name name) (fun part => part.varName? ≠ some var.name)
    e noUse typed fun part isPart noUse typed => ?_).1
  cases changes part isPart with
  | @access id baseId later isAccess _ changed =>
      cases isAccess
      have inScope := shows.resolve_left fun hidden => Context.varName?_ne_of_lookup? hidden typed
        (Expr.mem_subexprs_of_mem_children (List.mem_cons_self : Expr.var baseId var.name ∈ _)) rfl
      rcases Option.isSome_iff_exists.mp typed with ⟨ty, isTy⟩
      rcases Context.typeOf_member_eq_some_iff.mp isTy with ⟨baseTy, isBase, isMember⟩
      have isStruct : ctx.typeOf (.var baseId var.name) = some (.struct edit.struct) := by
        rw [Context.typeOf, inScope.1, ← follows.isStruct]
        rfl
      cases isStruct.symm.trans isBase
      rw [changed, Expr.renamed_var]
      refine .inl ⟨?_, ?_⟩
      · rw [isTy, ((follows.member_eq_ok_iff checked within).mp isMember).2, Context.typeOf, inScope.2]
        rfl
      · rw [Context.mayWrite, Context.mayWrite, Context.mayWrite, isStruct, inScope.1, inScope.2]
        rfl
  | other _ noUseBelow changed =>
      refine .inr ⟨?_, noUseBelow⟩
      have noUse' : (part.mapChildren (edit.change next)).varName? ≠ some var.name := by
        rwa [Expr.varName?_mapChildren]
      rw [changed, Expr.renamed_eq_mapChildren noUse', Expr.mapChildren_mapChildren]

/-! ## The declaration -/

theorem Follows.structs_ctx_subset : (spot.ctx version).structs ⊆ shader.structs := by
  rw [structs_ctx checked follows.isAt, Shader.structs, follows.isAt, Spot.fill, List.filterMap_append]
  exact fun struct listed => List.mem_append_left _ (List.mem_reverse.mp listed)

/-- The struct is in scope at the place. -/
theorem Follows.struct?_ctx : (spot.ctx version).struct? edit.struct = some decl := by
  have valid := Shader.isValid_iff.mp ⟨types, checked⟩
  have known := (Shader.acceptsList_at valid.2 follows.isAt).1.2.known
  rw [follows.isStruct] at known
  rcases Option.isSome_iff_exists.mp known with ⟨other, isOther⟩
  rw [isOther, follows.eq_of_struct? checked (follows.structs_ctx_subset checked) isOther]

/-- So the type of its field is known there. -/
theorem Follows.knows_fieldTy : (spot.ctx version).Knows edit.fieldTy false := by
  have areStructs := structs_ctx checked follows.isAt
  have inScope := List.mem_of_find?_eq_some (follows.struct?_ctx checked)
  rw [areStructs, List.mem_reverse, Decl.mem_filterMap_struct?_iff] at inScope
  rcases follows.single with ⟨id, single⟩
  have known := Shader.knows_of_mem_before checked follows.isAt inScope
    (single ▸ List.mem_cons_self : (⟨id, edit.fieldTy, edit.field⟩ : Field) ∈ decl.fields)
  have areBefore : ((Context.initial version).behindDecls spot.before).structs = _ :=
    congrArg Prod.fst (Shader.tops_of_split checked follows.isAt)
  refine known.mono ?_
  rw [areStructs, areBefore]
  exact List.Subset.refl _

/-- The new initialiser is the argument of the constructor or else the field of the old one,
and it has the type of the field. -/
theorem Follows.fieldInit_cases {init : Expr} (isInit : init ∈ var.init) (memberId : NodeId) :
    (spot.ctx version).typeOf (edit.fieldInit memberId init) = some edit.fieldTy ∧
      ((∃ id, init = .call id edit.struct [edit.fieldInit memberId init]) ∨
        init.calls edit.struct = false ∧
          edit.fieldInit memberId init = .member memberId init edit.field) := by
  have valid := Shader.isValid_iff.mp ⟨types, checked⟩
  have isTy := (Shader.acceptsList_at valid.2 follows.isAt).1.2.initialised init isInit
  rw [follows.isStruct] at isTy
  cases calls : init.calls edit.struct with
  | false =>
      have isMember : edit.fieldInit memberId init = .member memberId init edit.field := by
        unfold fieldInit
        split
        · rename_i id callee arg
          exact if_neg fun same => Bool.false_ne_true (calls.symm.trans same)
        · rfl
      rw [isMember]
      refine ⟨Context.typeOf_member_eq_some_iff.mpr ⟨_, isTy, ?_⟩, .inr ⟨rfl, rfl⟩⟩
      refine (follows.member_eq_ok_iff checked (follows.structs_ctx_subset checked)).mpr ⟨?_, rfl⟩
      rw [follows.struct?_ctx checked]
      rfl
  | true =>
      cases init with
      | call id callee args =>
          cases beq_iff_eq.mp calls
          rcases Context.typeOf_call_eq_some_iff.mp isTy with ⟨tys, areTys, isCall⟩
          rcases follows.single with ⟨_, single⟩
          rw [args_of_call_struct (follows.struct?_ctx checked) isCall, single,
            Context.typesOf_eq_some_iff] at areTys
          rcases List.map_eq_singleton_iff.mp areTys with ⟨arg, rfl, isArg⟩
          have isArgument : edit.fieldInit memberId (.call id edit.struct [arg]) = arg :=
            if_pos (beq_self_eq_true _)
          rw [isArgument]
          exact ⟨isArg, .inl ⟨id, rfl⟩⟩
      | _ => cases calls

end

theorem Follows.findStmt? (follows : edit.Follows shader spot var decl) (distinct : shader.ids.Nodup) :
    shader.findStmt? edit.declStmt = some (.decl edit.declStmt var) :=
  @Shader.findStmt?_fill shader spot (.decl edit.declStmt var) follows.isAt distinct

theorem Follows.apply_eq (follows : edit.Follows shader spot var decl) (numbered : shader.IsNumbered) :
    edit.apply shader = Shader.mapExprs (edit.change (shader.nextId + 1))
      { edit.declaring shader spot shader.nextId var with
        nextId := shader.nextId + 1 + 1 * edit.accesses.length } := by
  let declared : Shader := edit.declaring shader.freshId.2 spot shader.nextId var
  have declares : shader.freshId.2.modifyStmt? edit.declStmt (edit.fieldDecl shader.freshId.1) =
      some declared :=
    @Shader.modifyStmt?_fill shader.freshId.2 spot (.decl edit.declStmt var) follows.isAt numbered.1 _
  have isFound : shader.freshId.2.findStmt? edit.declStmt = some (.decl edit.declStmt var) :=
    follows.findStmt? numbered.1
  have stillNumbered := edit.isNumbered_declare numbered
  rw [declares] at stillNumbered
  have among : edit.accesses.Sublist shader.ids := by
    rw [follows.accesses]
    exact (List.filter_sublist.map Expr.id).trans (Shader.map_id_exprs_sublist shader)
  have folded := (Renewal.references id fun _ => edit.varName).foldl_replace stillNumbered
    ((List.map_id edit.accesses).symm ▸ numbered.1.sublist among)
    fun id listed => Nat.lt_succ_of_lt (numbered.2 id (among.subset listed))
  rw [apply]
  dsimp only
  rw [isFound, declares]
  exact folded

/-- The field stands in the place of the struct, and accesses are changed. -/
theorem Follows.decls_apply (follows : edit.Follows shader spot var decl)
    (numbered : shader.IsNumbered) :
    (edit.apply shader).decls = (edit.declaring shader spot shader.nextId var).decls.map
      (Decl.mapExprs (edit.change (shader.nextId + 1))) := by
  rw [follows.apply_eq numbered]
  rfl

section

variable (checked : shader.check version = .ok types) (follows : edit.Follows shader spot var decl)
include checked follows

theorem Follows.noUse_of_init {init part : Expr} (isInit : init ∈ var.init)
    (isPart : part ∈ init.subexprs) : part.varName? ≠ some var.name :=
  Shader.varName?_ne_of_mem_init (Shader.isValid_iff.mp ⟨types, checked⟩).2 follows.isAt
    follows.notMem_around isInit isPart

omit checked in
theorem Follows.mem_roots_of_init {init : Expr} (isInit : init ∈ var.init) : init ∈ shader.roots :=
  (Shader.mem_roots_fill_iff follows.isAt).mpr (.inr (List.mem_append_left _ (Option.mem_toList.mpr isInit)))

omit checked in
theorem Follows.mem_exprs_of_init {init part : Expr} (isInit : init ∈ var.init)
    (isPart : part ∈ init.subexprs) : part ∈ shader.exprs :=
  List.mem_flatMap.mpr ⟨init, follows.mem_roots_of_init isInit, isPart⟩

/-- There is no access in the initialiser. -/
theorem Follows.notMem_accesses_of_init {init part : Expr} (isInit : init ∈ var.init)
    (isPart : part ∈ init.subexprs) : part.id ∉ edit.accesses := by
  refine follows.notMem_accesses (Shader.isValid_iff.mp ⟨types, checked⟩).1
    (follows.mem_exprs_of_init isInit isPart) (Bool.eq_false_iff.mpr fun isAccess => ?_)
  rcases isMemberOf_eq_true_iff.mp isAccess with ⟨id, baseId, rfl⟩
  exact follows.noUse_of_init checked isInit (Expr.mem_subexprs_of_child List.mem_cons_self isPart) rfl

variable {memberId : NodeId} (isNew : memberId ∉ edit.accesses)
include isNew

theorem Follows.change_projection {init : Expr} (isInit : init ∈ var.init) :
    edit.change next (.member memberId init edit.field) = .member memberId init edit.field := by
  refine change_eq_self fun part isPart => ?_
  rcases List.mem_cons.mp isPart with rfl | isPart
  · exact isNew
  · exact follows.notMem_accesses_of_init checked isInit isPart

/-- So the new initialiser stays as it is. -/
theorem Follows.change_fieldInit {init : Expr} (isInit : init ∈ var.init) :
    edit.change next (edit.fieldInit memberId init) = edit.fieldInit memberId init := by
  rcases (follows.fieldInit_cases checked isInit memberId).2 with ⟨id, isCall⟩ | ⟨_, isMember⟩
  · refine change_eq_self fun part isPart => follows.notMem_accesses_of_init checked isInit ?_
    rw [isCall]
    exact Expr.mem_subexprs_trans isPart (Expr.mem_subexprs_of_mem_children List.mem_cons_self)
  · rw [isMember]
    exact follows.change_projection checked isNew isInit

/-- Where only the old and the new initialiser stand at the place, no outermost expression is
the variable, each part changes as its access does, and only the access in the new
initialiser was not there before. -/
theorem Follows.of_mem_roots (next : NodeId) {run : List Stmt} (within : ∀ e ∈ Stmt.rootsOfList run,
      ∃ init ∈ var.init, e = init ∨ e = edit.fieldInit memberId init) {other : Shader}
    (isAt : other.decls = spot.fill run) {root : Expr} (isRoot : root ∈ other.roots) :
    root.varName? ≠ some var.name ∧ ∀ part ∈ root.subexprs, edit.ChangesAt next var.name part ∧
      (part ∈ shader.exprs ∨ ∃ init ∈ var.init, part = .member memberId init edit.field) := by
  have distinct := (Shader.isValid_iff.mp ⟨types, checked⟩).1
  have ofParts : ∀ {e : Expr}, (∀ part ∈ e.subexprs, part ∈ shader.exprs) → ∀ part ∈ e.subexprs,
      edit.ChangesAt next var.name part ∧
        (part ∈ shader.exprs ∨ ∃ init ∈ var.init, part = .member memberId init edit.field) :=
    fun inShader part isPart => ⟨follows.changesAt distinct next (inShader part isPart),
      .inl (inShader part isPart)⟩
  have ofRoot : root ∈ shader.roots → root.varName? ≠ some var.name ∧ ∀ part ∈ root.subexprs,
      edit.ChangesAt next var.name part ∧
        (part ∈ shader.exprs ∨ ∃ init ∈ var.init, part = .member memberId init edit.field) :=
    fun isRoot => ⟨follows.uses_covered.1 root isRoot, ofParts fun part isPart =>
      List.mem_flatMap.mpr ⟨root, isRoot, isPart⟩⟩
  rcases (Shader.mem_roots_fill_iff isAt).mp isRoot with isAround | isInside
  · exact ofRoot ((Shader.mem_roots_fill_iff follows.isAt).mpr (.inl isAround))
  rcases within root isInside with ⟨init, isInit, rfl | rfl⟩
  · exact ofRoot (follows.mem_roots_of_init isInit)
  rcases (follows.fieldInit_cases checked isInit memberId).2 with ⟨id, isCall⟩ | ⟨_, isMember⟩
  · have isArg : edit.fieldInit memberId init ∈ init.subexprs := by
      generalize edit.fieldInit memberId init = arg at isCall
      rw [isCall]
      exact Expr.mem_subexprs_of_mem_children List.mem_cons_self
    exact ⟨follows.noUse_of_init checked isInit isArg, ofParts fun part isPart =>
      follows.mem_exprs_of_init isInit (Expr.mem_subexprs_trans isPart isArg)⟩
  · rw [isMember]
    refine ⟨nofun, fun part isPart => ?_⟩
    rcases List.mem_cons.mp isPart with rfl | isPart
    · refine ⟨.other isNew (fun child isChild => ?_) (change_eq_mapChildren isNew), .inr ⟨init, isInit, rfl⟩⟩
      rw [List.mem_singleton.mp isChild]
      exact follows.noUse_of_init checked isInit init.self_mem_subexprs
    · exact ofParts (fun part isPart => follows.mem_exprs_of_init isInit isPart) part isPart

theorem Follows.of_mem_roots_declaring (next : NodeId) {root : Expr}
    (isRoot : root ∈ (edit.declaring shader spot memberId var).roots) :
    root.varName? ≠ some var.name ∧ ∀ part ∈ root.subexprs, edit.ChangesAt next var.name part ∧
      (part ∈ shader.exprs ∨ ∃ init ∈ var.init, part = .member memberId init edit.field) := by
  refine follows.of_mem_roots checked isNew next (fun e listed => ?_) rfl isRoot
  rcases List.mem_append.mp listed with isInit' | impossible
  · rcases Option.map_eq_some_iff.mp (Option.mem_toList.mp isInit') with ⟨init, isInit, rfl⟩
    exact ⟨init, isInit, .inr rfl⟩
  · cases impossible

variable {edited : Shader} (isEdited : edited.decls =
    (edit.declaring shader spot memberId var).decls.map (Decl.mapExprs (edit.change next)))
include isEdited

/-- The shader follows the rules with the field in the place of the struct. -/
theorem Follows.followsRules : edited.FollowsRules version := by
  have valid := Shader.isValid_iff.mp ⟨types, checked⟩
  have accepted := (Shader.acceptsList_at valid.2 follows.isAt).1
  refine Shader.followsRules_redeclared valid.2 follows.isAt isEdited rfl follows.notMem_around
    ⟨accepted.1, follows.knows_fieldTy checked, fun isConst => ?_, fun init' isInit' => ?_,
      accepted.2.free⟩ fun name one listed shows typed => ?_
  · exact (Option.isSome_map ..).trans (accepted.2.isSet isConst)
  · rcases Option.map_eq_some_iff.mp isInit' with ⟨init, isInit, rfl⟩
    exact (follows.fieldInit_cases checked isInit memberId).1
  · let run : List Stmt :=
      [.decl edit.declStmt { edit.fieldVar memberId var with name }, .decl edit.declStmt var]
    let both : Shader := { shader with decls := spot.fill run }
    have sameStructs : both.structs = shader.structs := by
      simp only [both, Shader.structs, follows.isAt, Spot.fill, List.filterMap_append,
        List.filterMap_cons, Decl.struct?]
    have inScope : one.ctx.structs ⊆ shader.structs :=
      sameStructs ▸ @Shader.structs_subset_of_mem_placed both version one listed
    have isRoot : one.e ∈ both.roots := by
      rw [← Shader.map_e_placed both version]
      exact List.mem_map_of_mem listed
    have known := follows.of_mem_roots checked isNew next (fun e isInside => ?_)
      (rfl : both.decls = spot.fill run) isRoot
    · exact follows.typeOf_renamed_change checked inScope shows typed known.1
        fun part isPart => (known.2 part isPart).1
    · rcases List.mem_append.mp isInside with isNewInit | isOldInit
      · rcases Option.map_eq_some_iff.mp (Option.mem_toList.mp isNewInit) with ⟨init, isInit, rfl⟩
        exact ⟨init, isInit, .inr rfl⟩
      · rcases List.mem_append.mp isOldInit with isInit | impossible
        · exact ⟨e, Option.mem_toList.mp isInit, .inl rfl⟩
        · cases impossible

/-- Whatever is there afterwards was there before, apart from references to the variable, and
has changed, or it is the access in the new initialiser. -/
theorem Follows.exists_of_mem_exprs {e' : Expr} (listed' : e' ∈ edited.exprs) :
    (∃ e ∈ shader.exprs, e.varName? ≠ some var.name ∧ e' = edit.change next e ∧
        edit.ChangesAt next var.name e) ∨
      ∃ init ∈ var.init, e' = .member memberId init edit.field := by
  rw [Shader.exprs, Shader.roots_of_mapExprs isEdited] at listed'
  rcases List.mem_flatMap.mp listed' with ⟨root', isRoot', isPart'⟩
  rcases List.mem_map.mp isRoot' with ⟨root, isRoot, rfl⟩
  have known := follows.of_mem_roots_declaring checked isNew next isRoot
  rcases @Expr.exists_kept_of_mem_subexprs_change (edit.change next)
    (fun part => part.varName? ≠ some var.name)
    (fun part => ∃ later, edit.change next part = .var later var.name) root e' known.1
    (fun part isPart _ => by
      cases (known.2 part isPart).1 with
      | access _ _ changed => exact .inl ⟨_, changed⟩
      | other _ noUse changed => exact .inr ⟨changed, noUse⟩) isPart' with
    ⟨part, isPart, noUse, stays⟩
  have same : e' = edit.change next part := by
    rcases stays with same | ⟨⟨later, changed⟩, within⟩
    · exact same
    · rw [changed] at within
      exact (List.mem_singleton.mp within).trans changed.symm
  rcases known.2 part isPart with ⟨changes, inShader | ⟨init, isInit, rfl⟩⟩
  · exact .inl ⟨part, inShader, noUse, same, changes⟩
  · exact .inr ⟨init, isInit, same.trans (follows.change_projection checked isNew isInit)⟩

/-- Everything is still there, changed, but references to the variable and a call of the
constructor that initialised it. -/
theorem Follows.change_mem_exprs {e : Expr} (listed : e ∈ shader.exprs)
    (noUse : e.varName? ≠ some var.name)
    (notInit : ∀ init ∈ var.init, e = init → init.calls edit.struct = false) :
    edit.change next e ∈ edited.exprs := by
  have isDeclared : e ∈ (edit.declaring shader spot memberId var).exprs := by
    have ofRoot : ∀ root, root ∈ (spot.fill []).flatMap Decl.roots ∨
        root ∈ (edit.fieldVar memberId var).init → e ∈ root.subexprs →
          e ∈ (edit.declaring shader spot memberId var).exprs :=
      fun root isRoot isPart => List.mem_flatMap.mpr ⟨root, (Shader.mem_roots_fill_iff rfl).mpr
        (isRoot.imp_right fun isInit => List.mem_append_left _ (Option.mem_toList.mpr isInit)), isPart⟩
    rcases List.mem_flatMap.mp listed with ⟨root, isRoot, isPart⟩
    rcases (Shader.mem_roots_fill_iff follows.isAt).mp isRoot with isAround | isInside
    · exact ofRoot root (.inl isAround) isPart
    rcases List.mem_append.mp isInside with isInit | impossible
    · have isInit := Option.mem_toList.mp isInit
      have isInit' : edit.fieldInit memberId root ∈ (edit.fieldVar memberId var).init :=
        Option.map_eq_some_iff.mpr ⟨root, isInit, rfl⟩
      refine ofRoot _ (.inr isInit') ?_
      rcases (follows.fieldInit_cases checked isInit memberId).2 with ⟨id, isCall⟩ | ⟨_, isMember⟩
      · generalize edit.fieldInit memberId root = arg at isCall
        subst isCall
        rcases List.mem_cons.mp isPart with same | isPart
        · exact absurd (notInit _ isInit same) (by simp [Expr.calls])
        · simpa [Expr.subexprsOfList] using isPart
      · rw [isMember]
        exact List.mem_cons_of_mem _ isPart
    · cases impossible
  refine Shader.change_mem_exprs isEdited isDeclared fun outer isOuter child isChild isPart => ?_
  rcases List.mem_flatMap.mp isOuter with ⟨root, isRoot, isPart'⟩
  have known := follows.of_mem_roots_declaring checked isNew next isRoot
  cases (known.2 outer isPart').1 with
  | access isAccess _ _ =>
      -- Within an access there is only the reference.
      cases isAccess
      rw [List.mem_singleton.mp isChild] at isPart
      rw [List.mem_singleton.mp isPart] at noUse
      exact absurd rfl noUse
  | other _ _ changed => exact changed

end

/-! ## Types afterwards -/

section

variable (checked : shader.check version = .ok types) (follows : edit.Follows shader spot var decl)
include checked follows

/-- An access has the type of the field. -/
theorem Follows.types_access {id baseId : NodeId}
    (listed : .member id (.var baseId var.name) edit.field ∈ shader.exprs) :
    types[id]? = some edit.fieldTy := by
  have valid := Shader.isValid_iff.mp ⟨types, checked⟩
  rcases (@Shader.mem_exprs_iff shader version _).mp listed with ⟨one, isPlaced, isPart⟩
  have typed := Shader.types_eq_typeOf checked isPlaced isPart
  rcases Option.isSome_iff_exists.mp typed.1 with ⟨ty, isTy⟩
  rcases Context.typeOf_member_eq_some_iff.mp isTy with ⟨baseTy, isBase, isMember⟩
  have stands := (Shader.allAt_lookup? valid.2 follows.isAt follows.notMem_around one
    isPlaced).resolve_left fun hidden => by
      rw [Context.typeOf, hidden] at isBase
      cases isBase
  rw [Context.typeOf, stands, follows.isStruct] at isBase
  cases isBase
  have known := (follows.member_eq_ok_iff checked
    (Shader.structs_subset_of_mem_placed isPlaced)).mp isMember
  exact typed.2.trans (isTy.trans (congrArg some known.2))

/-- The field is not a struct of its own kind. -/
theorem Follows.fieldTy_ne : edit.fieldTy ≠ .struct edit.struct := by
  rcases follows.single with ⟨id, single⟩
  rcases Shader.mem_decls_of_struct? follows.declared with ⟨isDeclared, named⟩
  intro isStruct
  exact Shader.inner_ne_outer checked isDeclared (single ▸ List.mem_cons_self) isStruct named.symm

variable {memberId : NodeId} (isNew : memberId ∉ edit.accesses) {edited : Shader}
  (isEdited : edited.decls =
    (edit.declaring shader spot memberId var).decls.map (Decl.mapExprs (edit.change next)))
  {types' : TypeTable} (checked' : edited.check version = .ok types')
include isNew isEdited

/-- The field is declared where the struct was. -/
theorem Follows.decls_eq_fill : edited.decls = (spot.mapExprs (edit.change next)).fill
    [.decl edit.declStmt (edit.fieldVar memberId var)] := by
  have sameVar : (edit.fieldVar memberId var).mapExprs (edit.change next) = edit.fieldVar memberId var := by
    refine congrArg (fun init => { edit.fieldVar memberId var with init }) ?_
    rw [fieldVar, Option.map_map]
    exact Option.map_congr fun init isInit => follows.change_fieldInit checked isNew isInit
  rw [isEdited, declaring, Spot.map_mapExprs_fill, Stmt.mapExprsList, Stmt.mapExprs, sameVar]
  rfl

include checked'

/-- Every reference to the variable has the type of the field now. -/
theorem Follows.types_reference {id : NodeId} (listed : .var id var.name ∈ edited.exprs) :
    types'[id]? = some edit.fieldTy := by
  refine Shader.types_var checked' (follows.decls_eq_fill checked isNew isEdited) ?_ listed
  have bare := @Spot.map_mapExprs_fill (edit.change next) [] spot
  rw [Stmt.mapExprsList] at bare
  rw [← bare, Decl.declaredNames_mapExprs]
  exact follows.notMem_around

/-- So has the new initialiser. -/
theorem Follows.types_fieldInit {init : Expr} (isInit : init ∈ var.init) :
    types'[(edit.fieldInit memberId init).id]? = some edit.fieldTy := by
  have isAt := follows.decls_eq_fill checked isNew isEdited
  have isInit' : edit.fieldInit memberId init ∈ (edit.fieldVar memberId var).init :=
    Option.map_eq_some_iff.mpr ⟨init, isInit, rfl⟩
  have accepted := (Shader.acceptsList_at (Shader.isValid_iff.mp ⟨types', checked'⟩).2 isAt).1.2
  have isPlaced := @Shader.placedList_subset_placed edited _ _ version isAt
    ⟨_, edit.fieldInit memberId init⟩ (List.mem_append_left _ (List.mem_map_of_mem
      (Option.mem_toList.mpr isInit')))
  rw [(Shader.types_eq_typeOf checked' isPlaced (Expr.self_mem_subexprs _)).2]
  exact accepted.initialised _ isInit'

end

/-- What a shader and its types are when a variable was replaced by its only field: how they
relate to the shader before and its types, and the variable to the one before. -/
structure Replaced (edit : SoleField) (shader : Shader) (types : TypeTable) (edited : Shader)
    (types' : TypeTable) (old new : VarDecl) (change : Expr → Expr) : Prop where
  varName : edit.varName = old.name
  declaredBefore : shader.findStmt? edit.declStmt = some (.decl edit.declStmt old)
  declaredAfter : edited.findStmt? edit.declStmt = some (.decl edit.declStmt new)
  /-- The variable was of a struct with a single field. -/
  isStruct : old.ty = .struct edit.struct ∧ ∃ decl id, shader.struct? edit.struct = some decl ∧
    decl.fields = [⟨id, edit.fieldTy, edit.field⟩]
  /-- Now it is of the type of that field, and the same otherwise. -/
  isField : new = { old with ty := edit.fieldTy, init := new.init } ∧
    edit.fieldTy ≠ .struct edit.struct
  /-- Its initialiser is the argument of the constructor, or else the field of what it was. -/
  initialised : Option.Rel (fun init init' => types'[init'.id]? = some edit.fieldTy ∧
    ((∃ id, init = .call id edit.struct [init']) ∨
      (∀ id args, init ≠ .call id edit.struct args) ∧ ∃ id, init' = .member id init edit.field))
    old.init new.init
  /-- Nothing else changes but expressions. -/
  decls : ∃ spot : Spot, shader.decls = spot.fill [.decl edit.declStmt old] ∧
    edited.decls = (spot.mapExprs change).fill [.decl edit.declStmt new]
  /-- Every reference to the variable was the base of an access to the field. -/
  uses : ∀ id, .var id old.name ∈ shader.exprs →
    ∃ accessId, .member accessId (.var id old.name) edit.field ∈ shader.exprs
  /-- An access becomes a reference to the variable, of the type that it had. -/
  accesses : ∀ id baseId, .member id (.var baseId old.name) edit.field ∈ shader.exprs →
    ∃ varId, change (.member id (.var baseId old.name) edit.field) = .var varId old.name ∧
      .var varId old.name ∈ edited.exprs ∧ types'[varId]? = types[id]? ∧
      types[id]? = some edit.fieldTy
  /-- No other reference is there now. -/
  references : ∀ id, .var id old.name ∈ edited.exprs → types'[id]? = some edit.fieldTy ∧
    ∃ accessId baseId, .member accessId (.var baseId old.name) edit.field ∈ shader.exprs ∧
      change (.member accessId (.var baseId old.name) edit.field) = .var id old.name
  /-- None of the accesses is left, and what is selected of the variable now was selected of
  one of them. -/
  gone : (∀ id baseId, .member id (.var baseId old.name) edit.field ∈ shader.exprs →
      ∀ e' ∈ edited.exprs, e'.id ≠ id) ∧
    ∀ id baseId field, .member id (.var baseId old.name) field ∈ edited.exprs →
      ∃ accessId varId, .member id (.member accessId (.var varId old.name) edit.field) field ∈
        shader.exprs
  /-- Whatever else there is changes in its operands alone.  It is still there, unless it is
  the call of the constructor that initialised the variable. -/
  others : ∀ e ∈ shader.exprs, isMemberOf old.name edit.field e = false →
    e.varName? ≠ some old.name → change e = e.mapChildren change ∧
      ((e ∈ old.init → ∀ id args, e ≠ .call id edit.struct args) → change e ∈ edited.exprs)

theorem calls_eq_false_iff {e : Expr} {callee : String} :
    e.calls callee = false ↔ ∀ id args, e ≠ .call id callee args := by
  cases e <;> simp [Expr.calls]

section

variable (checked : shader.check version = .ok types) (follows : edit.Follows shader spot var decl)
  {memberId : NodeId} (isNew : memberId ∉ edit.accesses) {edited : Shader}
  (isEdited : edited.decls =
    (edit.declaring shader spot memberId var).decls.map (Decl.mapExprs (edit.change next)))
include checked follows isNew isEdited

/-- A reference that is there now was an access. -/
theorem Follows.exists_access_of_reference {id : NodeId} (listed : .var id var.name ∈ edited.exprs) :
    ∃ accessId baseId, .member accessId (.var baseId var.name) edit.field ∈ shader.exprs ∧
      edit.change next (.member accessId (.var baseId var.name) edit.field) = .var id var.name := by
  rcases follows.exists_of_mem_exprs checked isNew isEdited listed with
    ⟨e, inShader, noUse, same, changes⟩ | ⟨_, _, impossible⟩
  · cases changes with
    | access isAccess _ _ =>
        cases isAccess
        exact ⟨_, _, inShader, same.symm⟩
    | other _ _ changed =>
        rw [changed] at same
        exact absurd ((congrArg Expr.varName? same).trans (Expr.varName?_mapChildren ..)).symm noUse
  · cases impossible

/-- The accesses are gone. -/
theorem Follows.id_ne_of_mem_exprs (old : ∀ id ∈ edit.accesses, id < next) {e' : Expr}
    (listed : e' ∈ edited.exprs) : e'.id ∉ edit.accesses := by
  rcases follows.exists_of_mem_exprs checked isNew isEdited listed with
    ⟨e, _, _, rfl, changes⟩ | ⟨_, _, rfl⟩
  · cases changes with
    | access _ isLater changed =>
        rw [changed]
        exact fun isTarget => Nat.not_lt.mpr isLater (old _ isTarget)
    | other notTarget _ changed =>
        rw [changed, Expr.id_mapChildren]
        exact notTarget
  · exact isNew

/-- What is selected of the variable now was selected of an access. -/
theorem Follows.exists_access_of_member {id baseId : NodeId} {field : String}
    (listed : .member id (.var baseId var.name) field ∈ edited.exprs) :
    ∃ accessId varId, .member id (.member accessId (.var varId var.name) edit.field) field ∈
      shader.exprs := by
  have distinct := (Shader.isValid_iff.mp ⟨types, checked⟩).1
  rcases follows.exists_of_mem_exprs checked isNew isEdited listed with
    ⟨e, inShader, _, same, changes⟩ | ⟨init, isInit, same⟩
  · cases changes with
    | access _ _ changed =>
        rw [changed] at same
        cases same
    | other _ noUse changed =>
        rw [changed] at same
        cases e with
        | member id' base field' =>
            rw [Expr.mapChildren, Expr.member.injEq] at same
            rcases same with ⟨rfl, isBase, rfl⟩
            have isChild : base ∈ (Expr.member id base field).children := List.mem_cons_self
            have baseListed := Shader.mem_exprs_of_mem_subexprs inShader
              (Expr.mem_subexprs_of_mem_children isChild)
            cases follows.changesAt distinct next baseListed with
            | access isAccess _ _ =>
                cases isAccess
                exact ⟨_, _, inShader⟩
            | other _ _ changed =>
                rw [changed] at isBase
                exact absurd ((congrArg Expr.varName? isBase).trans (Expr.varName?_mapChildren ..)).symm
                  (noUse base isChild)
        | _ => cases same
  · cases same
    exact absurd rfl (follows.noUse_of_init checked isInit (Expr.self_mem_subexprs _))

end

/-- Replacing a variable by the only field of its struct keeps a shader valid. -/
theorem exists_replaced (checked : shader.check version = .ok types)
    (below : ∀ id ∈ shader.ids, id < shader.nextId) {everywhere : Bool}
    (found : edit ∈ find everywhere shader) :
    ∃ types' old new change, (edit.apply shader).check version = .ok types' ∧
      edit.Replaced shader types (edit.apply shader) types' old new change := by
  rcases exists_follows checked found with ⟨spot, var, decl, follows⟩
  have numbered := isNumbered_of_check checked below
  have old : ∀ id ∈ edit.accesses, id < shader.nextId := by
    rw [follows.accesses]
    intro id listed
    rcases List.mem_map.mp listed with ⟨e, isAccess, rfl⟩
    exact below e.id ((Shader.map_id_exprs_sublist shader).subset
      (List.mem_map_of_mem (List.mem_of_mem_filter isAccess)))
  have isNew : shader.nextId ∉ edit.accesses := fun listed => Nat.lt_irrefl _ (old _ listed)
  have isEdited := follows.decls_apply numbered
  have isAt := follows.decls_eq_fill checked isNew isEdited
  have stillNumbered := edit.isNumbered_apply numbered
  rcases Shader.isValid_iff.mpr ⟨stillNumbered.1, follows.followsRules checked isNew isEdited⟩ with
    ⟨types', checked'⟩
  refine ⟨types', var, edit.fieldVar shader.nextId var, edit.change (shader.nextId + 1), checked', ?_⟩
  constructor
  case varName => exact follows.varName
  case declaredBefore => exact follows.findStmt? numbered.1
  case declaredAfter => exact @Shader.findStmt?_fill _ _ (.decl edit.declStmt _) isAt stillNumbered.1
  case isStruct =>
    rcases follows.single with ⟨id, single⟩
    exact ⟨follows.isStruct, decl, id, follows.declared, single⟩
  case isField => exact ⟨rfl, follows.fieldTy_ne checked⟩
  case initialised =>
    cases hasInit : var.init with
    | none =>
        rw [fieldVar, hasInit]
        exact .none
    | some init =>
        rw [fieldVar, hasInit]
        refine .some ⟨follows.types_fieldInit checked isNew isEdited checked' hasInit, ?_⟩
        rcases (follows.fieldInit_cases checked hasInit shader.nextId).2 with isCall | ⟨noCall, isMember⟩
        · exact .inl isCall
        · exact .inr ⟨calls_eq_false_iff.mp noCall, shader.nextId, isMember⟩
  case decls => exact ⟨spot, follows.isAt, isAt⟩
  case uses => exact fun id listed => follows.exists_access listed
  case accesses =>
    intro id baseId listed
    cases follows.changesAt numbered.1 (shader.nextId + 1) listed with
    | @access _ _ later _ _ changed =>
        have stays := follows.change_mem_exprs checked isNew isEdited listed nofun
          fun init _ same => same ▸ rfl
        rw [changed] at stays
        have isTy := follows.types_access checked listed
        exact ⟨later, changed, stays, (follows.types_reference checked isNew isEdited checked'
          stays).trans isTy.symm, isTy⟩
    | other _ noUse _ => exact absurd rfl (noUse _ List.mem_cons_self)
  case references =>
    exact fun id listed => ⟨follows.types_reference checked isNew isEdited checked' listed,
      follows.exists_access_of_reference checked isNew isEdited listed⟩
  case gone =>
    refine ⟨fun id baseId listed e' listed' sameId => ?_, fun id baseId field listed =>
      follows.exists_access_of_member checked isNew isEdited listed⟩
    refine follows.id_ne_of_mem_exprs checked isNew isEdited
      (fun id listed => Nat.lt_succ_of_lt (old id listed)) listed' ?_
    rw [sameId, follows.accesses]
    exact List.mem_map_of_mem (f := Expr.id) (List.mem_filter.mpr ⟨listed,
      isMemberOf_eq_true_iff.mpr ⟨id, baseId, rfl⟩⟩)
  case others =>
    intro e listed noAccess noUse
    refine ⟨change_eq_mapChildren (follows.notMem_accesses numbered.1 listed noAccess),
      fun notInit => follows.change_mem_exprs checked isNew isEdited listed noUse ?_⟩
    rintro init isInit rfl
    exact calls_eq_false_iff.mpr (notInit isInit)

/-- The shader `struct S { int a; }; void main() { S s = S(1); s.a = s.a; }`. -/
def counter : Shader :=
  .ofDecls .essl100 [.struct ⟨.unnumbered, "S", [⟨.unnumbered, .int, "a"⟩]⟩,
    .function ⟨.unnumbered, .void, "main", [], ⟨.unnumbered,
      [.decl .unnumbered ⟨.unnumbered, none, .struct "S", "s",
        some (.call .unnumbered "S" [.int .unnumbered 1])⟩,
      .expr .unnumbered (.assign .unnumbered .set
        (.member .unnumbered (.var .unnumbered "s") "a")
        (.member .unnumbered (.var .unnumbered "s") "a"))]⟩⟩]

/-- The variable becomes one of type `int`, and both accesses become references to it. -/
theorem exists_replaced_counter :
    ∃ types types' old new change, counter.check .essl100 = .ok types ∧
      (∀ id ∈ counter.ids, id < counter.nextId) ∧
      ⟨4, "s", "S", "a", .int, [10, 12]⟩ ∈ find true counter ∧
      (apply ⟨4, "s", "S", "a", .int, [10, 12]⟩ counter).check .essl100 = .ok types' ∧
      Replaced ⟨4, "s", "S", "a", .int, [10, 12]⟩ counter types
        (apply ⟨4, "s", "S", "a", .int, [10, 12]⟩ counter) types' old new change := by
  have isValid : (counter.check .essl100).toOption.isSome = true := by decide
  have below : ∀ id ∈ counter.ids, id < counter.nextId := by decide
  have found : ⟨4, "s", "S", "a", .int, [10, 12]⟩ ∈ find true counter := by decide
  cases checked : counter.check .essl100 with
  | error problems =>
      rw [checked] at isValid
      cases isValid
  | ok types =>
      rcases exists_replaced checked below found with ⟨types', old, new, change, checked', replaced⟩
      exact ⟨types, types', old, new, change, rfl, below, found, checked', replaced⟩

end SoleField
end Reduction
end Whittle
