import Whittle.Proofs.Identifiers.History
import Whittle.Proofs.Reduction.ExprChanges
import Whittle.Proofs.Reduction.ValueEdits
import Whittle.Proofs.Scoping.Evaluation
import Whittle.Proofs.Scoping.Globals

namespace Whittle

/-!
# Undoing outlining keeps validity and value

The returned expression moves to the place of the call.  Its parameters are replaced by
the arguments, and whatever else it refers to is a global that the caller does not hide.
So each name in it stands for what it stood for in the function when the arguments were
passed.
-/

namespace Reduction
namespace OutlinedCall

open Check (Context)
open Check.Context (Placed)
open Whittle.Expr (rewrite changeAt)
open Scoping (StandsInShader Store evaluate? select? changedScopes)

theorem binding?_name {params : List Param} {args : List Expr}
    (apart : (params.map Param.name).Nodup) {position : Nat} {param : Param} {arg : Expr}
    (isParam : params[position]? = some param) (isArg : args[position]? = some arg) :
    binding? params args param.name = some arg := by
  refine Scoping.lookup_eq_some_of_mem ?_ (List.mem_reverse.mpr
    (List.mem_of_getElem? (i := position) ?_))
  · rw [List.map_reverse, List.nodup_reverse]
    exact apart.sublist (Scoping.map_fst_zip_sublist _ _)
  · rw [List.getElem?_zip_eq_some, List.getElem?_map, isParam]
    exact ⟨rfl, isArg⟩

theorem binding?_eq_none {params : List Param} {args : List Expr} {name : String}
    (isOther : name ∉ params.map Param.name) : binding? params args name = none := by
  refine List.lookup_eq_none_iff.mpr fun pair listed => bne_iff_ne.mpr fun same => isOther ?_
  exact same ▸ (List.of_mem_zip (List.mem_reverse.mp listed)).1

/-- What is declared in front of a function is none of its parameters. -/
theorem key_ne_of_mem_outermost {shader : Shader} {version : Version} (distinct : shader.ids.Nodup)
    {before behind : List Decl} {f : Function}
    (split : shader.decls = before ++ .function f :: behind) {declared : Scoping.Declared}
    (isMember : declared ∈ Scoping.outermost version before) {param : Param} (listed : param ∈ f.params) :
    declared.key ≠ .node param.id := by
  intro same
  rw [Scoping.outermost_eq, List.mem_append] at isMember
  rcases isMember with isPredefined | isGlobal
  · unfold Scoping.predefined at isPredefined
    split at isPredefined
    · rcases List.mem_pair.mp isPredefined with rfl | rfl <;> cases same
    · rcases List.mem_singleton.mp isPredefined with rfl
      cases same
  · rcases List.mem_map.mp isGlobal with ⟨var, isVar, rfl⟩
    rcases List.mem_filterMap.mp isVar with ⟨decl, listed', isGlobal⟩
    cases decl <;> cases isGlobal
    rcases List.append_of_mem listed' with ⟨front, back, rfl⟩
    have ofParam : param.id ∈ (Decl.function f).ids :=
      List.mem_cons_of_mem _ (List.mem_append_left _ (List.mem_map_of_mem listed))
    have ofVar : param.id ∈ (Decl.global var).ids := Scoping.Key.node.inj same ▸ List.mem_cons_self
    have split' := split
    rw [List.append_assoc, List.cons_append] at split'
    cases (Scoping.eq_of_split distinct split split' ofParam ofVar).2

/-- An assignment of a call of a function that does nothing but return an expression. -/
structure Source where
  stmtId : NodeId
  assignId : NodeId
  target : Expr
  callId : NodeId
  args : List Expr
  f : Function
  retId : NodeId
  body : Expr

namespace Source

variable (source : Source)

def call : Expr :=
  .call source.callId source.f.name source.args

def assignment : Expr :=
  .assign source.assignId .set source.target source.call

/-- The statement that assigns the call. -/
def stmt : Stmt :=
  .expr source.stmtId source.assignment

/-- What a name in the returned expression is replaced by. -/
def bound (shader : Shader) : String → Option Expr :=
  binding? source.f.params (parenthesizedList shader source.args).1

end Source

variable {edit : OutlinedCall} {shader : Shader} {version : Version} {types : TypeTable} {spot : Spot}
  {source : Source}

/-- The edit is about the assignment at the place. -/
structure Follows (edit : OutlinedCall) (shader : Shader) (spot : Spot) (source : Source) : Prop where
  isAt : shader.decls = spot.fill [source.stmt]
  inBody : spot.function.body.stmts = spot.slot.fill [source.stmt]
  stmt : edit.stmt = source.stmtId
  call : edit.call = source.callId
  callee : edit.callee = source.f.name
  isFunction : shader.function? source.f.name = some source.f
  returns : source.f.body.stmts = [.ret source.retId (some source.body)]
  pureBody : isPure shader source.body = true
  pureArgs : ∀ arg ∈ source.args, isPure shader arg = true
  resolvable : ∀ name ∈ (Names.ofExpr source.body).referenced,
    (source.f.paramIndex? name).isSome ∨
      (shader.global? name).isSome ∧ (Names.ofFunction spot.function).declarations name = 0

theorem exists_of_callSite? {s : Stmt} {site : CallSite} (found : callSite? s = some site)
    (assigned : site.target.isSome) : ∃ stmtId assignId target,
      s = .expr stmtId (.assign assignId .set target (.call site.callId site.callee site.args)) := by
  unfold callSite? at found
  split at found
  · cases found
    cases assigned
  · cases found
    exact ⟨_, _, _, rfl⟩
  · cases found

theorem exists_of_returnedExpr? {f : Function} {body : Expr} (found : returnedExpr? f = some body) :
    ∃ retId, f.body.stmts = [.ret retId (some body)] := by
  unfold returnedExpr? at found
  split at found
  · rename_i retId value isBody
    exact ⟨retId, found ▸ isBody⟩
  · cases found

theorem exists_follows (checked : shader.check version = .ok types) {everywhere : Bool}
    (found : edit ∈ find everywhere shader) : ∃ spot source, edit.Follows shader spot source := by
  have follows := (Shader.isValid_iff.mp ⟨types, checked⟩).2
  rcases List.mem_flatMap.mp found with ⟨caller, isCaller, found⟩
  rcases List.mem_filterMap.mp found with ⟨place, isPlace, found⟩
  rcases exists_spot_of_mem_sites follows (List.mem_flatMap.mpr ⟨caller, isCaller, isPlace⟩) with
    ⟨spot, isFunction, isAt, inBody, -⟩
  have isCaller : spot.function = caller := by
    rcases List.mem_flatMap.mp isPlace with ⟨list, -, isPlace⟩
    rcases List.mem_map.mp isPlace with ⟨s, -, rfl⟩
    exact isFunction
  rw [← isFunction] at inBody
  simp only [ofStmt?, bind, Option.bind_eq_some_iff, Option.ite_none_right_eq_some, isResolvable,
    Bool.and_eq_true, Bool.or_eq_true, beq_iff_eq, List.all_eq_true, Option.some.injEq] at found
  rcases found with ⟨site, isSite, f, isF, body, returns, ⟨⟨⟨⟨assigned, -⟩, pureBody⟩, pureArgs⟩,
    resolvable⟩, rfl⟩
  rcases exists_of_callSite? isSite assigned with ⟨stmtId, assignId, target, isStmt⟩
  rcases exists_of_returnedExpr? returns with ⟨retId, returns⟩
  have named := (Shader.mem_decls_of_function? isF).2
  rw [isStmt, ← named] at isAt inBody
  refine ⟨spot, ⟨stmtId, assignId, target, site.callId, site.args, f, retId, body⟩, isAt, inBody, ?_, rfl,
    named.symm, named ▸ isF, returns, pureBody, pureArgs, isCaller ▸ resolvable⟩
  rw [isStmt]
  rfl

namespace Follows

variable (follows : edit.Follows shader spot source)
include follows

theorem split : shader.decls = spot.before ++ .function spot.function :: spot.behind := by
  rw [follows.isAt, Spot.fill, ← follows.inBody]
  rfl

theorem assignment_mem_roots : source.assignment ∈ shader.roots :=
  (Shader.mem_roots_fill_iff follows.isAt).mpr (.inr List.mem_cons_self)

omit follows in
theorem call_mem_subexprs : source.call ∈ source.assignment.subexprs :=
  Expr.mem_subexprs_of_mem_children (List.mem_cons_of_mem _ List.mem_cons_self)

theorem call_mem_exprs : source.call ∈ shader.exprs :=
  List.mem_flatMap.mpr ⟨source.assignment, follows.assignment_mem_roots, call_mem_subexprs⟩

theorem call_mem_caller : source.call ∈ (Decl.function spot.function).exprs := by
  refine List.mem_flatMap.mpr ⟨source.assignment, ?_, call_mem_subexprs⟩
  show source.assignment ∈ spot.function.body.stmts.flatMap Stmt.roots
  rw [follows.inBody, ← Stmt.rootsOfList_eq_flatMap]
  exact (Slot.mem_roots_fill_iff spot.slot).mpr (.inr List.mem_cons_self)

/-- The call is evaluated for its value. -/
theorem call_mem_rvalues : source.call ∈ rvalues shader := by
  refine List.mem_flatMap.mpr ⟨source.assignment, follows.assignment_mem_roots, ?_⟩
  exact List.mem_cons_of_mem _ (List.mem_append_right _ List.mem_cons_self)

theorem body_mem_callee : source.body ∈ (Decl.function source.f).exprs := by
  refine List.mem_flatMap.mpr ⟨source.body, ?_, Expr.self_mem_subexprs _⟩
  show source.body ∈ source.f.body.stmts.flatMap Stmt.roots
  rw [follows.returns]
  exact List.mem_cons_self

theorem callee_mem : .function source.f ∈ shader.decls :=
  (Shader.mem_decls_of_function? follows.isFunction).1

theorem body_mem_exprs : source.body ∈ shader.exprs := by
  rcases List.mem_flatMap.mp follows.body_mem_callee with ⟨root, isRoot, isPart⟩
  exact List.mem_flatMap.mpr ⟨root, List.mem_flatMap.mpr ⟨_, follows.callee_mem, isRoot⟩, isPart⟩

variable (checked : shader.check version = .ok types)
include checked

/-- The returned expression has the type that the function returns. -/
theorem type_body : types[source.body.id]? = some source.f.returnTy := by
  rcases List.append_of_mem follows.callee_mem with ⟨before, behind, split⟩
  have accepted := (Shader.acceptsDecl_of_split checked split).1.body
  rw [follows.returns] at accepted
  rcases accepted.1 with ⟨-, isTy⟩
  have placed : ⟨((Context.initial version).behindDecls before).inFunction source.f, source.body⟩ ∈
      shader.placed version := by
    rw [Shader.placed, split, Context.placedDecls_append, Context.placedDecls]
    refine List.mem_append_right _ (List.mem_append_left _ ?_)
    rw [Context.placedDecl, follows.returns]
    exact List.mem_cons_self
  exact (Shader.types_eq_typeOf checked placed source.body.self_mem_subexprs).2.trans isTy

/-- The parameters of the function have names of their own. -/
theorem nodup_params : (source.f.params.map Param.name).Nodup := by
  rcases List.append_of_mem follows.callee_mem with ⟨before, behind, split⟩
  exact (Shader.acceptsDecl_of_split checked split).1.params.nodup_names.1

end Follows

/-! ## Names -/

/-- What is put in the place of a name, where it selects a variable with `scopes'` around the
returned expression and the call has `scopes` around it: a parameter is replaced by its
argument, and any other name stays and selects the same variable, which is none of the
parameters. -/
inductive Source.Resolves (source : Source) (shader : Shader) (scopes scopes' : List Scoping.Scope)
    (name : String) : Prop where
  | param {position : Nat} {param : Param} {arg : Expr} {paren : NodeId}
      (isParam : source.f.params[position]? = some param) (isArg : source.args[position]? = some arg)
      (bound : source.bound shader name = some (.paren paren arg))
      (selected' : select? scopes' name = some (.ofParam param))
  | topLevel {declared : Scoping.Declared} (unbound : source.bound shader name = none)
      (selected' : select? scopes' name = some declared) (selected : select? scopes name = some declared)
      (isOther : ∀ param ∈ source.f.params, declared.key ≠ .node param.id)

namespace Follows

section

variable (follows : edit.Follows shader spot source) (checked : shader.check version = .ok types)
include follows checked

/-- Around the returned expression there are the parameters and what is in front of the
function. -/
theorem scopes_of_body {before behind : List Decl}
    (split : shader.decls = before ++ .function source.f :: behind) {scopes' : List Scoping.Scope}
    (stands' : StandsInShader shader version source.body scopes') :
    scopes' = [source.f.params.map .ofParam, Scoping.outermost version before] := by
  have distinct := (Shader.isValid_iff.mp ⟨types, checked⟩).1
  rcases stands'.exists_body distinct split follows.body_mem_callee with
    ⟨inFront, s, after, root, within, splitBody, standsIn, -, rfl⟩
  rw [follows.returns] at splitBody
  rcases List.append_eq_singleton_iff.mp splitBody.symm with ⟨rfl, isSole⟩ | ⟨-, isEmpty⟩
  · cases isSole
    cases standsIn with
    | here holds =>
        cases holds
        rw [List.nil_append, Scoping.declaredIn, List.filterMap_nil, List.map_nil, List.append_nil]
    | within opens => cases opens
  · cases isEmpty

variable (functions : ∀ f ∈ shader.functions, IsUnclaimed f.name)
include functions

/-- The call has the types that the function promises, and the function stands in front of
the caller. -/
theorem types_of_call : .function source.f ∈ spot.before ∧
    source.args.map (fun arg => types[arg.id]?) =
      source.f.params.map (fun param => some param.ty) ∧
    types[source.callId]? = some source.f.returnTy :=
  Shader.call_of_function? checked follows.split follows.call_mem_caller
    ((functions source.f (Shader.mem_functions_iff.mpr follows.callee_mem)).callsDeclared _ _)
    follows.isFunction

theorem length_args : source.args.length = source.f.params.length := by
  have same := congrArg List.length (follows.types_of_call checked functions).2.1
  rwa [List.length_map, List.length_map] at same

theorem resolves {scopes scopes' : List Scoping.Scope}
    (stands : StandsInShader shader version source.call scopes)
    (stands' : StandsInShader shader version source.body scopes') {id : NodeId} {name : String}
    (isPart : .var id name ∈ source.body.subexprs) : source.Resolves shader scopes scopes' name := by
  have distinct := (Shader.isValid_iff.mp ⟨types, checked⟩).1
  rcases List.append_of_mem (follows.types_of_call checked functions).1 with ⟨before, between, inFront⟩
  have split : shader.decls =
      before ++ .function source.f :: (between ++ .function spot.function :: spot.behind) := by
    rw [follows.split, inFront, List.append_assoc, List.cons_append]
  have isScopes := follows.scopes_of_body checked split stands'
  by_cases isParam : name ∈ source.f.params.map Param.name
  · rcases List.mem_map.mp isParam with ⟨param, listed, rfl⟩
    rcases List.getElem?_of_mem listed with ⟨position, isParam⟩
    have inside : position < source.args.length := by
      rw [follows.length_args checked functions]
      exact (List.getElem?_eq_some_iff.mp isParam).1
    have isArg := List.getElem?_eq_getElem inside
    rcases getElem?_parenthesizedList shader source.args position with ⟨paren, isArg'⟩
    rw [isArg] at isArg'
    refine .param isParam isArg (binding?_name (follows.nodup_params checked) isParam isArg') ?_
    rw [isScopes]
    refine Scoping.select?_cons_of_mem (List.mem_map_of_mem listed) fun other isOther same => ?_
    rcases List.mem_map.mp isOther with ⟨param', listed', rfl⟩
    rw [List.inj_on_of_nodup_map (follows.nodup_params checked) listed' listed same]
  · have isRead := Names.mem_referenced_ofExpr_iff.mpr ⟨id, isPart⟩
    have undeclared : (Names.ofFunction spot.function).declarations name = 0 := by
      rcases follows.resolvable name isRead with isIndex | ⟨-, undeclared⟩
      · rw [Function.paramIndex?, List.findIdx?_isSome, List.any_eq_true] at isIndex
        rcases isIndex with ⟨param, listed, same⟩
        exact absurd (List.mem_map.mpr ⟨param, listed, beq_iff_eq.mp same⟩) isParam
      · exact undeclared
    have listed := Shader.mem_exprs_of_mem_subexprs follows.body_mem_exprs isPart
    rcases (Scoping.exists_select?_of_check checked listed).2 scopes' (stands'.part isPart) with
      ⟨declared, selected', -⟩
    have inFrontOf : select? scopes' name = select? [Scoping.outermost version before] name := by
      rw [isScopes]
      refine @Scoping.select?_append_of_undeclared [_] _ _ fun scope isScope other isOther same => ?_
      rw [List.mem_singleton.mp isScope] at isOther
      rcases List.mem_map.mp isOther with ⟨param, listed, rfl⟩
      exact isParam (List.mem_map.mpr ⟨param, listed, same⟩)
    have atTop := inFrontOf.symm.trans selected'
    have among : before ++ .function source.f :: between ⊆ shader.decls := by
      rw [follows.split, inFront]
      exact List.subset_append_left _ _
    have isOutermost := (Scoping.select?_outermost_eq_some_iff checked
      (List.Subset.trans (List.subset_append_left _ _) among)).mp atTop
    refine .topLevel (binding?_eq_none isParam) selected' ?_ fun param listed =>
      key_ne_of_mem_outermost distinct split isOutermost.1 listed
    rw [stands.select?_outermost distinct follows.split follows.call_mem_caller undeclared, inFront]
    exact Scoping.select?_outermost_append checked among atTop

theorem type_arg {position : Nat} {param : Param} {arg : Expr}
    (isParam : source.f.params[position]? = some param) (isArg : source.args[position]? = some arg) :
    types[arg.id]? = some param.ty := by
  have same := congrArg (·[position]?) (follows.types_of_call checked functions).2.1
  simp only [List.getElem?_map, isParam, isArg, Option.map_some] at same
  exact Option.some.inj same

/-- Where the call stands, the returned expression with the arguments in it has the type of
the call. -/
theorem typeOf_substituted (structs : ∀ decl ∈ shader.structs, IsUnclaimed decl.name) {one : Placed}
    (listed : one ∈ shader.placed version) (isPart : source.call ∈ one.e.subexprs) :
    one.ctx.typeOf (substituted (source.bound shader) source.body) = one.ctx.typeOf source.call := by
  have distinct := (Shader.isValid_iff.mp ⟨types, checked⟩).1
  rcases follows.types_of_call checked functions with ⟨isBefore, -, isCall⟩
  rcases List.append_of_mem isBefore with ⟨before, between, inFront⟩
  have split := follows.split
  have split' : shader.decls =
      before ++ .function source.f :: (between ++ .function spot.function :: spot.behind) := by
    rw [split, inFront, List.append_assoc, List.cons_append]
  rcases Shader.exists_placed_of_mem_exprs checked split' follows.body_mem_callee with
    ⟨one', listed', isPart', areStructs', areFunctions'⟩
  rcases Shader.exists_placed_of_mem_exprs checked split follows.call_mem_caller with
    ⟨other, isOther, isPartOther, areStructs, areFunctions⟩
  cases Scoping.eq_of_mem_placed distinct listed isOther isPart isPartOther
  rcases Scoping.exists_mirrors checked listed with ⟨scopes, stands, mirrors⟩
  rcases Scoping.exists_mirrors checked listed' with ⟨scopes', stands', mirrors'⟩
  have isBody := Shader.types_eq_typeOf checked listed' isPart'
  have structsWithin : one.ctx.structs ⊆ shader.structs := Shader.structs_subset_of_mem_placed listed
  have functionsWithin : one.ctx.functions ⊆ shader.functions := by
    rw [areFunctions, Shader.functions, split, List.filterMap_append]
    exact fun f isFunction => List.mem_append_left _ (List.mem_reverse.mp isFunction)
  have moreStructs : one'.ctx.structs ⊆ one.ctx.structs := by
    rw [areStructs, areStructs', inFront, List.filterMap_append, List.reverse_append]
    exact List.subset_append_right _ _
  have moreFunctions : one'.ctx.functions ⊆ one.ctx.functions := by
    rw [areFunctions, areFunctions', inFront, List.filterMap_append, List.reverse_append]
    exact List.subset_append_right _ _
  have isTy : one'.ctx.typeOf source.body = one.ctx.typeOf source.call := by
    rw [← isBody.2, follows.type_body checked, ← isCall]
    exact (Shader.types_eq_typeOf checked listed isPart).2
  rw [← isTy]
  refine Context.typeOf_substituted
    (fun name decl => Shader.struct?_eq_some_of_subset checked structsWithin moreStructs)
    (fun callee args ty => Shader.call_eq_ok_of_subset checked structsWithin moreStructs
      functionsWithin moreFunctions functions structs) isBody.1 (fun part isPart => ?_)
    fun id name isRead => ?_
  · have effectFree := List.all_eq_true.mp follows.pureBody part isPart
    rw [isEffectFree, Bool.and_eq_true, Option.isNone_iff_eq_none] at effectFree
    exact effectFree.1
  · cases follows.resolves checked functions (stands.part isPart) (stands'.part isPart') isRead with
    | @param position param arg paren isParam isArg bound selected' =>
        have inCall : arg ∈ source.call.children := List.mem_of_getElem? isArg
        have isArgTy := (Shader.types_eq_typeOf checked listed (Expr.mem_subexprs_of_child inCall isPart)).2
        rw [follows.type_arg checked functions isParam isArg] at isArgTy
        rw [substituted, bound, Option.getD_some, Context.typeOf, mirrors' name, selected']
        exact isArgTy.symm
    | topLevel unbound selected' selected _ =>
        rw [substituted, unbound, Option.getD_none, Context.typeOf, Context.typeOf, mirrors name,
          mirrors' name, selected, selected']

/-- The arguments have values, and with these for its parameters the returned expression has
the value that it has with the arguments in it. -/
theorem exists_values {scopes scopes' : List Scoping.Scope}
    (stands : StandsInShader shader version source.call scopes)
    (stands' : StandsInShader shader version source.body scopes') {V : Type} (semantics : Semantics V)
    (store : Store V) :
    ∃ values, source.args.map (evaluate? semantics shader store scopes) = values.map some ∧
      ∃ value,
        evaluate? semantics shader (store.passing source.f.params values) scopes' source.body = some value ∧
        evaluate? semantics shader store scopes (substituted (source.bound shader) source.body) =
          some value := by
  have visible : ∀ {e : Expr} {scopes : List Scoping.Scope}, e ∈ shader.exprs →
      StandsInShader shader version e scopes → ∀ store : Store V, ∀ id name, .var id name ∈ e.subexprs →
        ((select? scopes name).map fun declared => store declared.key).isSome := by
    intro e scopes listed stands store id name isPart
    rcases (Scoping.exists_select?_of_check checked (Shader.mem_exprs_of_mem_subexprs listed isPart)).2
      scopes (stands.part isPart) with ⟨declared, selected, -⟩
    rw [selected]
    rfl
  have each : ∀ arg ∈ source.args,
      ∃ value, evaluate? semantics shader store scopes arg = some value := by
    intro arg isArg
    have inCall : arg ∈ source.call.subexprs := Expr.mem_subexprs_of_mem_children isArg
    exact Semantics.exists_value? (follows.pureArgs arg isArg)
      (visible (Shader.mem_exprs_of_mem_subexprs follows.call_mem_exprs inCall) (stands.part inCall) store)
  rcases Semantics.exists_values? each with ⟨values, areValues⟩
  have areValues := Semantics.values?_eq_some_iff.mp areValues
  rcases Semantics.exists_value? follows.pureBody
    (visible follows.body_mem_exprs stands' (store.passing source.f.params values)) with ⟨value, isValue⟩
  refine ⟨values, areValues, value, isValue, (Semantics.value?_substituted fun id name isPart => ?_).trans isValue⟩
  have distinct := (Shader.isValid_iff.mp ⟨types, checked⟩).1
  cases follows.resolves checked functions stands stands' isPart with
  | @param position param arg paren isParam isArg bound selected' =>
      have ids : (source.f.params.map Param.id).Nodup := by
        have ofDecl := (List.nodup_flatMap.mp distinct).1 _ follows.callee_mem
        exact (List.nodup_cons.mp ofDecl).2.of_append_left
      rcases each arg (List.mem_of_getElem? isArg) with ⟨passed, isPassed⟩
      have same := congrArg (·[position]?) areValues
      simp only [List.getElem?_map, isArg, Option.map_some] at same
      rcases Option.map_eq_some_iff.mp same.symm with ⟨atPosition, isAtPosition, isSame⟩
      rw [substituted, bound, Option.getD_some, selected', Semantics.value?, ← isSame]
      exact congrArg some (Store.passing_param ids isParam isAtPosition).symm
  | topLevel unbound selected' selected isOther =>
      rw [substituted, unbound, Option.getD_none, Semantics.value?, selected, selected', Option.map_some,
        Option.map_some, Store.passing_other isOther]

end

/-- The edit puts a copy of the returned expression, with the arguments in it, in the place of
the call. -/
theorem apply_eq (follows : edit.Follows shader spot source) (checked : shader.check version = .ok types)
    (functions : ∀ f ∈ shader.functions, IsUnclaimed f.name) :
    ∃ drawn paren start, shader.Draws drawn ∧ shader.nextId ≤ start ∧ edit.apply shader =
      (drawn.replaceExpr source.call.id
        ((Expr.paren paren (substituted (source.bound shader) source.body)).numbered start)).1 := by
  have distinct := (Shader.isValid_iff.mp ⟨types, checked⟩).1
  have found : shader.findExpr? edit.call = some source.call :=
    follows.call ▸ Shader.findExpr?_id distinct follows.call_mem_exprs
  have returned : returnedExpr? source.f = some source.body := by rw [returnedExpr?, follows.returns]
  have allPassed : source.args.take source.f.params.length = source.args :=
    List.take_of_length_le (Nat.le_of_eq (follows.length_args checked functions))
  let passed := (parenthesizedList shader source.args).2
  let returns := parenthesized passed (substituted (source.bound shader) source.body)
  have draws : shader.Draws returns.2 :=
    (draws_parenthesizedList shader source.args).trans (draws_parenthesized passed _)
  refine ⟨(returns.2.refreshExpr returns.1).2, passed.nextId, returns.2.nextId,
    draws.trans (Shader.draws_refreshExpr _ _), draws.forward, ?_⟩
  rw [apply, found, follows.callee, follows.isFunction, follows.call]
  simp only [Option.bind_eq_bind, Option.bind_some, returned]
  rw [Source.call, Expr.call?, Option.bind_some]
  dsimp only
  rw [allPassed]
  rfl

/-- The new expression fits in the place of the call: it has its type, and its identifiers are
new. -/
theorem fits (follows : edit.Follows shader spot source) (checked : shader.check version = .ok types)
    (below : ∀ id ∈ shader.ids, id < shader.nextId)
    (functions : ∀ f ∈ shader.functions, IsUnclaimed f.name)
    (structs : ∀ decl ∈ shader.structs, IsUnclaimed decl.name) (paren : NodeId) {start : NodeId}
    (isNew : (shader.nextId : Nat) ≤ start) :
    shader.Fits version types source.call.id
      ((Expr.paren paren (substituted (source.bound shader) source.body)).numbered start) where
  sameType one listed part isPart same := by
    have isCall : part = source.call :=
      Shader.expr_eq_of_id_eq (Shader.isValid_iff.mp ⟨types, checked⟩).1
        (Shader.mem_exprs_iff.mpr ⟨one, listed, isPart⟩) follows.call_mem_exprs same
    subst isCall
    rw [Context.typeOf_numbered, Context.typeOf]
    exact follows.typeOf_substituted checked functions structs listed isPart
  parts one listed _ part isPart ty isTy := by
    have isOld := below part.id (Shader.mem_ids_of_getElem? checked isTy)
    have inCopy := List.mem_map_of_mem (f := Expr.id) isPart
    rw [Expr.map_id_subexprs, Expr.ids_numbered, List.mem_range'_1] at inCopy
    exact absurd (Nat.le_trans isNew inCopy.1) (Nat.not_le_of_lt isOld)

end Follows

/-- What a shader and its types are when a call was replaced by the expression that its
function returns. -/
structure Undone (edit : OutlinedCall) (version : Version) (shader : Shader) (types : TypeTable)
    (edited : Shader) (types' : TypeTable) (source : Source) (change : Expr → Expr) : Prop where
  isAssigned : shader.findStmt? edit.stmt = some source.stmt
  call : edit.call = source.callId
  isFunction : shader.function? edit.callee = some source.f
  returns : source.f.body.stmts = [.ret source.retId (some source.body)]
  /-- Nothing but expressions changes, and of these only the call and what is around it. -/
  decls : edited.decls = shader.decls.map (Decl.mapExprs change)
  others : ∀ e ∈ shader.exprs, e ∉ source.call.subexprs →
    change e = e.mapChildren change ∧ change e ∈ edited.exprs ∧ types'[e.id]? = types[e.id]?
  /-- In the place of the call there is a copy of the returned expression with the arguments in
  it, of the same type. -/
  inlined : (∃ paren start, change source.call =
      (Expr.paren paren (substituted (source.bound shader) source.body)).numbered start) ∧
    change source.call ∈ edited.exprs ∧ types'[(change source.call).id]? = types[source.callId]?
  places : (∃ scopes, StandsInShader shader version source.call scopes) ∧
    ∃ scopes', StandsInShader shader version source.body scopes'
  /-- The copy stands where the call stood.  The arguments have values there, and the copy has
  the value that the returned expression has when these were passed. -/
  value : ∀ scopes, StandsInShader shader version source.call scopes →
    ∀ scopes', StandsInShader shader version source.body scopes' →
      StandsInShader edited version (change source.call) (changedScopes change scopes) ∧
        ∀ (V : Type) (semantics : Semantics V) (store : Store V), ∃ values,
          source.args.map (evaluate? semantics shader store scopes) = values.map some ∧
            ∃ value,
              evaluate? semantics shader (store.passing source.f.params values) scopes' source.body =
                some value ∧
              evaluate? semantics edited store (changedScopes change scopes) (change source.call) =
                some value

/-- Undoing an outlined statement keeps a shader valid, and the expression that is put in the
place of the call has the value that the function would return. -/
theorem exists_undone (checked : shader.check version = .ok types)
    (below : ∀ id ∈ shader.ids, id < shader.nextId)
    (functions : ∀ f ∈ shader.functions, IsUnclaimed f.name)
    (structs : ∀ decl ∈ shader.structs, IsUnclaimed decl.name) {everywhere : Bool}
    (found : edit ∈ find everywhere shader) :
    ∃ types' source change, (edit.apply shader).check version = .ok types' ∧
      edit.Undone version shader types (edit.apply shader) types' source change := by
  rcases exists_follows checked found with ⟨spot, source, follows⟩
  have numbered := isNumbered_of_check checked below
  rcases follows.apply_eq checked functions with ⟨drawn, paren, start, draws, isNew, isApply⟩
  let copy := (Expr.paren paren (substituted (source.bound shader) source.body)).numbered start
  let change := rewrite (changeAt source.callId fun _ => copy)
  have fits := follows.fits checked below functions structs paren isNew
  have isEdited : (edit.apply shader).decls = shader.decls.map (Decl.mapExprs change) := by
    have distinct : drawn.ids.Nodup := draws.ids_eq ▸ numbered.1
    rw [isApply, ← draws.decls]
    exact congrArg Shader.decls (Shader.getD_modifyExpr? distinct)
  have keepsTypes : shader.KeepsTypes version types (edit.apply shader) := by
    have stillNumbered := edit.isNumbered_apply numbered
    rw [isApply] at stillNumbered ⊢
    exact Shader.keepsTypes_replaceExpr checked draws.decls follows.call_mem_rvalues fits stillNumbered
  rcases keepsTypes with ⟨types', checked', keeps⟩
  have isCopy : change source.call = copy := Expr.rewrite_changeAt_id copy source.call
  have around : ∀ outer ∈ shader.exprs, ∀ child ∈ outer.children, source.call ∈ child.subexprs →
      change outer = outer.mapChildren change :=
    Shader.rewrite_changeAt_around numbered.1 follows.call_mem_exprs fun _ =>
      Expr.notMem_subexprs_of_mem_children
  refine ⟨types', source, change, checked', ?_⟩
  constructor
  case isAssigned => exact follows.stmt ▸ Shader.findStmt?_fill follows.isAt numbered.1
  case call => exact follows.call
  case isFunction => exact follows.callee ▸ follows.isFunction
  case returns => exact follows.returns
  case decls => exact isEdited
  case others =>
    intro e listed outside
    have changed : change e = e.mapChildren change :=
      Shader.rewrite_changeAt_of_ne numbered.1 follows.call_mem_exprs listed fun same =>
        outside (same ▸ source.call.self_mem_subexprs)
    have stays : change e ∈ (edit.apply shader).exprs :=
      Shader.change_mem_exprs isEdited listed <|
        Shader.rewrite_changeAt_around numbered.1 follows.call_mem_exprs fun _ isChild isPart =>
          outside (Expr.mem_subexprs_trans isPart (Expr.mem_subexprs_of_mem_children isChild))
    have sameId : (change e).id = e.id := by rw [changed, Expr.id_mapChildren]
    have keeps := keeps e listed (change e) stays sameId
    rw [sameId] at keeps
    exact ⟨changed, stays, keeps⟩
  case inlined =>
    refine ⟨⟨paren, start, isCopy⟩, Shader.change_mem_exprs isEdited follows.call_mem_exprs around, ?_⟩
    refine Shader.types_change_eq isEdited checked checked' follows.call_mem_exprs (fun one listed isPart => ?_)
      around
    rw [isCopy]
    exact fits.sameType one listed source.call isPart rfl
  case places =>
    exact ⟨Scoping.exists_standsInShader version follows.call_mem_exprs,
      Scoping.exists_standsInShader version follows.body_mem_exprs⟩
  case value =>
    intro scopes stands scopes' stands'
    refine ⟨stands.mapExprs isEdited fun root isRoot isPart => ?_, fun V semantics store => ?_⟩
    · exact Expr.change_mem_subexprs isPart fun outer isOuter =>
        around outer (List.mem_flatMap.mpr ⟨root, isRoot, isOuter⟩)
    · rcases follows.exists_values checked functions stands stands' semantics store with
        ⟨values, areValues, value, isValue, isSame⟩
      refine ⟨values, areValues, value, isValue, ?_⟩
      rw [Scoping.evaluate?_of_mapExprs isEdited, isCopy, evaluate?, Semantics.value?_numbered,
        Semantics.value?]
      exact isSame

/-- The shader `int u; int f(int a, int b) { return a * b + u; }
void main() { int b = 1; int x = 2; x = f(b, x); }`. -/
def crossing : Shader :=
  .ofDecls .essl100 [.global ⟨.unnumbered, none, .int, "u", none⟩,
    .function ⟨.unnumbered, .int, "f", [⟨.unnumbered, .int, "a"⟩, ⟨.unnumbered, .int, "b"⟩],
      ⟨.unnumbered, [.ret .unnumbered (some (.binary .unnumbered .add
        (.binary .unnumbered .mul (.var .unnumbered "a") (.var .unnumbered "b"))
        (.var .unnumbered "u")))]⟩⟩,
    .function ⟨.unnumbered, .void, "main", [], ⟨.unnumbered,
      [.decl .unnumbered ⟨.unnumbered, none, .int, "b", some (.int .unnumbered 1)⟩,
       .decl .unnumbered ⟨.unnumbered, none, .int, "x", some (.int .unnumbered 2)⟩,
       .expr .unnumbered (.assign .unnumbered .set (.var .unnumbered "x")
        (.call .unnumbered "f" [.var .unnumbered "b", .var .unnumbered "x"]))]⟩⟩]

/-- The local `b` is passed for `a`, and it is not taken for the parameter `b` afterwards. -/
theorem exists_undone_crossing :
    ∃ types types' source change, crossing.check .essl100 = .ok types ∧
      (∀ id ∈ crossing.ids, id < crossing.nextId) ∧
      (∀ f ∈ crossing.functions, IsUnclaimed f.name) ∧
      (∀ decl ∈ crossing.structs, IsUnclaimed decl.name) ∧
      ⟨19, 22, "f"⟩ ∈ find true crossing ∧ (apply ⟨19, 22, "f"⟩ crossing).check .essl100 = .ok types' ∧
      Undone ⟨19, 22, "f"⟩ .essl100 crossing types (apply ⟨19, 22, "f"⟩ crossing) types' source change := by
  have isValid : (crossing.check .essl100).toOption.isSome = true := by decide
  have below : ∀ id ∈ crossing.ids, id < crossing.nextId := by decide
  have functions : ∀ f ∈ crossing.functions, IsUnclaimed f.name := by decide
  have structs : ∀ decl ∈ crossing.structs, IsUnclaimed decl.name := by decide
  have found : ⟨19, 22, "f"⟩ ∈ find true crossing := by decide
  cases checked : crossing.check .essl100 with
  | error problems =>
      rw [checked] at isValid
      cases isValid
  | ok types =>
      rcases exists_undone checked below functions structs found with
        ⟨types', source, change, checked', undone⟩
      exact ⟨types, types', source, change, rfl, below, functions, structs, found, checked', undone⟩

end OutlinedCall
end Reduction
end Whittle
