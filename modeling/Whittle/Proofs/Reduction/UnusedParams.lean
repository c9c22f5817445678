import Whittle.Proofs.Reduction.CallArguments
import Whittle.Proofs.Reduction.Deletions
import Whittle.Proofs.Reduction.StructReplacement
import Whittle.Proofs.Typing.Trimming
import Whittle.Reduction.Function.ParamRemoval

namespace Whittle

/-!
# Removing an unused parameter keeps a shader valid

The function loses the parameter, and every call of it the argument, also a call within
an argument of another one.  Declarations in front of the function stay as they are, and
so does its body, as neither calls the function.
-/

namespace Shader

variable {shader : Shader} {version : Version} {types : TypeTable} {before behind : List Decl}
  {f : Function}

/-- In a valid shader, a function is found by its name. -/
theorem function?_name (checked : shader.check version = .ok types)
    (isDeclared : .function f ∈ shader.decls) : shader.function? f.name = some f := by
  have isFound : (shader.function? f.name).isSome :=
    List.find?_isSome.mpr ⟨f, mem_functions_iff.mpr isDeclared, beq_self_eq_true _⟩
  rcases Option.isSome_iff_exists.mp isFound with ⟨found, isFunction⟩
  rcases mem_decls_of_function? isFunction with ⟨isDeclared', named⟩
  cases Decl.eq_of_topName?_eq (nodup_topNames checked) isDeclared isDeclared' rfl
    (congrArg some named)
  exact isFunction

/-- In a valid shader the function of a name is replaced where it stands. -/
theorem replaceFunction_eq (checked : shader.check version = .ok types)
    (split : shader.decls = before ++ .function f :: behind) (replacement : Function) :
    shader.replaceFunction f.name replacement =
      { shader with decls := before ++ .function replacement :: behind } := by
  have passed : ∀ other ∈ before, ∀ g, other = .function g → g.name ≠ f.name := by
    rintro _ isBefore g rfl same
    exact topName?_ne_of_split checked split (rfl : Decl.topName? (.function f) = some f.name)
      (List.mem_append_left _ isBefore) (congrArg some same)
  unfold replaceFunction modifyDecl?
  dsimp only
  rw [split, Decl.modifyFirst?_append (fun other isBefore => ?_) (if_pos (beq_self_eq_true f.name))]
  · rfl
  · cases other with
    | function g => exact if_neg (by simpa using passed _ isBefore g rfl)
    | _ => rfl

/-- A function is called behind it alone: not in front of it, and not in its own body. -/
theorem calls_eq_false_of_split (checked : shader.check version = .ok types)
    (split : shader.decls = before ++ .function f :: behind) (unclaimed : IsUnclaimed f.name)
    {decl : Decl} (inFront : decl ∈ before ++ [.function f]) {e : Expr} (listed : e ∈ decl.exprs) :
    e.calls f.name = false := by
  refine Bool.eq_false_iff.mpr fun isCall => ?_
  rcases Narrowing.exists_of_calls isCall with ⟨id, args, rfl⟩
  have noDecl : ∀ other ∈ before, other.topName? ≠ some f.name := fun other isBefore =>
    topName?_ne_of_split checked split rfl (List.mem_append_left _ isBefore)
  have inFrontOf : ∃ earlier behind', shader.decls = earlier ++ decl :: behind' ∧ earlier ⊆ before := by
    rcases List.mem_append.mp inFront with isBefore | isThis
    · rcases List.append_of_mem isBefore with ⟨earlier, later, rfl⟩
      exact ⟨earlier, later ++ .function f :: behind, by rw [split]; simp, by simp⟩
    · rw [List.mem_singleton.mp isThis]
      exact ⟨before, behind, split, List.Subset.refl _⟩
  rcases inFrontOf with ⟨earlier, behind', split', fewer⟩
  rcases exists_of_call checked split' listed (unclaimed.callsDeclared _ _) with
    ⟨struct, isStruct, named, _⟩ | ⟨g, isFunction, named, _⟩
  · exact noDecl _ (fewer isStruct) (congrArg some named)
  · exact noDecl _ (fewer isFunction) (congrArg some named)

end Shader

namespace Reduction
namespace ParamRemoval

open Check.Context (Placed Lacks Leaves)
open Narrowing (shortened)

variable {shader : Shader} {version : Version} {types : TypeTable} {edit : ParamRemoval}
  {plan : Trimming}

/-- The edit is about the parameter of the plan, to which nothing in the function refers. -/
structure Follows (edit : ParamRemoval) (shader : Shader) (plan : Trimming) : Prop where
  isDeclared : .function plan.f ∈ shader.decls
  function : edit.function = plan.f.name
  param : edit.param = plan.param.name
  id : edit.id = plan.param.id
  isFirst : plan.f.paramIndex? edit.param = some plan.position
  notMain : plan.f.name ≠ "main"
  unused : plan.param.name ∉ (Names.ofFunction plan.f).referenced

theorem exists_plan (checked : shader.check version = .ok types)
    (functions : ∀ f ∈ shader.functions, IsUnclaimed f.name) {everywhere : Bool}
    (found : edit ∈ find everywhere shader) : ∃ plan, edit.Follows shader plan := by
  rcases List.mem_flatMap.mp found with ⟨f, isFunction, found⟩
  rw [ofFunction] at found
  split at found
  · cases found
  rename_i notMain
  rcases List.mem_map.mp found with ⟨param, isUnused, rfl⟩
  rcases List.mem_filter.mp isUnused with ⟨isParam, unused⟩
  rcases List.mem_iff_getElem?.mp isParam with ⟨position, isParam⟩
  have isDeclared := Shader.mem_functions_iff.mp isFunction
  rcases List.append_of_mem isDeclared with ⟨before, behind, split⟩
  have accepted : Check.Context.AcceptsFunction _ f := (Shader.acceptsDecl_of_split checked split).1
  simp only [Bool.and_eq_true, beq_iff_eq] at unused
  exact ⟨⟨f, position, param, isParam, functions f isFunction⟩, isDeclared, rfl, rfl, rfl,
    findIdx?_key accepted.params.nodup_names.1 isParam, fun isMain => notMain (beq_iff_eq.mpr isMain),
    List.count_eq_zero.mp unused.2⟩

section

variable (checked : shader.check version = .ok types) {before behind : List Decl}
  (split : shader.decls = before ++ .function plan.f :: behind)
include checked split

/-- Neither in front of the function nor in its body there is a call to shorten. -/
theorem calls_eq_false {decl : Decl} (inFront : decl ∈ before ++ [.function plan.f]) :
    ∀ e ∈ decl.roots, ∀ part ∈ e.subexprs, part.calls plan.f.name = false :=
  fun e isRoot _ isPart => Shader.calls_eq_false_of_split checked split plan.isUnclaimed inFront
    (List.mem_flatMap.mpr ⟨e, isRoot, isPart⟩)

theorem mapExprs_eq_self {decl : Decl} (inFront : decl ∈ before ++ [.function plan.f]) :
    decl.mapExprs (shortened plan.f.name plan.position) = decl :=
  Decl.mapExprs_eq_self fun e isRoot =>
    Narrowing.shortened_eq_self (calls_eq_false checked split inFront e isRoot)

theorem map_mapExprs_before :
    before.map (Decl.mapExprs (shortened plan.f.name plan.position)) = before := by
  conv => rhs; rw [← List.map_id before]
  exact List.map_congr_left fun decl isBefore =>
    mapExprs_eq_self checked split (List.mem_append_left _ isBefore)

variable (follows : edit.Follows shader plan) (numbered : shader.IsNumbered)
include follows numbered

/-- The shader with the shorter function, and with every call of it shortened. -/
theorem apply_eq :
    edit.apply shader = Shader.mapExprs (shortened plan.f.name plan.position)
      { shader with decls := before ++ .function plan.trimmed :: behind } := by
  have isFunction : shader.function? edit.function = some plan.f := by
    rw [follows.function, Shader.function?_name checked follows.isDeclared]
  have isTrimmed : shader.replaceFunction edit.function plan.trimmed =
      { shader with decls := before ++ .function plan.trimmed :: behind } := by
    rw [follows.function]
    exact Shader.replaceFunction_eq checked split plan.trimmed
  have stillNumbered : (shader.replaceFunction edit.function plan.trimmed).IsNumbered := by
    refine numbered.replaceFunction (.refl shader) isFunction (.of_sublist ?_)
    have fewer := (List.eraseIdx_sublist plan.f.params plan.position).map Param.id
    exact (fewer.append (.refl _)).cons_cons plan.f.id
  rw [apply, isFunction]
  dsimp only
  rw [follows.isFirst]
  dsimp only
  rw [show { plan.f with params := plan.f.params.eraseIdx plan.position } = plan.trimmed from rfl,
    Shader.modifyExprs_callIds stillNumbered, isTrimmed, follows.function]

theorem decls_apply :
    (edit.apply shader).decls = before ++ .function plan.trimmed ::
      behind.map (Decl.mapExprs (shortened plan.f.name plan.position)) := by
  have inBody : Stmt.mapExprsList (shortened plan.f.name plan.position) plan.f.body.stmts =
      plan.f.body.stmts :=
    congrArg (fun f : Function => f.body.stmts) (Decl.function.inj
      (mapExprs_eq_self checked split (List.mem_append_right before List.mem_cons_self)))
  rw [apply_eq checked split follows numbered, Shader.mapExprs, List.map_append, List.map_cons,
    map_mapExprs_before checked split, Decl.mapExprs]
  exact congrArg (fun stmts => before ++ .function (plan.trimmed.withStmts stmts) :: _) inBody

/-- The outermost expressions afterwards are the shortened ones. -/
theorem roots_apply :
    (edit.apply shader).roots = shader.roots.map (shortened plan.f.name plan.position) := by
  have sameRoots : Shader.roots { shader with decls := before ++ .function plan.trimmed :: behind } =
      shader.roots := by
    rw [Shader.roots, Shader.roots, split, List.flatMap_append, List.flatMap_append,
      List.flatMap_cons, List.flatMap_cons]
    rfl
  rw [apply_eq checked split follows numbered, Shader.roots_mapExprs, sameRoots]

/-! ## The rules -/

theorem hasMain_apply (main : Check.HasMain shader) : Check.HasMain (edit.apply shader) := by
  let rest : Shader := { shader with decls := before ++ behind }
  have inRest : Check.HasMain rest :=
    (Shader.hasMain_split_iff split rfl fun f isDecl => by cases isDecl; exact follows.notMain).mpr main
  have changed : Check.HasMain (rest.mapExprs (shortened plan.f.name plan.position)) :=
    (Check.hasMain_iff rest.alike_mapExprs).mp inRest
  refine (Shader.hasMain_split_iff (decls_apply checked split follows numbered) ?_ fun f isDecl => ?_).mp
    changed
  · rw [Shader.mapExprs, List.map_append, map_mapExprs_before checked split]
  · cases isDecl
    exact follows.notMain

omit numbered follows in
/-- In front of the function its name stands for no struct. -/
theorem struct?_eq_none :
    ((Check.Context.initial version).behindDecls before).struct? plan.f.name = none := by
  rw [Check.Context.struct?, (Shader.acceptsDecl_of_split checked split).2, List.find?_eq_none]
  intro decl listed named
  rw [List.mem_reverse, Decl.mem_filterMap_struct?_iff] at listed
  exact Shader.topName?_ne_of_split checked split rfl (List.mem_append_left _ listed)
    (congrArg some (beq_iff_eq.mp named))

omit checked split follows numbered in
/-- The second place has the shortened expression of the first one, with the types that it
and its parts have there. -/
structure Retains (plan : Trimming) (one other : Placed) : Prop where
  e : other.e = shortened plan.f.name plan.position one.e
  typeOf : ∀ part ∈ one.e.subexprs, (one.ctx.typeOf part).isSome →
    other.ctx.typeOf (shortened plan.f.name plan.position part) = one.ctx.typeOf part

omit checked split follows numbered in
theorem Retains.of_keeps {one other : Placed} (keeps : one.Keeps other)
    (noCalls : ∀ part ∈ one.e.subexprs, part.calls plan.f.name = false) : Retains plan one other where
  e := by rw [Narrowing.shortened_eq_self noCalls, keeps.e]
  typeOf part isPart typed := by
    rw [Narrowing.shortened_eq_self fun inner isInner =>
      noCalls inner (Expr.mem_subexprs_trans isInner isPart), keeps.typeOf part isPart typed]

omit checked split follows numbered in
theorem Retains.of_becomes {one other : Placed}
    (becomes : one.Becomes plan.Trims (shortened plan.f.name plan.position) other) :
    Retains plan one other where
  e := becomes.e
  typeOf _ _ typed := (becomes.ctx.typeOf_and_mayWrite typed).1

/-- The edited shader follows the rules, and retains the types of its expressions. -/
theorem followsRules_apply :
    (edit.apply shader).FollowsRules version ∧ ∀ other ∈ (edit.apply shader).placed version,
      ∃ one ∈ shader.placed version, Retains plan one other := by
  have followsRules := (Shader.isValid_iff.mp ⟨types, checked⟩).2
  have decls := followsRules.decls
  rw [split, Check.Context.acceptsDecls_append_iff] at decls
  rcases decls with ⟨inFront, accepted, behindAccepted⟩
  have trimmed := plan.accepts_trimmed follows.unused accepted
  have trims := Trimming.Trims.of_behindDecl plan accepted.notTaken (struct?_eq_none checked split)
  have behindTrimmed := (Trimming.Trims.persistentTop plan).acceptsDecls trims
    (fun decl _ => Check.Context.fitDecl_true decl) (Trimming.Trims.carries plan _) behindAccepted
  have areDecls := decls_apply checked split follows numbered
  have noCalls := fun decl => @calls_eq_false _ _ _ plan checked _ _ split decl
  refine ⟨⟨?_, hasMain_apply checked split follows numbered followsRules.main⟩, fun other listed => ?_⟩
  · rw [areDecls, Check.Context.acceptsDecls_append_iff]
    exact ⟨inFront, trimmed.1, behindTrimmed.1⟩
  rw [Shader.placed, areDecls, Check.Context.placedDecls_append, Check.Context.placedDecls] at listed
  rw [Shader.placed, split, Check.Context.placedDecls_append, Check.Context.placedDecls]
  rcases List.mem_append.mp listed with isBefore | isBehind
  · have isRoot := List.mem_map_of_mem (f := Placed.e) isBefore
    rw [Check.Context.map_e_placedDecls] at isRoot
    rcases List.mem_flatMap.mp isRoot with ⟨decl, isDecl, isRoot⟩
    exact ⟨other, List.mem_append_left _ isBefore,
      .of_keeps (.refl other) (noCalls decl (List.mem_append_left _ isDecl) _ isRoot)⟩
  · rcases List.mem_append.mp isBehind with inBody | isBehind
    · rcases trimmed.2 other inBody with ⟨one, isOne, keeps⟩
      have isRoot := List.mem_map_of_mem (f := Placed.e) isOne
      rw [Check.Context.map_e_placedList, Stmt.rootsOfList_eq_flatMap] at isRoot
      exact ⟨one, List.mem_append_right _ (List.mem_append_left _ isOne), .of_keeps keeps
        (noCalls (.function plan.f) (List.mem_append_right _ List.mem_cons_self) _ isRoot)⟩
    · rcases exists_of_mem_right behindTrimmed.2 isBehind with ⟨one, isOne, becomes⟩
      exact ⟨one, List.mem_append_right _ (List.mem_append_right _ isOne), .of_becomes becomes⟩

end

/-- What a shader and its types are when a parameter of a function was removed. -/
structure Removed (edit : ParamRemoval) (shader : Shader) (types : TypeTable) (edited : Shader)
    (types' : TypeTable) (f : Function) (position : Nat) : Prop where
  isFunction : shader.function? edit.function = some f
  isParam : ∃ param, f.params[position]? = some param ∧ param.id = edit.id ∧ param.name = edit.param
  /-- The function has its other parameters in order, and its body. -/
  isTrimmed : edited.function? edit.function = some { f with params := f.params.eraseIdx position }
  /-- Nothing else changes but the calls of the function, which stand behind it. -/
  decls : ∃ before behind, shader.decls = before ++ .function f :: behind ∧
    edited.decls = before ++ .function { f with params := f.params.eraseIdx position } ::
      behind.map (Decl.mapExprs (shortened edit.function position))
  version : edited.version = shader.version
  nextId : edited.nextId = shader.nextId
  /-- A call of the function that is still there has its other arguments in order. -/
  calls : ∀ id args', .call id edit.function args' ∈ edited.exprs →
    ∃ args, .call id edit.function args ∈ shader.exprs ∧ args.length = f.params.length ∧
      args' = (args.eraseIdx position).map (shortened edit.function position) ∧
      args'.map Expr.id = (args.eraseIdx position).map Expr.id
  /-- What is still there has the type that it had. -/
  kept : ∀ e' ∈ edited.exprs, ∃ e ∈ shader.exprs, e' = shortened edit.function position e ∧
    e'.id = e.id ∧ types'[e'.id]? = types[e.id]?
  /-- Everything is still there but what stands in an argument for the parameter. -/
  left : ∀ e ∈ shader.exprs, shortened edit.function position e ∈ edited.exprs ∨
    ∃ id args arg, .call id edit.function args ∈ shader.exprs ∧ args[position]? = some arg ∧
      e ∈ arg.subexprs

section

variable (checked : shader.check version = .ok types) (follows : edit.Follows shader plan)
  (numbered : shader.IsNumbered)
include checked follows numbered

/-- What is there afterwards is a shortened expression, of the type that it had. -/
theorem exists_of_mem_exprs_apply {types' : TypeTable}
    (checked' : (edit.apply shader).check version = .ok types') {e' : Expr}
    (listed' : e' ∈ (edit.apply shader).exprs) :
    ∃ e ∈ shader.exprs, e' = shortened plan.f.name plan.position e ∧ e'.id = e.id ∧
      types'[e'.id]? = types[e.id]? := by
  rcases List.append_of_mem follows.isDeclared with ⟨before, behind, split⟩
  rcases Shader.mem_exprs_iff.mp listed' with ⟨other, isOther, isPart'⟩
  rcases (followsRules_apply checked split follows numbered).2 other isOther with ⟨one, isOne, retains⟩
  have isPart := isPart'
  rw [retains.e] at isPart
  rcases Narrowing.exists_of_mem_subexprs_shortened isPart with ⟨e, isInner, rfl⟩
  have before := Shader.types_eq_typeOf checked isOne isInner
  refine ⟨e, Shader.mem_exprs_iff.mpr ⟨one, isOne, isInner⟩, rfl, Narrowing.id_shortened e, ?_⟩
  rw [before.2, (Shader.types_eq_typeOf checked' isOther isPart').2, retains.typeOf e isInner before.1]

/-- An expression is still there, or it stands in an argument for the parameter. -/
theorem shortened_mem_exprs_apply_or {e : Expr} (listed : e ∈ shader.exprs) :
    shortened plan.f.name plan.position e ∈ (edit.apply shader).exprs ∨
      ∃ id args arg, .call id plan.f.name args ∈ shader.exprs ∧ args[plan.position]? = some arg ∧
        e ∈ arg.subexprs := by
  rcases List.append_of_mem follows.isDeclared with ⟨before, behind, split⟩
  rcases List.mem_flatMap.mp listed with ⟨root, isRoot, isPart⟩
  rcases Narrowing.shortened_mem_subexprs_or isPart with stays | ⟨id, args, arg, isCall, isArg, isPart⟩
  · refine .inl (List.mem_flatMap.mpr ⟨_, ?_, stays⟩)
    rw [roots_apply checked split follows numbered]
    exact List.mem_map_of_mem isRoot
  · exact .inr ⟨id, args, arg, List.mem_flatMap.mpr ⟨root, isRoot, isCall⟩, isArg, isPart⟩

end

/-- A call of a function has an argument for each parameter. -/
theorem length_args (checked : shader.check version = .ok types) (follows : edit.Follows shader plan)
    {id : NodeId} {args : List Expr} (listed : .call id plan.f.name args ∈ shader.exprs) :
    args.length = plan.f.params.length := by
  rcases Shader.exists_split_of_mem_exprs listed with ⟨before, decl, behind, split, isPart⟩
  have areTys := (Shader.call_of_function? checked split isPart (plan.isUnclaimed.callsDeclared _ _)
    (Shader.function?_name checked follows.isDeclared)).2.1
  simpa using congrArg List.length areTys

/-- Removing an unused parameter of a function keeps a shader valid, where no function and
no struct has the name of a type, a marker or a builtin function. -/
theorem exists_removed_param (checked : shader.check version = .ok types)
    (below : ∀ id ∈ shader.ids, id < shader.nextId)
    (functions : ∀ f ∈ shader.functions, IsUnclaimed f.name) {everywhere : Bool} {edits : List Edit}
    (found : Kind.find .unusedParam ⟨version, everywhere⟩ shader = .ok edits)
    (listed : .unusedParam edit ∈ edits) :
    ∃ types' f position, (edit.apply shader).check version = .ok types' ∧
      edit.Removed shader types (edit.apply shader) types' f position := by
  cases found
  rcases List.mem_map.mp listed with ⟨_, isFound, isEdit⟩
  cases isEdit
  rcases exists_plan checked functions isFound with ⟨plan, follows⟩
  have numbered : shader.IsNumbered := ⟨(Shader.isValid_iff.mp ⟨types, checked⟩).1, below⟩
  rcases List.append_of_mem follows.isDeclared with ⟨before, behind, split⟩
  have followsRules := (followsRules_apply checked split follows numbered).1
  rcases Shader.isValid_iff.mpr ⟨(edit.isNumbered_apply numbered).1, followsRules⟩ with
    ⟨types', checked'⟩
  have areDecls := decls_apply checked split follows numbered
  have isTrimmed : .function plan.trimmed ∈ (edit.apply shader).decls := by
    rw [areDecls]
    exact List.mem_append_right _ List.mem_cons_self
  have kept := fun e' (listed' : e' ∈ (edit.apply shader).exprs) =>
    exists_of_mem_exprs_apply checked follows numbered checked' listed'
  refine ⟨types', plan.f, plan.position, checked', ?_⟩
  constructor
  case isFunction => rw [follows.function, Shader.function?_name checked follows.isDeclared]
  case isParam =>
    rw [follows.param, follows.id]
    exact ⟨plan.param, plan.isParam, rfl, rfl⟩
  case isTrimmed =>
    rw [follows.function]
    exact Shader.function?_name checked' isTrimmed
  case decls =>
    rw [follows.function]
    exact ⟨before, behind, split, areDecls⟩
  case version => rw [apply_eq checked split follows numbered, Shader.mapExprs]
  case nextId => rw [apply_eq checked split follows numbered, Shader.mapExprs]
  case calls =>
    rw [follows.function]
    intro id args' listed'
    rcases kept _ listed' with ⟨e, listed, same, _⟩
    rcases Narrowing.exists_args_of_shortened_eq same with ⟨args, rfl, areArgs, sameIds⟩
    exact ⟨args, listed, length_args checked follows listed, areArgs, sameIds⟩
  case kept =>
    rw [follows.function]
    exact kept
  case left =>
    rw [follows.function]
    exact fun e listed => shortened_mem_exprs_apply_or checked follows numbered listed

/-- The shader `int f(int a, int b) { return a; } void main() { f(f(1, 2), f(3, 4)); }`. -/
def nestedCalls : Shader :=
  .ofDecls .essl100 [.function ⟨.unnumbered, .int, "f",
      [⟨.unnumbered, .int, "a"⟩, ⟨.unnumbered, .int, "b"⟩], ⟨.unnumbered,
      [.ret .unnumbered (some (.var .unnumbered "a"))]⟩⟩,
    .function ⟨.unnumbered, .void, "main", [], ⟨.unnumbered,
      [.expr .unnumbered (.call .unnumbered "f" [
        .call .unnumbered "f" [.int .unnumbered 1, .int .unnumbered 2],
        .call .unnumbered "f" [.int .unnumbered 3, .int .unnumbered 4]])]⟩⟩]

/-- The parameter `b` is removed, and with it a whole call. -/
theorem exists_removed_nestedCalls :
    ∃ types types' f position, nestedCalls.check .essl100 = .ok types ∧
      (∀ id ∈ nestedCalls.ids, id < nestedCalls.nextId) ∧
      (∀ f ∈ nestedCalls.functions, IsUnclaimed f.name) ∧
      Kind.find .unusedParam ⟨.essl100, true⟩ nestedCalls = .ok [.unusedParam ⟨"f", "b", 2⟩] ∧
      (apply ⟨"f", "b", 2⟩ nestedCalls).check .essl100 = .ok types' ∧
      Removed ⟨"f", "b", 2⟩ nestedCalls types (apply ⟨"f", "b", 2⟩ nestedCalls) types' f position := by
  have valid : (nestedCalls.check .essl100).toOption.isSome = true := by decide
  have below : ∀ id ∈ nestedCalls.ids, id < nestedCalls.nextId := by decide
  have functions : ∀ f ∈ nestedCalls.functions, IsUnclaimed f.name := by decide
  have found : Kind.find .unusedParam ⟨.essl100, true⟩ nestedCalls =
      .ok [.unusedParam ⟨"f", "b", 2⟩] := by rfl
  cases checked : nestedCalls.check .essl100 with
  | error problems =>
      rw [checked] at valid
      cases valid
  | ok types =>
      rcases exists_removed_param checked below functions found List.mem_cons_self with
        ⟨types', f, position, checked', removed⟩
      exact ⟨types, types', f, position, rfl, below, functions, found, checked', removed⟩

end ParamRemoval
end Reduction
end Whittle
