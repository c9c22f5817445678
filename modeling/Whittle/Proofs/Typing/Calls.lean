import Mathlib.Logic.Relation
import Whittle.Proofs.Typing.Slots

namespace Whittle

/-!
# What calls mean by name

The check resolves a call where it stands: types come first, then the structs in
front of the call, the markers, the functions in front of the call, and the
builtin functions.  A search for simplifications looks the name of a call up in
the whole shader.  Both come to the same for each call that no type, no marker
and no builtin function takes away from the declaration with its name.
-/

def Decl.topName? : Decl → Option String
  | .precision _ => none
  | .struct decl => some decl.name
  | .global var => some var.name
  | .function f => some f.name

/-- Every expression of a declaration, each before its operands. -/
def Decl.exprs (decl : Decl) : List Expr :=
  decl.roots.flatMap Expr.subexprs

/-- Whether a name stands for nothing in a shader that does not declare it: it is
that of no type, of no marker and of no builtin function. -/
def IsUnclaimed (name : String) : Prop :=
  Ty.ofKeyword? name = none ∧ Marker.ofName? name = none ∧ Check.isBuiltin name = false

instance (name : String) : Decidable (IsUnclaimed name) :=
  inferInstanceAs (Decidable (_ ∧ _ ∧ _))

/-- Whether a call by a name can only be of one of these structs and functions.  Types hide
them all and markers hide the functions, and they hide the builtin functions themselves. -/
def CallsDeclared (structs : List StructDecl) (functions : List Function) (name : String) : Prop :=
  Ty.ofKeyword? name = none ∧
    (name ∈ structs.map StructDecl.name ∨
      Marker.ofName? name = none ∧
        (name ∈ functions.map Function.name ∨ Check.isBuiltin name = false))

theorem IsUnclaimed.callsDeclared {name : String} (unclaimed : IsUnclaimed name)
    (structs : List StructDecl) (functions : List Function) : CallsDeclared structs functions name :=
  ⟨unclaimed.1, .inr ⟨unclaimed.2.1, .inr unclaimed.2.2⟩⟩

namespace Check
namespace Context

variable {ctx : Context}

theorem taken_declared (ctx : Context) (name : String) (binding : Binding) :
    (ctx.declared name binding).taken = ctx.taken := by
  unfold declared
  split <;> rfl

/-- An accepted declaration takes a name that was free. -/
theorem AcceptsDecl.taken_behindDecl {decl : Decl} (accepted : ctx.AcceptsDecl decl) :
    (∀ name ∈ decl.topName?, name ∉ ctx.taken) ∧
      (ctx.behindDecl decl).taken = decl.topName?.toList ++ ctx.taken := by
  cases decl with
  | precision => exact ⟨(fun _ isName => nomatch isName), rfl⟩
  | struct decl =>
      refine ⟨fun name isName => Option.some.inj isName ▸ accepted.1, ?_⟩
      rw [behindDecl, if_neg (by simpa using accepted.1)]
      rfl
  | global var =>
      refine ⟨fun name isName => Option.some.inj isName ▸ accepted.1, ?_⟩
      rw [behindDecl, if_neg (by simpa using accepted.1)]
      exact taken_declared (ctx.taking var.name) _ _
  | function f =>
      refine ⟨fun name isName => Option.some.inj isName ▸ accepted.notTaken, ?_⟩
      rw [behindDecl, if_neg (by simpa using accepted.notTaken)]
      rfl

/-- In accepted declarations no name is taken twice. -/
theorem AcceptsDecls.nodup_topNames {decls : List Decl} (accepted : ctx.AcceptsDecls decls) :
    (decls.filterMap Decl.topName?).Nodup ∧
      ∀ name ∈ decls.filterMap Decl.topName?, name ∉ ctx.taken := by
  induction decls generalizing ctx with
  | nil => exact ⟨List.nodup_nil, List.forall_mem_nil _⟩
  | cons decl rest inductionHypothesis =>
      rcases AcceptsDecl.taken_behindDecl accepted.1 with ⟨isNew, takes⟩
      rcases inductionHypothesis accepted.2 with ⟨apart, areNew⟩
      rw [takes] at areNew
      have areFree : ∀ name ∈ rest.filterMap Decl.topName?, name ∉ ctx.taken := fun name listed =>
        mt (List.mem_append_right _) (areNew name listed)
      rw [List.filterMap_cons]
      split
      · exact ⟨apart, areFree⟩
      · rename_i name isName
        refine ⟨List.nodup_cons.mpr ⟨fun again => areNew name again ?_, apart⟩,
          List.forall_mem_cons.mpr ⟨isNew name isName, areFree⟩⟩
        rw [isName]
        exact List.mem_cons_self

/-- What is known behind accepted declarations, the latest first. -/
theorem AcceptsDecls.tops_behindDecls {decls : List Decl} (accepted : ctx.AcceptsDecls decls) :
    (ctx.behindDecls decls).tops = ((decls.filterMap Decl.struct?).reverse ++ ctx.structs,
      (decls.filterMap Decl.function?).reverse ++ ctx.functions) := by
  induction decls generalizing ctx with
  | nil => rfl
  | cons decl rest inductionHypothesis =>
      have next := inductionHypothesis accepted.2
      have isNew := (AcceptsDecl.taken_behindDecl accepted.1).1
      cases decl with
      | precision => exact next
      | struct decl =>
          rw [behindDecls, next, behindDecl, if_neg (by simpa using isNew decl.name rfl)]
          simp [List.filterMap_cons, Decl.struct?, Decl.function?, taking]
      | global var =>
          have same := tops_declared (ctx.taking var.name) var.name ⟨var.ty, isWritable var.qualifier⟩
          rw [behindDecls, next, behindDecl, if_neg (by simpa using isNew var.name rfl)]
          exact Prod.ext (congrArg (_ ++ ·.1) same) (congrArg (_ ++ ·.2) same)
      | function f =>
          rw [behindDecls, next, behindDecl, if_neg (by simpa using isNew f.name rfl)]
          simp [List.filterMap_cons, Decl.struct?, Decl.function?, taking]

/-- An outermost expression stands in one of the declarations, behind those in front of
it. -/
theorem exists_split_of_mem_placedDecls {decls : List Decl} {one : Placed}
    (listed : one ∈ ctx.placedDecls decls) :
    ∃ before decl behind, decls = before ++ decl :: behind ∧
      one ∈ (ctx.behindDecls before).placedDecl decl := by
  induction decls generalizing ctx with
  | nil => cases listed
  | cons first rest inductionHypothesis =>
      rcases List.mem_append.mp listed with here | further
      · exact ⟨[], first, rest, rfl, here⟩
      · rcases inductionHypothesis further with ⟨before, decl, behind, split, here⟩
        exact ⟨first :: before, decl, behind, congrArg (first :: ·) split, here⟩

theorem acceptsFields_iff_nodup {before : List String}
    {fields : List Field} :
    ctx.AcceptsFields before fields ↔ (∀ field ∈ fields, ctx.Knows field.ty false) ∧
      (fields.map Field.name).Nodup ∧ ∀ field ∈ fields, field.name ∉ before := by
  induction fields generalizing before with
  | nil => simp [AcceptsFields]
  | cons field rest inductionHypothesis =>
      rw [AcceptsFields, inductionHypothesis, List.map_cons, List.nodup_cons,
        List.forall_mem_cons, List.forall_mem_cons]
      simp only [List.mem_cons, not_or, List.mem_map, not_exists, not_and]
      constructor
      · rintro ⟨known, isNew, knownRest, apart, areNew⟩
        exact ⟨⟨known, knownRest⟩, ⟨fun other listed => (areNew other listed).1, apart⟩, isNew,
          fun other listed => (areNew other listed).2⟩
      · rintro ⟨⟨known, knownRest⟩, ⟨differ, apart⟩, isNew, areNew⟩
        exact ⟨known, isNew, knownRest, apart, fun other listed =>
          ⟨differ other listed, areNew other listed⟩⟩

/-- No two accepted parameters have one name. -/
theorem AcceptsParams.nodup_names {params : List Param}
    (accepted : ctx.AcceptsParams params) : (params.map Param.name).Nodup ∧
      ∀ param ∈ params, ctx.inner.lookup param.name = none := by
  induction params generalizing ctx with
  | nil => exact ⟨.nil, List.forall_mem_nil _⟩
  | cons param rest inductionHypothesis =>
      rcases accepted with ⟨-, ⟨notReserved, free⟩, accepted⟩
      have behind := inductionHypothesis accepted
      rw [declared, notReserved] at behind
      have others : ∀ other ∈ rest, other.name ≠ param.name ∧ ctx.inner.lookup other.name = none := by
        intro other listed
        have absent : List.lookup other.name ((param.name, ⟨param.ty, true⟩) :: ctx.inner) = none :=
          behind.2 other listed
        rw [List.lookup_cons] at absent
        split at absent
        · cases absent
        · rename_i differ
          exact ⟨beq_eq_false_iff_ne.mp differ, absent⟩
      refine ⟨List.nodup_cons.mpr ⟨fun listed => ?_, behind.1⟩,
        List.forall_mem_cons.mpr ⟨free, fun other listed => (others other listed).2⟩⟩
      rcases List.mem_map.mp listed with ⟨other, listed, same⟩
      exact (others other listed).1 same

theorem Knows.mono {ctx' : Context} {ty : Ty} {voidAllowed : Bool} (known : ctx.Knows ty voidAllowed)
    (more : ctx.structs ⊆ ctx'.structs) : ctx'.Knows ty voidAllowed := by
  cases ty with
  | void | scalar | vector => exact known
  | struct name =>
      rcases List.find?_isSome.mp known with ⟨decl, listed, named⟩
      exact List.find?_isSome.mpr ⟨decl, more listed, named⟩

theorem typesOf_eq_some_iff {es : List Expr} {tys : List Ty} :
    ctx.typesOf es = some tys ↔ es.map ctx.typeOf = tys.map some := by
  induction es generalizing tys with
  | nil => cases tys <;> simp [typesOf]
  | cons e rest inductionHypothesis =>
      rw [typesOf_cons_eq_some_iff]
      cases tys with
      | nil => simp
      | cons ty others =>
          rw [List.map_cons, List.map_cons, List.cons.injEq, ← inductionHypothesis]
          constructor
          · rintro ⟨_, _, isTy, areOthers, same⟩
            cases same
            exact ⟨isTy, areOthers⟩
          · rintro ⟨isTy, areOthers⟩
            exact ⟨ty, others, isTy, areOthers, rfl⟩

theorem mismatch?_eq_none_iff {params : List Param} {args : List Ty}
    (sameLength : params.length = args.length) :
    mismatch? params args = none ↔ args = params.map Param.ty := by
  induction params generalizing args with
  | nil =>
      cases List.length_eq_zero_iff.mp sameLength.symm
      exact ⟨fun _ => rfl, fun _ => rfl⟩
  | cons param rest inductionHypothesis =>
      cases args with
      | nil => cases sameLength
      | cons arg args =>
          rw [mismatch?, List.map_cons, List.cons.injEq,
            ← inductionHypothesis (Nat.succ.inj sameLength)]
          by_cases same : param.ty = arg
          · simp [same]
          · simp [same, Ne.symm same]

theorem callFunction_eq_ok_iff {f : Function} {args : List Ty} {ty : Ty} :
    callFunction f args = .ok ty ↔ args = f.params.map Param.ty ∧ ty = f.returnTy := by
  unfold callFunction
  by_cases sameLength : f.params.length = args.length
  · rw [if_neg (by simpa using sameLength), ← mismatch?_eq_none_iff sameLength]
    cases mismatch? f.params args <;> simp [eq_comm]
  · rw [if_pos (by simpa using sameLength)]
    refine iff_of_false nofun fun both => sameLength ?_
    rw [both.1, List.length_map]

theorem constructStruct_eq_ok_iff {decl : StructDecl} {args : List Ty} {ty : Ty} :
    constructStruct decl args = .ok ty ↔
      args = decl.fields.map Field.ty ∧ ty = .struct decl.name := by
  unfold constructStruct
  by_cases same : decl.fields.map Field.ty = args
  · simp [same, eq_comm]
  · simp [same, Ne.symm same]

/-- A call that nothing else can claim is of a struct or of a function in front of it. -/
theorem exists_of_call_eq_ok {callee : String} {args : List Ty} {ty : Ty}
    (declared : CallsDeclared ctx.structs ctx.functions callee)
    (isTy : ctx.call callee args = .ok ty) :
    (∃ decl ∈ ctx.structs, decl.name = callee ∧ args = decl.fields.map Field.ty ∧
        ty = .struct decl.name) ∨
      ∃ f ∈ ctx.functions, f.name = callee ∧ args = f.params.map Param.ty ∧ ty = f.returnTy := by
  rcases declared with ⟨noType, declared⟩
  rw [call, noType] at isTy
  dsimp only at isTy
  cases isStruct : ctx.struct? callee with
  | some decl =>
      rw [isStruct] at isTy
      have named := List.find?_some isStruct
      exact .inl ⟨decl, List.mem_of_find?_eq_some isStruct, beq_iff_eq.mp named,
        constructStruct_eq_ok_iff.mp isTy⟩
  | none =>
      have noStruct : callee ∉ ctx.structs.map StructDecl.name := fun listed => by
        rcases List.mem_map.mp listed with ⟨decl, inScope, rfl⟩
        exact List.find?_eq_none.mp isStruct decl inScope (beq_self_eq_true _)
      rcases declared.resolve_left noStruct with ⟨noMarker, declared⟩
      rw [isStruct, noMarker] at isTy
      dsimp only at isTy
      cases isFunction : ctx.function? callee with
      | some f =>
          rw [isFunction] at isTy
          have named := List.find?_some isFunction
          exact .inr ⟨f, List.mem_of_find?_eq_some isFunction, beq_iff_eq.mp named,
            callFunction_eq_ok_iff.mp isTy⟩
      | none =>
          have noFunction : callee ∉ ctx.functions.map Function.name := fun listed => by
            rcases List.mem_map.mp listed with ⟨f, inScope, rfl⟩
            exact List.find?_eq_none.mp isFunction f inScope (beq_self_eq_true _)
          rw [isFunction, declared.resolve_left noFunction] at isTy
          cases isTy

/-- A call that something else claims means what it means in a shader that declares nothing. -/
theorem call_eq_initial_of_not_callsDeclared {callee : String}
    (hidden : ¬ CallsDeclared ctx.structs ctx.functions callee) (version : Version)
    (args : List Ty) : ctx.call callee args = (initial version).call callee args := by
  unfold call
  cases isType : Ty.ofKeyword? callee with
  | some target => rfl
  | none =>
      rw [CallsDeclared, and_iff_right isType, not_or] at hidden
      have noStruct : ctx.struct? callee = none := List.find?_eq_none.mpr fun decl inScope same =>
        hidden.1 (List.mem_map.mpr ⟨decl, inScope, beq_iff_eq.mp same⟩)
      rw [noStruct]
      cases isMarker : Marker.ofName? callee with
      | some marker => rfl
      | none =>
          rw [and_iff_right isMarker, not_or] at hidden
          have noFunction : ctx.function? callee = none :=
            List.find?_eq_none.mpr fun f inScope same =>
              hidden.2.1 (List.mem_map.mpr ⟨f, inScope, beq_iff_eq.mp same⟩)
          rw [noFunction]
          rfl

/-! ## Calls with scalars -/

theorem isScalar_of_callMarker {marker : Marker} {args : List Ty} {ty : Ty}
    (scalars : ∀ arg ∈ args, arg.isScalar = true) (isTy : callMarker marker args = .ok ty) :
    ty.isScalar = true := by
  unfold callMarker at isTy
  split at isTy
  case h_1 first second =>
    split at isTy
    · cases isTy
      exact scalars ty List.mem_cons_self
    · cases isTy
  case h_3 =>
    cases isTy
    exact scalars ty List.mem_cons_self
  all_goals first | cases isTy | (split at isTy <;> cases isTy; rfl)

theorem isScalar_of_callBuiltin {name : String} {args : List Ty} {ty : Ty}
    (scalars : ∀ arg ∈ args, arg.isScalar = true) (isTy : callBuiltin name args = .ok ty) :
    ty.isScalar = true := by
  unfold callBuiltin at isTy
  dsimp only at isTy
  split at isTy
  · rename_i found isFound
    cases isTy
    match args with
    | [] | _ :: _ :: _ :: _ :: _ => cases isFound
    | [x] =>
        simp only [List.forall_mem_cons] at scalars
        dsimp only [builtin1?] at isFound
        grind [Ty.isScalar]
    | [x, y] =>
        simp only [List.forall_mem_cons] at scalars
        dsimp only [builtin2?] at isFound
        grind [Ty.isScalar]
    | [x, y, z] =>
        simp only [List.forall_mem_cons] at scalars
        dsimp only [builtin3?] at isFound
        grind [Ty.isScalar]
  · cases isTy

theorem eq_of_construct {target : Ty} {args : List Ty} {ty : Ty}
    (isTy : construct target args = .ok ty) : ty = target := by
  simp only [construct, bind, Except.bind, pure, Except.pure, throw, throwThe,
    MonadExceptOf.throw] at isTy
  grind

/-- Out of scalars alone only a constructor makes a vector, unless a function of the
shader does. -/
theorem ofKeyword?_of_call {callee : String} {args : List Ty} {ty : Ty}
    (isTy : ctx.call callee args = .ok ty) (noFunction : ctx.function? callee = none)
    (scalars : ∀ arg ∈ args, arg.isScalar = true) (isVector : ty.isVector = true) :
    Ty.ofKeyword? callee = some ty := by
  have noScalar : ty.isScalar = true → False := by
    cases ty with
    | vector => exact Bool.noConfusion
    | _ => cases isVector
  unfold call at isTy
  split at isTy
  · rename_i target isTarget
    rw [isTarget, eq_of_construct isTy]
  · split at isTy
    · rw [(constructStruct_eq_ok_iff.mp isTy).2] at isVector
      cases isVector
    · split at isTy
      · exact (noScalar (isScalar_of_callMarker scalars isTy)).elim
      · rw [noFunction] at isTy
        dsimp only at isTy
        split at isTy
        · exact (noScalar (isScalar_of_callBuiltin scalars isTy)).elim
        · cases isTy

end Context
end Check

theorem Decl.eq_of_topName?_eq {decls : List Decl} (apart : (decls.filterMap topName?).Nodup)
    {decl decl' : Decl} (listed : decl ∈ decls) (listed' : decl' ∈ decls) {name : String}
    (isName : decl.topName? = some name) (isName' : decl'.topName? = some name) : decl = decl' := by
  induction decls with
  | nil => cases listed
  | cons first rest inductionHypothesis =>
      have behind : ∀ {other : Decl}, other ∈ rest → other.topName? = some name →
          first.topName? ≠ some name := by
        intro other isBehind isOther isFirst
        rw [List.filterMap_cons, isFirst] at apart
        exact (List.nodup_cons.mp apart).1 (List.mem_filterMap.mpr ⟨other, isBehind, isOther⟩)
      have apartRest : (rest.filterMap topName?).Nodup := by
        rw [List.filterMap_cons] at apart
        split at apart
        · exact apart
        · exact (List.nodup_cons.mp apart).2
      rcases List.mem_cons.mp listed with rfl | inRest <;>
        rcases List.mem_cons.mp listed' with rfl | inRest'
      · rfl
      · exact absurd isName (behind inRest' isName')
      · exact absurd isName' (behind inRest isName)
      · exact inductionHypothesis apartRest inRest inRest'

theorem Decl.mem_filterMap_struct?_iff {decls : List Decl} {decl : StructDecl} :
    decl ∈ decls.filterMap struct? ↔ .struct decl ∈ decls := by
  refine List.mem_filterMap.trans ⟨fun ⟨other, listed, isStruct⟩ => ?_, fun listed => ⟨_, listed, rfl⟩⟩
  cases other with
  | struct => exact Option.some.inj isStruct ▸ listed
  | _ => cases isStruct

theorem Decl.mem_filterMap_function?_iff {decls : List Decl} {f : Function} :
    f ∈ decls.filterMap function? ↔ .function f ∈ decls := by
  refine List.mem_filterMap.trans ⟨fun ⟨other, listed, isFunction⟩ => ?_, fun listed => ⟨_, listed, rfl⟩⟩
  cases other with
  | function => exact Option.some.inj isFunction ▸ listed
  | _ => cases isFunction

namespace Shader

variable {shader : Shader} {version : Version} {types : TypeTable}

theorem mem_structs_iff {decl : StructDecl} : decl ∈ shader.structs ↔ .struct decl ∈ shader.decls :=
  Decl.mem_filterMap_struct?_iff

theorem mem_functions_iff {f : Function} : f ∈ shader.functions ↔ .function f ∈ shader.decls :=
  Decl.mem_filterMap_function?_iff

theorem mem_decls_of_function? {callee : String} {f : Function}
    (isFunction : shader.function? callee = some f) :
    .function f ∈ shader.decls ∧ f.name = callee :=
  ⟨mem_functions_iff.mp (List.mem_of_find?_eq_some isFunction),
    beq_iff_eq.mp (List.find?_some isFunction :)⟩

theorem mem_decls_of_struct? {callee : String} {decl : StructDecl}
    (isStruct : shader.struct? callee = some decl) :
    .struct decl ∈ shader.decls ∧ decl.name = callee :=
  ⟨mem_structs_iff.mp (List.mem_of_find?_eq_some isStruct),
    beq_iff_eq.mp (List.find?_some isStruct :)⟩

/-- The structs and functions that are known to a declaration are those in front of it. -/
theorem tops_of_split (checked : shader.check version = .ok types) {before behind : List Decl}
    {decl : Decl} (split : shader.decls = before ++ decl :: behind) :
    ((Check.Context.initial version).behindDecls before).tops =
      ((before.filterMap Decl.struct?).reverse, (before.filterMap Decl.function?).reverse) := by
  have follows := (isValid_iff.mp ⟨types, checked⟩).2.decls
  rw [split, Check.Context.acceptsDecls_append_iff] at follows
  rw [Check.Context.AcceptsDecls.tops_behindDecls follows.1]
  simp only [Check.Context.initial, List.append_nil]

/-- An expression of a declaration stands in an outermost one, where they are in scope. -/
theorem exists_placed_of_mem_exprs (checked : shader.check version = .ok types)
    {before behind : List Decl} {decl : Decl} (split : shader.decls = before ++ decl :: behind)
    {e : Expr} (listed : e ∈ decl.exprs) :
    ∃ one ∈ shader.placed version, e ∈ one.e.subexprs ∧
      one.ctx.structs = (before.filterMap Decl.struct?).reverse ∧
      one.ctx.functions = (before.filterMap Decl.function?).reverse := by
  rcases List.mem_flatMap.mp listed with ⟨root, isRoot, isPart⟩
  have places := Check.Context.map_e_placedDecls
    ((Check.Context.initial version).behindDecls before) [decl]
  rw [Check.Context.placedDecls, Check.Context.placedDecls, List.append_nil,
    List.flatMap_singleton] at places
  rw [← places] at isRoot
  rcases List.mem_map.mp isRoot with ⟨one, isPlaced, rfl⟩
  have inShader : one ∈ shader.placed version := by
    rw [placed, split, Check.Context.placedDecls_append]
    exact List.mem_append_right _ (List.mem_append_left _ isPlaced)
  have tops := (Check.Context.tops_of_mem_placedDecl isPlaced).trans (tops_of_split checked split)
  exact ⟨one, inShader, isPart, congrArg Prod.fst tops, congrArg Prod.snd tops⟩

/-- The declaration that has the name of a call gives it its types, if it stands in front of
the call and nothing else can claim the call. -/
theorem exists_of_call (checked : shader.check version = .ok types) {before behind : List Decl}
    {decl : Decl} (split : shader.decls = before ++ decl :: behind) {id : NodeId}
    {callee : String} {args : List Expr} (listed : .call id callee args ∈ decl.exprs)
    (declared : CallsDeclared (before.filterMap Decl.struct?) (before.filterMap Decl.function?)
      callee) :
    (∃ struct, .struct struct ∈ before ∧ struct.name = callee ∧
        args.map (fun arg => types[arg.id]?) = struct.fields.map (fun field => some field.ty) ∧
        types[id]? = some (.struct struct.name)) ∨
      ∃ f, .function f ∈ before ∧ f.name = callee ∧
        args.map (fun arg => types[arg.id]?) = f.params.map (fun param => some param.ty) ∧
        types[id]? = some f.returnTy := by
  rcases exists_placed_of_mem_exprs checked split listed with
    ⟨one, inShader, isPart, areStructs, areFunctions⟩
  rcases types_eq_typeOf checked inShader isPart with ⟨typed, isTy⟩
  rcases Option.isSome_iff_exists.mp typed with ⟨ty, isCall⟩
  rcases Check.Context.typeOf_call_eq_some_iff.mp isCall with ⟨tys, areTys, resolved⟩
  have areArgs : args.map (fun arg => types[arg.id]?) = tys.map some := by
    rw [← Check.Context.typesOf_eq_some_iff.mp areTys]
    refine List.map_congr_left fun arg isArg => ?_
    exact (types_eq_typeOf checked inShader
      (Expr.mem_subexprs_of_child isArg isPart)).2
  have isResult : types[id]? = some ty := Eq.trans isTy isCall
  have inScope : CallsDeclared one.ctx.structs one.ctx.functions callee := by
    simpa only [CallsDeclared, areStructs, areFunctions, List.map_reverse, List.mem_reverse]
      using declared
  rcases Check.Context.exists_of_call_eq_ok inScope resolved with
    ⟨struct, inScope, named, rfl, rfl⟩ | ⟨f, inScope, named, rfl, rfl⟩
  · rw [areStructs, List.mem_reverse, Decl.mem_filterMap_struct?_iff] at inScope
    exact .inl ⟨struct, inScope, named, by rw [areArgs, List.map_map]; rfl, isResult⟩
  · rw [areFunctions, List.mem_reverse, Decl.mem_filterMap_function?_iff] at inScope
    exact .inr ⟨f, inScope, named, by rw [areArgs, List.map_map]; rfl, isResult⟩

/-- A declaration of a valid shader is accepted behind those in front of it, and the
structs in scope are theirs. -/
theorem acceptsDecl_of_split (checked : shader.check version = .ok types) {before behind : List Decl}
    {decl : Decl} (split : shader.decls = before ++ decl :: behind) :
    ((Check.Context.initial version).behindDecls before).AcceptsDecl decl ∧
      ((Check.Context.initial version).behindDecls before).structs =
        (before.filterMap Decl.struct?).reverse := by
  have follows := (isValid_iff.mp ⟨types, checked⟩).2.decls
  rw [split, Check.Context.acceptsDecls_append_iff] at follows
  exact ⟨follows.2.1, congrArg Prod.fst (tops_of_split checked split)⟩

/-- Where an outermost expression stands, the structs and functions in scope are those
in front of its declaration. -/
theorem exists_split_of_mem_placed (checked : shader.check version = .ok types)
    {one : Check.Context.Placed} (listed : one ∈ shader.placed version) :
    ∃ before decl behind, shader.decls = before ++ decl :: behind ∧
      one.ctx.structs = (before.filterMap Decl.struct?).reverse ∧
      one.ctx.functions = (before.filterMap Decl.function?).reverse := by
  rcases Check.Context.exists_split_of_mem_placedDecls listed with
    ⟨before, decl, behind, split, here⟩
  have tops := (Check.Context.tops_of_mem_placedDecl here).trans (tops_of_split checked split)
  exact ⟨before, decl, behind, split, congrArg Prod.fst tops, congrArg Prod.snd tops⟩

theorem nodup_topNames (checked : shader.check version = .ok types) :
    (shader.decls.filterMap Decl.topName?).Nodup :=
  (Check.Context.AcceptsDecls.nodup_topNames (isValid_iff.mp ⟨types, checked⟩).2.decls).1

/-- In a valid shader, a struct is found by its name. -/
theorem struct?_name (checked : shader.check version = .ok types) {decl : StructDecl}
    (isDeclared : .struct decl ∈ shader.decls) : shader.struct? decl.name = some decl := by
  have isFound : (shader.struct? decl.name).isSome :=
    List.find?_isSome.mpr ⟨decl, mem_structs_iff.mpr isDeclared, beq_self_eq_true _⟩
  rcases Option.isSome_iff_exists.mp isFound with ⟨found, isStruct⟩
  rcases mem_decls_of_struct? isStruct with ⟨isDeclared', named⟩
  cases Decl.eq_of_topName?_eq (nodup_topNames checked) isDeclared isDeclared' rfl
    (congrArg some named)
  exact isStruct

/-- Of the two ways to resolve a call, the other one would need a second declaration
of its name. -/
theorem call_of_function? (checked : shader.check version = .ok types)
    {before behind : List Decl} {decl : Decl} (split : shader.decls = before ++ decl :: behind)
    {id : NodeId} {callee : String} {args : List Expr} (listed : .call id callee args ∈ decl.exprs)
    (declared : CallsDeclared (before.filterMap Decl.struct?) (before.filterMap Decl.function?)
      callee) {f : Function} (isFunction : shader.function? callee = some f) :
    .function f ∈ before ∧
      args.map (fun arg => types[arg.id]?) = f.params.map (fun param => some param.ty) ∧
      types[id]? = some f.returnTy := by
  have inFront : ∀ {other}, other ∈ before → other ∈ shader.decls := fun isBefore =>
    split ▸ List.mem_append_left _ isBefore
  have ⟨isDeclared, named⟩ := mem_decls_of_function? isFunction
  rcases exists_of_call checked split listed declared with
    ⟨struct, isBefore, named', _⟩ | ⟨g, isBefore, named', typed⟩
  · cases Decl.eq_of_topName?_eq (nodup_topNames checked) isDeclared (inFront isBefore)
      (congrArg some named) (congrArg some named')
  · cases Decl.eq_of_topName?_eq (nodup_topNames checked) isDeclared (inFront isBefore)
      (congrArg some named) (congrArg some named')
    exact ⟨isBefore, typed⟩

theorem call_of_struct? (checked : shader.check version = .ok types)
    {before behind : List Decl} {decl : Decl} (split : shader.decls = before ++ decl :: behind)
    {id : NodeId} {callee : String} {args : List Expr} (listed : .call id callee args ∈ decl.exprs)
    (declared : CallsDeclared (before.filterMap Decl.struct?) (before.filterMap Decl.function?)
      callee) {struct : StructDecl}
    (isStruct : shader.struct? callee = some struct) :
    args.map (fun arg => types[arg.id]?) = struct.fields.map (fun field => some field.ty) ∧
      types[id]? = some (.struct struct.name) := by
  have inFront : ∀ {other}, other ∈ before → other ∈ shader.decls := fun isBefore =>
    split ▸ List.mem_append_left _ isBefore
  have ⟨isDeclared, named⟩ := mem_decls_of_struct? isStruct
  rcases exists_of_call checked split listed declared with
    ⟨other, isBefore, named', typed⟩ | ⟨g, isBefore, named', _⟩
  · cases Decl.eq_of_topName?_eq (nodup_topNames checked) isDeclared (inFront isBefore)
      (congrArg some named) (congrArg some named')
    exact typed
  · cases Decl.eq_of_topName?_eq (nodup_topNames checked) isDeclared (inFront isBefore)
      (congrArg some named) (congrArg some named')

theorem exists_split_of_mem_exprs {e : Expr} (listed : e ∈ shader.exprs) :
    ∃ before decl behind, shader.decls = before ++ decl :: behind ∧ e ∈ decl.exprs := by
  rcases List.mem_flatMap.mp listed with ⟨root, isRoot, isPart⟩
  rcases List.mem_flatMap.mp isRoot with ⟨decl, isDecl, isRoot⟩
  rcases List.append_of_mem isDecl with ⟨before, behind, split⟩
  exact ⟨before, decl, behind, split, List.mem_flatMap.mpr ⟨root, isRoot, isPart⟩⟩

/-! ## Structs in structs -/

/-- No two fields of a struct have one name. -/
theorem nodup_fields (checked : shader.check version = .ok types) {decl : StructDecl}
    (isDeclared : .struct decl ∈ shader.decls) : (decl.fields.map Field.name).Nodup := by
  rcases List.append_of_mem isDeclared with ⟨before, behind, split⟩
  exact (Check.Context.acceptsFields_iff_nodup.mp (acceptsDecl_of_split checked split).1.2.2).2.1

/-- The struct of a field stands in front of the struct with the field. -/
theorem mem_before_of_mem_fields (checked : shader.check version = .ok types)
    {before behind : List Decl} {outer : StructDecl}
    (split : shader.decls = before ++ .struct outer :: behind) {field : Field}
    (isField : field ∈ outer.fields) {name : String} (isStruct : field.ty = .struct name) :
    ∃ inner, .struct inner ∈ before ∧ inner.name = name := by
  rcases acceptsDecl_of_split checked split with ⟨accepted, inScope⟩
  have known := (Check.Context.acceptsFields_iff_nodup.mp accepted.2.2).1 field isField
  rw [isStruct] at known
  rcases List.find?_isSome.mp known with ⟨inner, listed, named⟩
  rw [inScope, List.mem_reverse, Decl.mem_filterMap_struct?_iff] at listed
  exact ⟨inner, listed, beq_iff_eq.mp named⟩

/-- What has another name than a declaration is not the declaration. -/
theorem topName?_ne_of_split (checked : shader.check version = .ok types)
    {before behind : List Decl} {decl : Decl} (split : shader.decls = before ++ decl :: behind)
    {name : String} (isName : decl.topName? = some name) {other : Decl}
    (listed : other ∈ before ++ behind) : other.topName? ≠ some name := by
  have apart := nodup_topNames checked
  rw [split, List.filterMap_append, List.filterMap_cons, isName] at apart
  intro same
  refine (List.nodup_cons.mp (List.nodup_middle.mp apart)).1 ?_
  rw [← List.filterMap_append]
  exact List.mem_filterMap.mpr ⟨other, listed, same⟩

/-- The struct of a field is not the struct with the field. -/
theorem inner_ne_outer (checked : shader.check version = .ok types) {outer : StructDecl}
    (isDeclared : .struct outer ∈ shader.decls) {field : Field} (isField : field ∈ outer.fields)
    {name : String} (isStruct : field.ty = .struct name) : name ≠ outer.name := by
  rcases List.append_of_mem isDeclared with ⟨before, behind, split⟩
  rcases mem_before_of_mem_fields checked split isField isStruct with ⟨inner, isBefore, rfl⟩
  intro same
  exact topName?_ne_of_split checked split rfl (List.mem_append_left _ isBefore) (congrArg some same)

/-- The fields of a struct are known wherever the struct is in scope. -/
theorem knows_of_mem_before (checked : shader.check version = .ok types)
    {before behind : List Decl} {decl : Decl} (split : shader.decls = before ++ decl :: behind)
    {struct : StructDecl} (isBefore : .struct struct ∈ before) {field : Field}
    (isField : field ∈ struct.fields) :
    ((Check.Context.initial version).behindDecls before).Knows field.ty false := by
  rcases List.append_of_mem isBefore with ⟨first, rest, isSplit⟩
  have split' : shader.decls = first ++ .struct struct :: (rest ++ decl :: behind) := by
    rw [split, isSplit, List.append_assoc, List.cons_append]
  rcases acceptsDecl_of_split checked split' with ⟨accepted, inScope⟩
  have known := (Check.Context.acceptsFields_iff_nodup.mp accepted.2.2).1 field isField
  refine known.mono ?_
  rw [inScope, (acceptsDecl_of_split checked split).2, isSplit, List.filterMap_append]
  exact fun other listed => List.mem_reverse.mpr (List.mem_append_left _ (List.mem_reverse.mp listed))

/-- The first function calls the second one, if names are looked up in the whole
shader. -/
def CallsByName (shader : Shader) (f g : Function) : Prop :=
  .function f ∈ shader.decls ∧ ∃ id callee args, .call id callee args ∈ f.exprs ∧
    shader.function? callee = some g

/-- The first function calls the second one by a name that means something else there. -/
def CallsHidden (shader : Shader) (f g : Function) : Prop :=
  ∃ before behind, shader.decls = before ++ .function f :: behind ∧
    ∃ id callee args, .call id callee args ∈ f.exprs ∧ shader.function? callee = some g ∧
      ¬ CallsDeclared (before.filterMap Decl.struct?) (before.filterMap Decl.function?) callee

/-- How many names are taken in front of a function. -/
def rank (shader : Shader) (f : Function) : Nat :=
  (shader.decls.filterMap Decl.topName?).idxOf f.name

theorem rank_lt_of_mem {before behind : List Decl} {f g : Function}
    (apart : (shader.decls.filterMap Decl.topName?).Nodup)
    (split : shader.decls = before ++ .function f :: behind) (inFront : .function g ∈ before) :
    shader.rank g < shader.rank f := by
  have names : shader.decls.filterMap Decl.topName? =
      before.filterMap Decl.topName? ++ f.name :: behind.filterMap Decl.topName? := by
    rw [split, List.filterMap_append, List.filterMap_cons]
    rfl
  have isNamed : g.name ∈ before.filterMap Decl.topName? := List.mem_filterMap.mpr ⟨_, inFront, rfl⟩
  rw [names] at apart
  have notNamed : f.name ∉ before.filterMap Decl.topName? := fun again =>
    (List.nodup_append.mp apart).2.2 f.name again f.name List.mem_cons_self rfl
  rw [rank, rank, names, List.idxOf_append_of_mem isNamed, List.idxOf_append_of_notMem notNamed]
  exact Nat.lt_add_right _ (List.idxOf_lt_length_of_mem isNamed)

/-- A function stands in front of another one that calls it, unless the call is hidden. -/
theorem CallsByName.rank_lt (checked : shader.check version = .ok types) {f g : Function}
    (calls : shader.CallsByName f g) (notHidden : ¬ shader.CallsHidden f g) :
    shader.rank g < shader.rank f := by
  rcases calls with ⟨isDeclared, id, callee, args, listed, isFunction⟩
  rcases List.append_of_mem isDeclared with ⟨before, behind, split⟩
  have declared : CallsDeclared (before.filterMap Decl.struct?) (before.filterMap Decl.function?)
      callee := not_not.mp fun hidden =>
    notHidden ⟨before, behind, split, id, callee, args, listed, isFunction, hidden⟩
  exact rank_lt_of_mem (nodup_topNames checked) split
    (call_of_function? checked split listed declared isFunction).1

/-- A path of calls that comes back to its start has a hidden call on it, since the other ones
lead to the front of the shader. -/
theorem exists_callsHidden_of_cycle (checked : shader.check version = .ok types) {f : Function}
    (cycle : Relation.TransGen shader.CallsByName f f) :
    ∃ g h, Relation.ReflTransGen shader.CallsByName f g ∧ shader.CallsHidden g h ∧
      Relation.ReflTransGen shader.CallsByName h f := by
  by_contra noneHidden
  have lower : ∀ g h, Relation.ReflTransGen shader.CallsByName f g → shader.CallsByName g h →
      Relation.ReflTransGen shader.CallsByName h f → shader.rank h < shader.rank g :=
    fun g h isFirst calls isLast =>
      calls.rank_lt checked fun hidden => noneHidden ⟨g, h, isFirst, hidden, isLast⟩
  have lowerEnd : ∀ h, Relation.TransGen shader.CallsByName f h →
      Relation.ReflTransGen shader.CallsByName h f → shader.rank h < shader.rank f := by
    intro h path isLast
    induction path with
    | single calls => exact lower f _ .refl calls isLast
    | tail path calls inductionHypothesis =>
        exact Nat.lt_trans (lower _ _ path.to_reflTransGen calls isLast)
          (inductionHypothesis (.head calls isLast))
  exact Nat.lt_irrefl _ (lowerEnd f cycle .refl)

/-- Calls of functions that are not named like anything else are not hidden. -/
theorem not_callsHidden (functions : ∀ f ∈ shader.functions, IsUnclaimed f.name) (f g : Function) :
    ¬ shader.CallsHidden f g := by
  rintro ⟨before, behind, split, id, callee, args, listed, isFunction, hidden⟩
  have unclaimed : IsUnclaimed callee := by
    rw [← (mem_decls_of_function? isFunction).2]
    exact functions g (List.mem_of_find?_eq_some isFunction)
  exact hidden (unclaimed.callsDeclared _ _)

/-- A call has the types that its name promises in the whole shader, unless something
that every shader has claims the call: the function with the name stands in front of the
call, each argument has the type of its parameter, and the call the type that the
function returns; the arguments of a constructor have the types of the fields.  A
function calls itself by name, if only through others, where one of these calls is
claimed by something else. -/
theorem types_of_call_by_name (checked : shader.check version = .ok types) :
    (∀ before decl behind, shader.decls = before ++ decl :: behind →
      ∀ id callee args, .call id callee args ∈ decl.exprs →
        CallsDeclared (before.filterMap Decl.struct?) (before.filterMap Decl.function?) callee →
        (∀ f, shader.function? callee = some f →
          .function f ∈ before ∧
          args.map (fun arg => types[arg.id]?) = f.params.map (fun param => some param.ty) ∧
          types[id]? = some f.returnTy) ∧
        ∀ struct, shader.struct? callee = some struct →
          args.map (fun arg => types[arg.id]?) = struct.fields.map (fun field => some field.ty) ∧
          types[id]? = some (.struct struct.name)) ∧
    ∀ f, Relation.TransGen shader.CallsByName f f →
      ∃ g h, Relation.ReflTransGen shader.CallsByName f g ∧ shader.CallsHidden g h ∧
        Relation.ReflTransGen shader.CallsByName h f :=
  ⟨fun _ _ _ split _ _ _ listed declared =>
    ⟨fun _ isFunction => call_of_function? checked split listed declared isFunction,
      fun _ isStruct => call_of_struct? checked split listed declared isStruct⟩,
    fun _ cycle => exists_callsHidden_of_cycle checked cycle⟩

/-- The shader `struct S { int a; }; S f(int x) { return S(x); } void main() { f(1); }`. -/
def constructing : Shader :=
  .ofDecls .essl100 [.struct ⟨.unnumbered, "S", [⟨.unnumbered, .int, "a"⟩]⟩,
    .function ⟨.unnumbered, .struct "S", "f", [⟨.unnumbered, .int, "x"⟩], ⟨.unnumbered,
      [.ret .unnumbered (some (.call .unnumbered "S" [.var .unnumbered "x"]))]⟩⟩,
    .function ⟨.unnumbered, .void, "main", [], ⟨.unnumbered,
      [.expr .unnumbered (.call .unnumbered "f" [.int .unnumbered 1])]⟩⟩]

/-- Both calls have the type `S`, and no function of the shader calls itself. -/
theorem types_of_call_constructing :
    ∃ types, constructing.check .essl100 = .ok types ∧
      (∀ f ∈ constructing.functions, IsUnclaimed f.name) ∧
      (∀ decl ∈ constructing.structs, IsUnclaimed decl.name) ∧
      Expr.call 6 "S" [.var 7 "x"] ∈ constructing.exprs ∧ types[6]? = some (.struct "S") ∧
      Expr.call 11 "f" [.int 12 1] ∈ constructing.exprs ∧ types[11]? = some (.struct "S") ∧
      ∀ f, ¬ Relation.TransGen constructing.CallsByName f f := by
  have isValid : (constructing.check .essl100).toOption.isSome = true := by decide
  have functions : ∀ f ∈ constructing.functions, IsUnclaimed f.name := by decide
  have structs : ∀ decl ∈ constructing.structs, IsUnclaimed decl.name := by decide
  cases checked : constructing.check .essl100 with
  | error problems =>
      rw [checked] at isValid
      cases isValid
  | ok types =>
      have inner : Expr.call 6 "S" [.var 7 "x"] ∈ constructing.exprs := List.mem_cons_self
      have outer : Expr.call 11 "f" [.int 12 1] ∈ constructing.exprs :=
        List.mem_cons_of_mem _ (List.mem_cons_of_mem _ List.mem_cons_self)
      rcases types_of_call_by_name checked with ⟨calls, cycles⟩
      have unclaimed : IsUnclaimed "S" ∧ IsUnclaimed "f" := by decide
      have ofStruct := calls [_] _ [_] rfl 6 "S" _ List.mem_cons_self
        (unclaimed.1.callsDeclared _ _)
      have ofFunction := calls [_, _] _ [] rfl 11 "f" _ List.mem_cons_self
        (unclaimed.2.callsDeclared _ _)
      refine ⟨types, rfl, functions, structs, inner, (ofStruct.2 _ rfl).2, outer,
        (ofFunction.1 _ rfl).2.2, fun f cycle => ?_⟩
      rcases cycles f cycle with ⟨g, h, _, hidden, _⟩
      exact not_callsHidden functions g h hidden

/-- The shader `vec2 g(vec2 v) { return sin(v); } float sin(float x, float y) { return y; }
void main() { return; }`. -/
def namesakes : Shader :=
  .ofDecls .essl100 [.function ⟨.unnumbered, .vector .float .two, "g",
      [⟨.unnumbered, .vector .float .two, "v"⟩], ⟨.unnumbered,
      [.ret .unnumbered (some (.call .unnumbered "sin" [.var .unnumbered "v"]))]⟩⟩,
    .function ⟨.unnumbered, .float, "sin",
      [⟨.unnumbered, .float, "x"⟩, ⟨.unnumbered, .float, "y"⟩], ⟨.unnumbered,
      [.ret .unnumbered (some (.var .unnumbered "y"))]⟩⟩,
    .function ⟨.unnumbered, .void, "main", [], ⟨.unnumbered, [.ret .unnumbered none]⟩⟩]

/-- A function may be named like a builtin function.  A call in front of it is of the
builtin one, but its name selects the function of the shader, which stands behind,
takes other arguments and returns another type. -/
theorem call_of_builtin_namesakes :
    ∃ types, namesakes.check .essl100 = .ok types ∧
      Expr.call 4 "sin" [.var 5 "v"] ∈ namesakes.exprs ∧
      types[4]? = some (.vector .float .two) ∧
      ∃ f, namesakes.function? "sin" = some f ∧ f.returnTy = .float ∧ f.params.length = 2 ∧
        ∃ g behind, namesakes.decls = .function g :: .function f :: behind ∧
          Expr.call 4 "sin" [.var 5 "v"] ∈ g.exprs := by
  have typed : (namesakes.check .essl100).toOption.bind (fun types => types[4]?) =
      some (.vector .float .two) := by decide
  cases checked : namesakes.check .essl100 with
  | error problems =>
      rw [checked] at typed
      cases typed
  | ok types =>
      rw [checked] at typed
      exact ⟨types, rfl, List.mem_cons_self, typed, _, rfl, rfl, rfl, _, _, rfl, List.mem_cons_self⟩

end Shader
end Whittle
