import Whittle.Proofs.Reduction.Parts
import Whittle.Proofs.Typing.Checking

namespace Whittle
namespace Check

/-!
# Where the expressions of a shader stand

The outermost expressions of a shader each stand in one context.  In a shader
that follows the rules all of them have types there, and the table of types that
a check finds holds the types of all their parts.
-/

namespace Context

open Reduction (Declares)

variable {ctx : Context}

theorem map_e_placedOption (ctx : Context) (e? : Option Expr) :
    (ctx.placedOption e?).map Placed.e = e?.toList := by
  cases e? <;> rfl

mutual

/-- What is placed in a statement are its outermost expressions. -/
theorem map_e_placed (ctx : Context) (s : Stmt) : (ctx.placed s).map Placed.e = s.roots := by
  cases s with
  | decl id var => exact map_e_placedOption ctx var.init
  | expr id e => rfl
  | block id scope stmts => exact map_e_placedList ctx.opened stmts
  | branch id cond whenTrue whenFalse =>
      rw [placed, Stmt.roots, List.map_cons, List.map_append, map_e_placed]
      cases whenFalse with
      | none => rfl
      | some s => rw [placedOfOption, map_e_placed, Stmt.rootsOfOption]
  | forLoop id init cond step body =>
      have inBody : ∀ header : Context, (header.placedBody body).map Placed.e = body.roots := by
        intro header
        cases body with
        | block id scope stmts => exact map_e_placedList header stmts
        | _ => exact map_e_placed header.opened _
      rw [placed_forLoop, Stmt.roots]
      simp only [List.map_append, map_e_placedOption, inBody, List.append_assoc]
      cases init with
      | none => rfl
      | some s => rw [placedOfOption, map_e_placed, Stmt.rootsOfOption]
  | whileLoop id cond body => rw [placed, Stmt.roots, List.map_cons, map_e_placed]
  | switch id selector cases =>
      rw [placed, Stmt.roots, List.map_cons, map_e_placedCases]
  | ret id value => exact map_e_placedOption ctx value
  | breakOut | continueLoop | discard | empty => rfl

theorem map_e_placedList (ctx : Context) (stmts : List Stmt) :
    (ctx.placedList stmts).map Placed.e = Stmt.rootsOfList stmts := by
  match stmts with
  | [] => rfl
  | s :: rest =>
      rw [placedList, Stmt.rootsOfList, List.map_append, map_e_placed, map_e_placedList]

theorem map_e_placedCases (ctx : Context) (cases : List Case) :
    (ctx.placedCases cases).map Placed.e = Stmt.rootsOfCases cases := by
  match cases with
  | [] => rfl
  | .mk id label body :: rest =>
      rw [placedCases, Stmt.rootsOfCases, List.map_append, map_e_placedList, map_e_placedCases]

end

/-- Whether all expressions that are placed have types. -/
def AllTyped (all : List Placed) : Prop :=
  ∀ one ∈ all, (one.ctx.typeOf one.e).isSome

theorem allTyped_append {first second : List Placed} :
    AllTyped (first ++ second) ↔ AllTyped first ∧ AllTyped second :=
  List.forall_mem_append

theorem allTyped_cons {e : Expr} {rest : List Placed} :
    AllTyped (⟨ctx, e⟩ :: rest) ↔ (ctx.typeOf e).isSome ∧ AllTyped rest :=
  List.forall_mem_cons

theorem allTyped_placedOption {e? : Option Expr} :
    AllTyped (ctx.placedOption e?) ↔ ∀ e ∈ e?, (ctx.typeOf e).isSome := by
  cases e? with
  | none => simp [AllTyped, placedOption]
  | some e => simp [AllTyped, placedOption]

theorem AcceptsVar.allTyped {var : VarDecl} (accepted : ctx.AcceptsVar var) :
    AllTyped (ctx.placedOption var.init) :=
  allTyped_placedOption.mpr fun e isInit => Option.isSome_of_eq_some (accepted.initialised e isInit)

mutual

/-- The expressions in an accepted statement have types. -/
theorem Accepts.allTyped {ctx : Context} {s : Stmt} (accepted : ctx.Accepts s) :
    AllTyped (ctx.placed s) := by
  cases s with
  | decl id var => exact AcceptsVar.allTyped accepted.2
  | expr id e => exact allTyped_cons.mpr ⟨accepted, List.forall_mem_nil _⟩
  | block id scope stmts => exact AcceptsList.allTyped accepted
  | branch id cond whenTrue whenFalse =>
      rcases accepted with ⟨isCond, first, second⟩
      refine allTyped_cons.mpr ⟨Option.isSome_of_eq_some isCond, allTyped_append.mpr
        ⟨Accepts.allTyped first, ?_⟩⟩
      cases whenFalse with
      | none => exact List.forall_mem_nil _
      | some s => exact Accepts.allTyped second
  | forLoop id init cond step body =>
      unfold Accepts at accepted
      rcases accepted with ⟨_, before, tested, behind, within⟩
      rw [placed_forLoop, allTyped_append, allTyped_append, allTyped_append, allTyped_placedOption,
        allTyped_placedOption]
      refine ⟨?_, fun e isCond => Option.isSome_of_eq_some (tested e isCond), behind, ?_⟩
      · cases init with
        | none => exact List.forall_mem_nil _
        | some s => exact Accepts.allTyped before
      · cases body with
        | block id scope stmts => exact AcceptsList.allTyped within
        | _ => exact Accepts.allTyped within
  | whileLoop id cond body =>
      exact allTyped_cons.mpr ⟨Option.isSome_of_eq_some accepted.1, Accepts.allTyped accepted.2⟩
  | switch id selector cases =>
      exact allTyped_cons.mpr ⟨Option.isSome_of_eq_some accepted.2.1,
        AcceptsCases.allTyped accepted.2.2.2⟩
  | ret id value =>
      refine allTyped_placedOption.mpr fun e isValue => ?_
      rw [isValue] at accepted
      change ctx.AcceptsReturn (some e) at accepted
      unfold AcceptsReturn at accepted
      cases expected : ctx.returnTy with
      | none =>
          rw [expected] at accepted
          cases accepted
      | some ty =>
          rw [expected] at accepted
          exact Option.isSome_of_eq_some accepted.2
  | breakOut | continueLoop | discard | empty => exact List.forall_mem_nil _

theorem AcceptsList.allTyped {ctx : Context} {stmts : List Stmt}
    (accepted : ctx.AcceptsList stmts) : AllTyped (ctx.placedList stmts) := by
  match stmts with
  | [] => exact List.forall_mem_nil _
  | s :: rest =>
      exact allTyped_append.mpr ⟨Accepts.allTyped accepted.1, AcceptsList.allTyped accepted.2⟩

theorem AcceptsCases.allTyped {ctx : Context} {before : List Label} {cases : List Case}
    (accepted : ctx.AcceptsCases before cases) : AllTyped (ctx.placedCases cases) := by
  match cases with
  | [] => exact List.forall_mem_nil _
  | .mk id label body :: rest =>
      exact allTyped_append.mpr ⟨AcceptsList.allTyped accepted.2.1,
        AcceptsCases.allTyped accepted.2.2⟩

end

/-- A property of contexts that scopes, loops, switches and variables with names of a
kind leave as it is. -/
structure Inherited (fits : String → Prop) (P : Context → Prop) : Prop where
  opened : ∀ {ctx : Context}, P ctx → P ctx.opened
  inLoop : ∀ {ctx : Context}, P ctx → P ctx.inLoop
  inSwitch : ∀ {ctx : Context}, P ctx → P ctx.inSwitch
  declared : ∀ {ctx : Context} {name : String} (binding : Binding),
    fits name → P ctx → P (ctx.declared name binding)

/-- Whether everything is placed where the property holds. -/
def AllAt (P : Context → Prop) (all : List Placed) : Prop :=
  ∀ one ∈ all, P one.ctx

variable {P : Context → Prop}

theorem allAt_append {first second : List Placed} :
    AllAt P (first ++ second) ↔ AllAt P first ∧ AllAt P second :=
  List.forall_mem_append

theorem allAt_cons {e : Expr} {rest : List Placed} (holds : P ctx) (allAt : AllAt P rest) :
    AllAt P (⟨ctx, e⟩ :: rest) :=
  List.forall_mem_cons.mpr ⟨holds, allAt⟩

theorem allAt_placedOption (holds : P ctx) (e? : Option Expr) : AllAt P (ctx.placedOption e?) := by
  cases e? with
  | none => exact List.forall_mem_nil _
  | some e => exact List.forall_mem_singleton.mpr holds

namespace Inherited

variable {fits : String → Prop}

theorem behind (inherited : Inherited fits P) (holds : P ctx) {s : Stmt}
    (declares : Declares fits [s]) : P (ctx.behind s) := by
  cases s with
  | decl id var => exact inherited.declared _ (Declares.decl_iff.mp declares) holds
  | _ => exact holds

theorem behindList (inherited : Inherited fits P) (holds : P ctx) {stmts : List Stmt}
    (declares : Declares fits stmts) : P (ctx.behindList stmts) := by
  induction stmts generalizing ctx with
  | nil => exact holds
  | cons s rest inductionHypothesis =>
      rw [Declares.cons_iff] at declares
      exact inductionHypothesis (inherited.behind holds declares.1) declares.2

theorem behindCases (inherited : Inherited fits P) (holds : P ctx) {cases : List Case}
    (declares : Declares fits (cases.flatMap Case.body)) : P (ctx.behindCases cases) := by
  induction cases generalizing ctx with
  | nil => exact holds
  | cons one rest inductionHypothesis =>
      cases one with
      | mk id label body =>
          rw [List.flatMap_cons, Declares.append_iff] at declares
          exact inductionHypothesis (inherited.behindList holds declares.1) declares.2

theorem header (inherited : Inherited fits P) (holds : P ctx) {init : Option Stmt}
    (declares : Declares fits init.toList) : P (ctx.header init) := by
  cases init with
  | none => exact inherited.opened holds
  | some s =>
      unfold Context.header
      dsimp only
      split
      · exact inherited.behind (inherited.opened holds) declares
      · exact inherited.opened holds

theorem behindParams (inherited : Inherited fits P) (holds : P ctx) {params : List Param}
    (declares : ∀ param ∈ params, fits param.name) : P (ctx.behindParams params) := by
  induction params generalizing ctx with
  | nil => exact holds
  | cons param rest inductionHypothesis =>
      rw [List.forall_mem_cons] at declares
      exact inductionHypothesis (inherited.declared _ declares.1 holds) declares.2

mutual

/-- A statement has the property in all its places. -/
theorem placed (inherited : Inherited fits P) {ctx : Context} (holds : P ctx) {s : Stmt}
    (declares : Declares fits [s]) : AllAt P (ctx.placed s) := by
  cases s with
  | decl id var => exact allAt_placedOption holds var.init
  | expr id e => exact allAt_cons holds (List.forall_mem_nil _)
  | block id scope stmts =>
      exact inherited.placedList (inherited.opened holds) (Declares.block_iff.mp declares)
  | branch id cond whenTrue whenFalse =>
      rw [Declares.branch_iff] at declares
      exact allAt_cons holds (allAt_append.mpr
        ⟨inherited.placed (inherited.opened holds) declares.1,
          inherited.placedOfOption (inherited.opened holds) declares.2⟩)
  | forLoop id init cond step body =>
      rw [Declares.forLoop_iff] at declares
      have header := inherited.header holds declares.1
      rw [placed_forLoop, allAt_append, allAt_append, allAt_append]
      refine ⟨inherited.placedOfOption (inherited.opened holds) declares.1,
        allAt_placedOption header cond, allAt_placedOption header step, ?_⟩
      cases body with
      | block id scope stmts =>
          exact inherited.placedList (inherited.inLoop header) (Declares.block_iff.mp declares.2)
      | _ => exact inherited.placed (inherited.opened (inherited.inLoop header)) declares.2
  | whileLoop id cond body =>
      exact allAt_cons holds (inherited.placed (inherited.opened (inherited.inLoop holds))
        (Declares.whileLoop_iff.mp declares))
  | switch id selector cases =>
      exact allAt_cons holds (inherited.placedCases (inherited.opened (inherited.inSwitch holds))
        (Declares.switch_iff.mp declares))
  | ret id value => exact allAt_placedOption holds value
  | breakOut | continueLoop | discard | empty => exact List.forall_mem_nil _

theorem placedOfOption (inherited : Inherited fits P) {ctx : Context} (holds : P ctx)
    {s? : Option Stmt} (declares : Declares fits s?.toList) : AllAt P (ctx.placedOfOption s?) := by
  match s? with
  | none => exact List.forall_mem_nil _
  | some s => exact inherited.placed holds declares

theorem placedList (inherited : Inherited fits P) {ctx : Context} (holds : P ctx)
    {stmts : List Stmt} (declares : Declares fits stmts) : AllAt P (ctx.placedList stmts) := by
  match stmts with
  | [] => exact List.forall_mem_nil _
  | s :: rest =>
      rw [Declares.cons_iff] at declares
      exact allAt_append.mpr ⟨inherited.placed holds declares.1,
        inherited.placedList (inherited.behind holds declares.1) declares.2⟩

theorem placedCases (inherited : Inherited fits P) {ctx : Context} (holds : P ctx)
    {cases : List Case} (declares : Declares fits (cases.flatMap Case.body)) :
    AllAt P (ctx.placedCases cases) := by
  match cases with
  | [] => exact List.forall_mem_nil _
  | .mk _ _ body :: rest =>
      rw [List.flatMap_cons, Declares.append_iff] at declares
      exact allAt_append.mpr ⟨inherited.placedList holds declares.1,
        inherited.placedCases (inherited.behindList holds declares.1) declares.2⟩

end

end Inherited

/-- What is declared at the top level so far. -/
def tops (ctx : Context) : List StructDecl × List Function :=
  (ctx.structs, ctx.functions)

theorem tops_declared (ctx : Context) (name : String) (binding : Binding) :
    (ctx.declared name binding).tops = ctx.tops := by
  unfold declared
  split <;> rfl

theorem inherited_tops (known : List StructDecl × List Function) :
    Inherited (fun _ => True) fun ctx => ctx.tops = known where
  opened same := same
  inLoop same := same
  inSwitch same := same
  declared binding _ same := (tops_declared _ _ binding).trans same

/-! ## Declarations -/

theorem map_e_placedDecls (ctx : Context) (decls : List Decl) :
    (ctx.placedDecls decls).map Placed.e = decls.flatMap Decl.roots := by
  induction decls generalizing ctx with
  | nil => rfl
  | cons decl rest inductionHypothesis =>
      rw [placedDecls, List.map_append, inductionHypothesis, List.flatMap_cons]
      cases decl with
      | precision | struct => rfl
      | global var => exact congrArg (· ++ _) (map_e_placedOption _ var.init)
      | function f =>
          rw [placedDecl, map_e_placedList, Stmt.rootsOfList_eq_flatMap]
          rfl

theorem AcceptsDecls.allTyped {decls : List Decl} (accepted : ctx.AcceptsDecls decls) :
    AllTyped (ctx.placedDecls decls) := by
  induction decls generalizing ctx with
  | nil => exact List.forall_mem_nil _
  | cons decl rest inductionHypothesis =>
      refine allTyped_append.mpr ⟨?_, inductionHypothesis accepted.2⟩
      cases decl with
      | precision | struct => exact List.forall_mem_nil _
      | global var => exact AcceptsVar.allTyped accepted.1.2.2
      | function f => exact AcceptsList.allTyped accepted.1.body

/-- In a declaration exactly the structs and functions in front of it are known. -/
theorem tops_of_mem_placedDecl {decl : Decl} {one : Placed} (listed : one ∈ ctx.placedDecl decl) :
    one.ctx.tops = ctx.tops := by
  have inherited := inherited_tops ctx.tops
  cases decl with
  | precision | struct => cases listed
  | global var =>
      rcases List.mem_map.mp listed with ⟨init, _, rfl⟩
      rfl
  | function f =>
      have inFunction : (ctx.inFunction f).tops = ctx.tops :=
        inherited.behindParams (inherited.opened rfl) fun _ _ => trivial
      exact inherited.placedList inFunction (fun _ _ => trivial) one listed

theorem structs_behindDecl_subset (ctx : Context) (decl : Decl) :
    (ctx.behindDecl decl).structs ⊆ ctx.structs ++ decl.struct?.toList := by
  cases decl with
  | precision => exact List.subset_append_left _ _
  | struct decl =>
      simp only [behindDecl, Decl.struct?, Option.toList_some]
      split
      · exact List.subset_append_left _ _
      · exact List.cons_subset.mpr ⟨List.mem_append_right _ List.mem_cons_self,
          List.subset_append_left _ _⟩
  | global var =>
      simp only [behindDecl]
      split
      · exact List.subset_append_left _ _
      · have same : ((ctx.taking var.name).behindVar var).structs = ctx.structs :=
          congrArg Prod.fst (tops_declared (ctx.taking var.name) _ _)
        exact same ▸ List.subset_append_left _ _
  | function f =>
      simp only [behindDecl]
      split <;> exact List.subset_append_left _ _

/-- The structs that are in scope somewhere were declared further up. -/
theorem structs_subset_of_mem_placedDecls {decls : List Decl} {one : Placed}
    (listed : one ∈ ctx.placedDecls decls) :
    one.ctx.structs ⊆ ctx.structs ++ decls.filterMap Decl.struct? := by
  induction decls generalizing ctx with
  | nil => cases listed
  | cons decl rest inductionHypothesis =>
      rcases List.mem_append.mp listed with here | behind
      · rw [show one.ctx.structs = ctx.structs from congrArg Prod.fst (tops_of_mem_placedDecl here)]
        exact List.subset_append_left _ _
      · intro struct inScope
        rcases List.mem_append.mp (inductionHypothesis behind inScope) with before | declared
        · rcases List.mem_append.mp (structs_behindDecl_subset ctx decl before) with before | here
          · exact List.mem_append_left _ before
          · refine List.mem_append_right _ (List.mem_filterMap.mpr ⟨decl, List.mem_cons_self, ?_⟩)
            exact Option.mem_toList.mp here
        · rw [List.filterMap_cons]
          refine List.mem_append_right _ ?_
          split
          · exact declared
          · exact List.mem_cons_of_mem _ declared

end Context
end Check

namespace Shader

variable {shader : Shader} {version : Version} {types : TypeTable}

/-- The outermost expressions of a shader, each where it stands. -/
def placed (shader : Shader) (version : Version) : List Check.Context.Placed :=
  (Check.Context.initial version).placedDecls shader.decls

theorem map_e_placed (shader : Shader) (version : Version) :
    (shader.placed version).map Check.Context.Placed.e = shader.roots :=
  Check.Context.map_e_placedDecls _ shader.decls

/-- An expression of the shader is part of one that is placed. -/
theorem mem_exprs_iff {e : Expr} :
    e ∈ shader.exprs ↔ ∃ one ∈ shader.placed version, e ∈ one.e.subexprs := by
  rw [exprs, ← map_e_placed shader version, List.mem_flatMap]
  constructor
  · rintro ⟨_, isRoot, isPart⟩
    rcases List.mem_map.mp isRoot with ⟨one, listed, rfl⟩
    exact ⟨one, listed, isPart⟩
  · rintro ⟨one, listed, isPart⟩
    exact ⟨one.e, List.mem_map_of_mem listed, isPart⟩

/-- All expressions of a valid shader have types where they stand, and these are
the ones that the check finds. -/
theorem types_eq_typeOf (checked : shader.check version = .ok types)
    {one : Check.Context.Placed} (listed : one ∈ shader.placed version) {part : Expr}
    (isPart : part ∈ one.e.subexprs) :
    (one.ctx.typeOf part).isSome ∧ types[part.id]? = one.ctx.typeOf part := by
  have follows := (isValid_iff.mp ⟨types, checked⟩).2
  have typed := Check.Context.isSome_of_mem_subexprs (follows.decls.allTyped one listed) isPart
  refine ⟨typed, ?_⟩
  rcases Option.isSome_iff_exists.mp typed with ⟨ty, isTy⟩
  rw [isTy, getElem?_eq_some_iff_of_check checked]
  refine List.mem_flatMap.mpr ⟨one, listed, List.mem_filterMap.mpr ⟨part, isPart, ?_⟩⟩
  rw [isTy]
  rfl

/-- The identifiers in the table of types are those of expressions. -/
theorem mem_map_id_exprs_of_getElem? (checked : shader.check version = .ok types) {id : NodeId}
    {ty : Ty} (isTy : types[id]? = some ty) : id ∈ shader.exprs.map Expr.id := by
  rcases List.mem_flatMap.mp ((getElem?_eq_some_iff_of_check checked).mp isTy) with
    ⟨one, listed, isEntry⟩
  rcases List.mem_filterMap.mp isEntry with ⟨part, isPart, same⟩
  rcases Option.map_eq_some_iff.mp same with ⟨_, _, samePair⟩
  exact List.mem_map.mpr ⟨part, mem_exprs_iff.mpr ⟨one, listed, isPart⟩,
    congrArg Prod.fst samePair⟩

theorem mem_ids_of_getElem? (checked : shader.check version = .ok types) {id : NodeId} {ty : Ty}
    (isTy : types[id]? = some ty) : id ∈ shader.ids :=
  (map_id_exprs_sublist shader).subset (mem_map_id_exprs_of_getElem? checked isTy)

/-- The structs that are in scope somewhere are structs of the shader. -/
theorem structs_subset_of_mem_placed {one : Check.Context.Placed}
    (listed : one ∈ shader.placed version) : one.ctx.structs ⊆ shader.structs :=
  Check.Context.structs_subset_of_mem_placedDecls listed

end Shader

/-! ## The table is complete

A check goes past nothing in silence.  It meets every node, since a part that is left out is
left out for a problem that was reported; and it gives every expression a type or reports a
problem.  So if there is no problem, no identifier stands twice, and the table has one entry for
each expression and no other ones.
-/

namespace Check

/-- An expression without a type is never passed over: a problem was reported on the way. -/
theorem problems_lt_of_infer_eq_none {ctx : Context} {e : Expr} {log : Log}
    (untyped : ((infer ctx e).run log).1 = none) :
    log.problems.length < ((infer ctx e).run log).2.problems.length := by
  have judges := judges_infer ctx e log
  refine judges.rejects fun ⟨allows, typed⟩ => ?_
  rw [← (judges.accepts allows typed).1, untyped] at typed
  cases typed

end Check

namespace Shader

variable {shader : Shader} {version : Version} {types : TypeTable}

/-- The table has entries for the expressions and for nothing else. -/
theorem mem_types_iff_of_check (checked : shader.check version = .ok types) {id : NodeId} :
    id ∈ types ↔ id ∈ shader.exprs.map Expr.id := by
  rw [Std.TreeMap.mem_iff_isSome_getElem?]
  constructor
  · intro isKey
    rcases Option.isSome_iff_exists.mp isKey with ⟨ty, isTy⟩
    exact mem_map_id_exprs_of_getElem? checked isTy
  · intro isId
    rcases List.mem_map.mp isId with ⟨e, listed, rfl⟩
    rcases mem_exprs_iff.mp listed with ⟨one, isOne, isPart⟩
    have typed := types_eq_typeOf checked isOne isPart
    rw [typed.2]
    exact typed.1

/-- In an accepted shader no two nodes have one identifier, and the keys of the table are the
identifiers of the expressions, each once.  Behind this is that inference never fails without
a report. -/
theorem complete_of_check :
    (∀ (shader : Shader) (version : Version) (types : TypeTable),
      shader.check version = .ok types →
        shader.ids.Nodup ∧ types.keys.Perm (shader.exprs.map Expr.id)) ∧
    ∀ (ctx : Check.Context) (e : Expr) (log : Check.Log),
      ((Check.infer ctx e).run log).1 = none →
        log.problems.length < ((Check.infer ctx e).run log).2.problems.length := by
  refine ⟨fun shader version types checked => ?_, fun _ _ _ => Check.problems_lt_of_infer_eq_none⟩
  have distinct := (isValid_iff.mp ⟨types, checked⟩).1
  have distinctExprs := distinct.sublist (map_id_exprs_sublist shader)
  refine ⟨distinct,
    (List.perm_ext_iff_of_nodup Std.TreeMap.nodup_keys distinctExprs).mpr fun id => ?_⟩
  rw [Std.TreeMap.mem_keys]
  exact mem_types_iff_of_check checked

/-- The shader

```
precision mediump float;
struct S { float a; };
out vec4 c;
float f(float p) { switch (1) { case 0: { return p; } default: const float q = p; return q; } }
void main() { c = vec4(f(S(1.0).a)); }
```
-/
def everyNode : Shader :=
  .ofDecls .essl300
    [.precision ⟨.unnumbered, .medium, .float⟩,
     .struct ⟨.unnumbered, "S", [⟨.unnumbered, .float, "a"⟩]⟩,
     .global ⟨.unnumbered, some .output, .vector .float .four, "c", none⟩,
     .function ⟨.unnumbered, .float, "f", [⟨.unnumbered, .float, "p"⟩], ⟨.unnumbered,
      [.switch .unnumbered (.int .unnumbered 1)
        [.mk .unnumbered (.value 0)
          [.block .unnumbered .unnumbered
            [.ret .unnumbered (some (.var .unnumbered "p"))]],
         .mk .unnumbered .otherwise
          [.decl .unnumbered ⟨.unnumbered, some .const, .float, "q",
            some (.var .unnumbered "p")⟩,
           .ret .unnumbered (some (.var .unnumbered "q"))]]]⟩⟩,
     .function ⟨.unnumbered, .void, "main", [], ⟨.unnumbered,
      [.expr .unnumbered (.assign .unnumbered .set (.var .unnumbered "c")
        (.call .unnumbered "vec4" [.call .unnumbered "f" [.member .unnumbered
          (.call .unnumbered "S" [.float .unnumbered .one]) "a"]]))]⟩⟩]

/-- The table of the shader has the eleven expressions in it, and an expression that refers to
nothing is reported. -/
theorem complete_of_check_everyNode :
    ∃ types, everyNode.check .essl300 = .ok types ∧
      types.keys.Perm [8, 13, 17, 19, 23, 24, 25, 26, 27, 28, 29] ∧
      0 < ((Check.infer (.initial .essl300) (.var 0 "x")).run .empty).2.problems.length := by
  have valid : (everyNode.check .essl300).toOption.isSome = true := by decide
  cases checked : everyNode.check .essl300 with
  | error problems =>
      rw [checked] at valid
      cases valid
  | ok types =>
      exact ⟨types, rfl, (complete_of_check.1 everyNode .essl300 types checked).2,
        complete_of_check.2 (.initial .essl300) (.var 0 "x") .empty rfl⟩

end Shader
end Whittle
