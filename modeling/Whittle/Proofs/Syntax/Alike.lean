import Mathlib.Data.List.Forall2
import Mathlib.Data.List.Nodup
import Mathlib.Logic.Relation
import Whittle.Proofs.Syntax.Inside

namespace Whittle

/-!
# Trees of one shape

Two trees are alike if they have one shape and one text apart from their
outermost expressions, which a given relation compares.  Identifiers do not
count.  A shader whose expressions were edited is alike to the shader before,
and so is a shader that was printed and read again.
-/

/-- The variables differ in their identifiers and as `R` says of the
initialisers. -/
structure VarDecl.Alike (R : Expr → Expr → Prop) (var var' : VarDecl) : Prop where
  qualifier : var'.qualifier = var.qualifier
  ty : var'.ty = var.ty
  name : var'.name = var.name
  init : Option.Rel R var.init var'.init

mutual

/-- The statements differ in identifiers and as `R` says of their outermost
expressions. -/
inductive Stmt.Alike (R : Expr → Expr → Prop) : Stmt → Stmt → Prop where
  | decl {id id' : NodeId} {var var' : VarDecl} (declared : var.Alike R var') :
      Stmt.Alike R (.decl id var) (.decl id' var')
  | expr {id id' : NodeId} {e e' : Expr} (evaluated : R e e') : Stmt.Alike R (.expr id e) (.expr id' e')
  | block {id id' scope scope' : NodeId} {stmts stmts' : List Stmt}
      (within : List.Forall₂ (Stmt.Alike R) stmts stmts') :
      Stmt.Alike R (.block id scope stmts) (.block id' scope' stmts')
  | branch {id id' : NodeId} {cond cond' : Expr} {whenTrue whenTrue' : Stmt}
      {whenFalse whenFalse' : Option Stmt} (tested : R cond cond')
      (first : Stmt.Alike R whenTrue whenTrue') (second : Option.Rel (Stmt.Alike R) whenFalse whenFalse') :
      Stmt.Alike R (.branch id cond whenTrue whenFalse) (.branch id' cond' whenTrue' whenFalse')
  | forLoop {id id' : NodeId} {init init' : Option Stmt} {cond cond' step step' : Option Expr}
      {body body' : Stmt} (before : Option.Rel (Stmt.Alike R) init init')
      (tested : Option.Rel R cond cond') (behind : Option.Rel R step step')
      (within : Stmt.Alike R body body') :
      Stmt.Alike R (.forLoop id init cond step body) (.forLoop id' init' cond' step' body')
  | whileLoop {id id' : NodeId} {cond cond' : Expr} {body body' : Stmt} (tested : R cond cond')
      (within : Stmt.Alike R body body') : Stmt.Alike R (.whileLoop id cond body) (.whileLoop id' cond' body')
  | switch {id id' : NodeId} {selector selector' : Expr} {cases cases' : List Case}
      (selected : R selector selector') (within : List.Forall₂ (Case.Alike R) cases cases') :
      Stmt.Alike R (.switch id selector cases) (.switch id' selector' cases')
  | ret {id id' : NodeId} {value value' : Option Expr} (returned : Option.Rel R value value') :
      Stmt.Alike R (.ret id value) (.ret id' value')
  | breakOut {id id' : NodeId} : Stmt.Alike R (.breakOut id) (.breakOut id')
  | continueLoop {id id' : NodeId} : Stmt.Alike R (.continueLoop id) (.continueLoop id')
  | discard {id id' : NodeId} : Stmt.Alike R (.discard id) (.discard id')
  | empty {id id' : NodeId} : Stmt.Alike R (.empty id) (.empty id')

/-- The cases have one label and lists of alike statements. -/
inductive Case.Alike (R : Expr → Expr → Prop) : Case → Case → Prop where
  | mk {id id' : NodeId} {label : Label} {body body' : List Stmt}
      (within : List.Forall₂ (Stmt.Alike R) body body') :
      Case.Alike R (.mk id label body) (.mk id' label body')

end

/-- What a declaration says of a field. -/
def Field.shape (field : Field) : Ty × String :=
  (field.ty, field.name)

/-- What a declaration says of a parameter. -/
def Param.shape (param : Param) : Ty × String :=
  (param.ty, param.name)

/-- The structs differ in identifiers. -/
structure StructDecl.Alike (decl decl' : StructDecl) : Prop where
  name : decl'.name = decl.name
  fields : decl'.fields.map Field.shape = decl.fields.map Field.shape

/-- The functions differ in identifiers and in their bodies. -/
structure Function.HeadsAlike (f f' : Function) : Prop where
  returnTy : f'.returnTy = f.returnTy
  name : f'.name = f.name
  params : f'.params.map Param.shape = f.params.map Param.shape

/-- The functions differ in identifiers and as `R` says of the expressions in
their bodies. -/
structure Function.Alike (R : Expr → Expr → Prop) (f f' : Function) : Prop
    extends f.HeadsAlike f' where
  stmts : List.Forall₂ (Stmt.Alike R) f.body.stmts f'.body.stmts

/-- The declarations differ in identifiers and as `R` says of the expressions in
them. -/
inductive Decl.Alike (R : Expr → Expr → Prop) : Decl → Decl → Prop where
  | precision {id id' : NodeId} {precision : Precision} {ty : Ty} :
      Alike R (.precision ⟨id, precision, ty⟩) (.precision ⟨id', precision, ty⟩)
  | struct {decl decl' : StructDecl} (same : decl.Alike decl') :
      Alike R (.struct decl) (.struct decl')
  | global {var var' : VarDecl} (declared : var.Alike R var') : Alike R (.global var) (.global var')
  | function {f f' : Function} (defined : f.Alike R f') : Alike R (.function f) (.function f')

/-- The shaders differ in identifiers and as `R` says of the expressions in
them. -/
structure Shader.Alike (R : Expr → Expr → Prop) (shader shader' : Shader) : Prop where
  version : shader'.version = shader.version
  decls : List.Forall₂ (Decl.Alike R) shader.decls shader'.decls

theorem option_rel_of_toList {α : Type} {R : α → α → Prop} {a? : Option α}
    (refl : ∀ a ∈ a?.toList, R a a) : Option.Rel R a? a? := by
  cases a? with
  | none => exact .none
  | some a => exact .some (refl a (List.mem_singleton.mpr rfl))

theorem option_rel_of_refl {α : Type} {R : α → α → Prop} (refl : ∀ a, R a a) (a? : Option α) :
    Option.Rel R a? a? :=
  option_rel_of_toList fun a _ => refl a

variable {R : Expr → Expr → Prop}

theorem VarDecl.Alike.of_refl (refl : ∀ e, R e e) (var : VarDecl) : var.Alike R var :=
  ⟨rfl, rfl, rfl, option_rel_of_refl refl var.init⟩

mutual

/-- Only the outermost expressions of the statement are compared. -/
theorem Stmt.Alike.of_roots {s : Stmt} (refl : ∀ e ∈ s.roots, R e e) : s.Alike R s := by
  cases s with
  | decl id var => exact .decl ⟨rfl, rfl, rfl, option_rel_of_toList refl⟩
  | expr id e => exact .expr (refl e (List.mem_singleton.mpr rfl))
  | block id scope stmts => exact .block (alikeList_of_roots refl)
  | branch id cond whenTrue whenFalse =>
      rw [roots, List.forall_mem_cons, List.forall_mem_append] at refl
      exact .branch refl.1 (.of_roots refl.2.1) (alikeOption_of_roots refl.2.2)
  | forLoop id init cond step body =>
      rw [roots, List.forall_mem_append, List.forall_mem_append, List.forall_mem_append] at refl
      exact .forLoop (alikeOption_of_roots refl.1.1.1) (option_rel_of_toList refl.1.1.2)
        (option_rel_of_toList refl.1.2) (.of_roots refl.2)
  | whileLoop id cond body =>
      rw [roots, List.forall_mem_cons] at refl
      exact .whileLoop refl.1 (.of_roots refl.2)
  | switch id selector cases =>
      rw [roots, List.forall_mem_cons] at refl
      exact .switch refl.1 (alikeCases_of_roots refl.2)
  | ret id value => exact .ret (option_rel_of_toList refl)
  | breakOut => exact .breakOut
  | continueLoop => exact .continueLoop
  | discard => exact .discard
  | empty => exact .empty

theorem Stmt.alikeList_of_roots {stmts : List Stmt} (refl : ∀ e ∈ rootsOfList stmts, R e e) :
    List.Forall₂ (Stmt.Alike R) stmts stmts := by
  match stmts with
  | [] => exact .nil
  | s :: rest =>
      rw [rootsOfList, List.forall_mem_append] at refl
      exact .cons (.of_roots refl.1) (alikeList_of_roots refl.2)

theorem Stmt.alikeOption_of_roots {s? : Option Stmt} (refl : ∀ e ∈ rootsOfOption s?, R e e) :
    Option.Rel (Stmt.Alike R) s? s? := by
  match s? with
  | none => exact .none
  | some s => exact .some (.of_roots refl)

theorem Stmt.alikeCases_of_roots {cases : List Case} (refl : ∀ e ∈ rootsOfCases cases, R e e) :
    List.Forall₂ (Case.Alike R) cases cases := by
  match cases with
  | [] => exact .nil
  | .mk id label body :: rest =>
      rw [rootsOfCases, List.forall_mem_append] at refl
      exact .cons (.mk (alikeList_of_roots refl.1)) (alikeCases_of_roots refl.2)

end

theorem Stmt.Alike.of_refl (refl : ∀ e, R e e) (s : Stmt) : s.Alike R s :=
  .of_roots fun e _ => refl e

theorem Stmt.alikeList_of_refl (refl : ∀ e, R e e) (stmts : List Stmt) :
    List.Forall₂ (Stmt.Alike R) stmts stmts :=
  alikeList_of_roots fun e _ => refl e

theorem Stmt.alikeCases_of_refl (refl : ∀ e, R e e) (cases : List Case) :
    List.Forall₂ (Case.Alike R) cases cases :=
  alikeCases_of_roots fun e _ => refl e

theorem Decl.Alike.of_refl (refl : ∀ e, R e e) (decl : Decl) : decl.Alike R decl := by
  cases decl with
  | precision => exact .precision
  | struct decl => exact .struct ⟨rfl, rfl⟩
  | global var => exact .global (.of_refl refl var)
  | function f => exact .function ⟨⟨rfl, rfl, rfl⟩, Stmt.alikeList_of_refl refl f.body.stmts⟩

theorem forall₂_at_member {α : Type} {R : α → α → Prop} (refl : ∀ a, R a a) (before : List α)
    {a a' : α} (changed : R a a') (behind : List α) :
    List.Forall₂ R (before ++ a :: behind) (before ++ a' :: behind) :=
  List.rel_append (List.forall₂_same.mpr fun a _ => refl a)
    (.cons changed (List.forall₂_same.mpr fun a _ => refl a))

theorem exists_of_mem_right {α : Type} {R : α → α → Prop} {all all' : List α}
    (related : List.Forall₂ R all all') {a' : α} (listed : a' ∈ all') : ∃ a ∈ all, R a a' := by
  induction related with
  | nil => cases listed
  | cons head _ inductionHypothesis =>
      rcases List.mem_cons.mp listed with rfl | listed
      · exact ⟨_, List.mem_cons_self, head⟩
      · rcases inductionHypothesis listed with ⟨a, isMember, same⟩
        exact ⟨a, List.mem_cons_of_mem _ isMember, same⟩

theorem exists_of_mem_left {α : Type} {R : α → α → Prop} {all all' : List α}
    (related : List.Forall₂ R all all') {a : α} (listed : a ∈ all) : ∃ a' ∈ all', R a a' :=
  exists_of_mem_right related.flip listed

open Relation (ReflGen)

theorem Stmt.AtExpr.alike {s s' : Stmt} (differ : AtExpr R s s') : s.Alike (ReflGen R) s' := by
  have unchanged := fun s : Stmt => Stmt.Alike.of_refl (R := ReflGen R) (fun _ => .refl) s
  have expr? := fun e? : Option Expr => option_rel_of_refl (R := ReflGen R) (fun _ => .refl) e?
  have stmt? := fun s? : Option Stmt => option_rel_of_refl unchanged s?
  cases differ with
  | declInit changed => exact .decl ⟨rfl, rfl, rfl, .some (.single changed)⟩
  | expr changed => exact .expr (.single changed)
  | branchCond changed => exact .branch (.single changed) (unchanged _) (stmt? _)
  | forCond changed => exact .forLoop (stmt? _) (.some (.single changed)) (expr? _) (unchanged _)
  | forStep changed => exact .forLoop (stmt? _) (expr? _) (.some (.single changed)) (unchanged _)
  | whileCond changed => exact .whileLoop (.single changed) (unchanged _)
  | selector changed => exact .switch (.single changed) (alikeCases_of_refl (fun _ => .refl) _)
  | retValue changed => exact .ret (.some (.single changed))

theorem Stmt.Inside.alike {s s' : Stmt} (differ : Inside (AtExpr R) s s') :
    s.Alike (ReflGen R) s' := by
  have unchanged := fun s : Stmt => Stmt.Alike.of_refl (R := ReflGen R) (fun _ => .refl) s
  have expr? := fun e? : Option Expr => option_rel_of_refl (R := ReflGen R) (fun _ => .refl) e?
  have stmt? := fun s? : Option Stmt => option_rel_of_refl unchanged s?
  induction differ with
  | here changed => exact changed.alike
  | block _ inner => exact .block (forall₂_at_member unchanged _ inner _)
  | branchTrue _ inner => exact .branch .refl inner (stmt? _)
  | branchFalse _ inner => exact .branch .refl (unchanged _) (.some inner)
  | forInit _ inner => exact .forLoop (.some inner) (expr? _) (expr? _) (unchanged _)
  | forBody _ inner => exact .forLoop (stmt? _) (expr? _) (expr? _) inner
  | whileBody _ inner => exact .whileLoop .refl inner
  | case _ inner =>
      have cases : ∀ one : Case, one.Alike (ReflGen R) one := fun one => by
        cases one
        exact .mk (alikeList_of_refl (fun _ => .refl) _)
      exact .switch .refl
        (forall₂_at_member cases _ (.mk (forall₂_at_member unchanged _ inner _)) _)

theorem Decl.AtExpr.alike {decl decl' : Decl} (differ : AtExpr R decl decl') :
    decl.Alike (ReflGen R) decl' := by
  cases differ with
  | globalInit changed => exact .global ⟨rfl, rfl, rfl, .some (.single changed)⟩
  | body changed =>
      cases changed with
      | function within =>
          rcases within with ⟨before, s, s', behind, split, split', inner⟩
          refine .function ⟨⟨rfl, rfl, rfl⟩, ?_⟩
          rw [split]
          show List.Forall₂ _ _ _
          rw [split']
          exact forall₂_at_member (Stmt.Alike.of_refl fun _ => .refl) _ inner.alike _

theorem Shader.AtDecl.alike {shader shader' : Shader}
    (differ : AtDecl (Decl.AtExpr R) shader shader') : shader.Alike (ReflGen R) shader' := by
  rcases differ with ⟨before, decl, decl', behind, split, rfl, changed⟩
  refine ⟨rfl, ?_⟩
  rw [split]
  exact forall₂_at_member (Decl.Alike.of_refl fun _ => .refl) _ changed.alike _

/-- Where no two fields have one name, a field is found by its own. -/
theorem StructDecl.ty_field?_eq_some_iff {decl : StructDecl} (apart : (decl.fields.map Field.name).Nodup)
    {name : String} {ty : Ty} :
    (decl.field? name).map Field.ty = some ty ↔ (ty, name) ∈ decl.fields.map Field.shape := by
  rw [Option.map_eq_some_iff, List.mem_map]
  constructor
  · rintro ⟨field, isField, rfl⟩
    have named := List.find?_some isField
    exact ⟨field, List.mem_of_find?_eq_some isField, Prod.ext rfl (beq_iff_eq.mp named)⟩
  · rintro ⟨field, listed, same⟩
    cases same
    have isFound : (decl.field? field.name).isSome :=
      List.find?_isSome.mpr ⟨field, listed, beq_self_eq_true _⟩
    rcases Option.isSome_iff_exists.mp isFound with ⟨found, isField⟩
    have named := List.find?_some isField
    have same : found = field := List.inj_on_of_nodup_map apart (List.mem_of_find?_eq_some isField)
      listed (beq_iff_eq.mp named)
    exact ⟨found, isField, congrArg Field.ty same⟩

end Whittle
