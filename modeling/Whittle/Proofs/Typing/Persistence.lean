import Whittle.Proofs.Syntax.Mapping
import Whittle.Proofs.Typing.Congruence
import Whittle.Proofs.Typing.Hosting

namespace Whittle
namespace Check
namespace Context

/-!
# Relations between contexts that persist

An edit leaves code as it is, but for its expressions, and puts it into another
context.  Whether the code is still accepted is settled by a relation between the
context before and the one afterwards.  The relation has to persist through the
code, to leave free what was free, and to know the types that the code declares.
What remains to be shown is that each expression keeps its type under it.
-/

/-- The variables that these statements themselves declare have types that fit. -/
def FitVars (fits : Ty → Prop) (within : List Stmt) : Prop :=
  ∀ s ∈ within, ∀ var, s.declared? = some var → fits var.ty

/-- A relation between contexts that holds within code and behind it if it holds in
front, where the types of what is declared fit. -/
structure Persistent (fits : Ty → Prop) (Rel : Context → Context → Prop) : Prop where
  hasSwitch : ∀ {ctx ctx'}, Rel ctx ctx' → ctx.version.hasSwitch → ctx'.version.hasSwitch
  returnTy : ∀ {ctx ctx'}, Rel ctx ctx' → ctx'.returnTy = ctx.returnTy
  loops : ∀ {ctx ctx'}, Rel ctx ctx' → ctx'.loops = ctx.loops
  switches : ∀ {ctx ctx'}, Rel ctx ctx' → ctx'.switches = ctx.switches
  free : ∀ {ctx ctx'} {name : String}, Rel ctx ctx' → ctx.CanDeclare name → ctx'.CanDeclare name
  knows : ∀ {ctx ctx'} {ty : Ty} {voidAllowed : Bool}, Rel ctx ctx' → fits ty →
    ctx.Knows ty voidAllowed → ctx'.Knows ty voidAllowed
  opened : ∀ {ctx ctx'}, Rel ctx ctx' → Rel ctx.opened ctx'.opened
  inLoop : ∀ {ctx ctx'}, Rel ctx ctx' → Rel ctx.inLoop ctx'.inLoop
  inSwitch : ∀ {ctx ctx'}, Rel ctx ctx' → Rel ctx.inSwitch ctx'.inSwitch
  declared : ∀ {ctx ctx'} (name : String) {binding : Binding}, Rel ctx ctx' → fits binding.ty →
    Rel (ctx.declared name binding) (ctx'.declared name binding)

/-- Typed expressions at these places keep their types when they are changed, wherever the
relation leads. -/
def Carries (Rel : Context → Context → Prop) (change : Expr → Expr) (all : List Placed) : Prop :=
  ∀ one ∈ all, ∀ ctx', Rel one.ctx ctx' → (one.ctx.typeOf one.e).isSome →
    ctx'.typeOf (change one.e) = one.ctx.typeOf one.e

/-- The second place is one to which the relation leads from the first, with the expression
changed. -/
structure Placed.Becomes (Rel : Context → Context → Prop) (change : Expr → Expr)
    (one other : Placed) : Prop where
  ctx : Rel one.ctx other.ctx
  e : other.e = change one.e

variable {Rel : Context → Context → Prop} {change : Expr → Expr} {fits : Ty → Prop}
  {ctx ctx' : Context}

theorem carries_append {first second : List Placed} :
    Carries Rel change (first ++ second) ↔ Carries Rel change first ∧ Carries Rel change second :=
  List.forall_mem_append

theorem becomes_placedOption (rel : Rel ctx ctx') (e? : Option Expr) :
    List.Forall₂ (Placed.Becomes Rel change) (ctx.placedOption e?)
      (ctx'.placedOption (e?.map change)) := by
  cases e? with
  | none => exact .nil
  | some e => exact .cons ⟨rel, rfl⟩ .nil

namespace Carries

theorem typeOf_eq {e : Expr} {ty : Ty} {all : List Placed} (carries : Carries Rel change all)
    (rel : Rel ctx ctx') (listed : ⟨ctx, e⟩ ∈ all) (isTy : ctx.typeOf e = some ty) :
    ctx'.typeOf (change e) = some ty :=
  (carries _ listed ctx' rel (Option.isSome_of_eq_some isTy)).trans isTy

theorem typeOf_isSome {e : Expr} {all : List Placed} (carries : Carries Rel change all)
    (rel : Rel ctx ctx') (listed : ⟨ctx, e⟩ ∈ all) (typed : (ctx.typeOf e).isSome) :
    (ctx'.typeOf (change e)).isSome := by
  rw [carries _ listed ctx' rel typed]
  exact typed

theorem tail {one : Placed} {rest : List Placed} (carries : Carries Rel change (one :: rest)) :
    Carries Rel change rest :=
  fun other listed => carries other (List.mem_cons_of_mem _ listed)

theorem forall_typeOf {e? : Option Expr} {ty : Ty}
    (carries : Carries Rel change (ctx.placedOption e?)) (rel : Rel ctx ctx')
    (typed : ∀ e ∈ e?, ctx.typeOf e = some ty) :
    ∀ e ∈ e?.map change, ctx'.typeOf e = some ty := by
  cases e? with
  | none => exact fun _ listed => nomatch listed
  | some e =>
      intro e' isChanged
      cases isChanged
      exact carries.typeOf_eq rel List.mem_cons_self (typed e rfl)

end Carries

namespace Persistent

theorem behindVar (persistent : Persistent fits Rel) (rel : Rel ctx ctx') {var : VarDecl}
    (fit : fits var.ty) :
    Rel (ctx.behindVar var) (ctx'.behindVar (var.mapExprs change)) :=
  persistent.declared _ rel fit

theorem behind (persistent : Persistent fits Rel) (rel : Rel ctx ctx') {s : Stmt}
    (fit : FitVars fits s.substmts) :
    Rel (ctx.behind s) (ctx'.behind (s.mapExprs change)) := by
  cases s with
  | decl id var => exact persistent.behindVar rel (fit _ List.mem_cons_self var rfl)
  | _ => exact rel

theorem behindList (persistent : Persistent fits Rel) (rel : Rel ctx ctx') {stmts : List Stmt}
    (fit : FitVars fits (Stmt.substmtsOfList stmts)) :
    Rel (ctx.behindList stmts) (ctx'.behindList (Stmt.mapExprsList change stmts)) := by
  induction stmts generalizing ctx ctx' with
  | nil => exact rel
  | cons s rest inductionHypothesis =>
      have fit := List.forall_mem_append.mp fit
      exact inductionHypothesis (persistent.behind rel fit.1) fit.2

theorem header (persistent : Persistent fits Rel) (rel : Rel ctx ctx') {init : Option Stmt}
    (fit : FitVars fits (Stmt.substmtsOfOption init)) :
    Rel (ctx.header init) (ctx'.header (Stmt.mapExprsOption change init)) := by
  cases init with
  | none => exact persistent.opened rel
  | some s =>
      have sameSort : (s.mapExprs change).isLoopInit = s.isLoopInit := by cases s <;> rfl
      simp only [Context.header, Stmt.mapExprsOption, sameSort]
      split
      · exact persistent.behind (persistent.opened rel) fit
      · exact persistent.opened rel

theorem acceptsVar (persistent : Persistent fits Rel) (rel : Rel ctx ctx') {var : VarDecl}
    (fit : fits var.ty)
    (carries : Carries Rel change (ctx.placedOption var.init)) (accepted : ctx.AcceptsVar var) :
    ctx'.AcceptsVar (var.mapExprs change) where
  known := persistent.knows rel fit accepted.known
  isSet isConst := by
    rw [VarDecl.mapExprs, Option.isSome_map]
    exact accepted.isSet isConst
  initialised := carries.forall_typeOf rel accepted.initialised
  free := persistent.free rel accepted.free

theorem acceptsReturn (persistent : Persistent fits Rel) (rel : Rel ctx ctx') {value : Option Expr}
    (carries : Carries Rel change (ctx.placedOption value)) (accepted : ctx.AcceptsReturn value) :
    ctx'.AcceptsReturn (value.map change) := by
  unfold AcceptsReturn at accepted ⊢
  rw [persistent.returnTy rel]
  cases isTy : ctx.returnTy with
  | none => simp [isTy] at accepted
  | some expected =>
      rw [isTy] at accepted
      cases value with
      | none => exact accepted
      | some e => exact ⟨accepted.1, carries.typeOf_eq rel List.mem_cons_self accepted.2⟩

mutual

/-- What is accepted is accepted, with its expressions changed, wherever the relation
leads. -/
theorem accepts (persistent : Persistent fits Rel) {ctx ctx' : Context} (rel : Rel ctx ctx')
    {s : Stmt} (fit : FitVars fits s.substmts)
    (carries : Carries Rel change (ctx.placed s)) (accepted : ctx.Accepts s) :
    ctx'.Accepts (s.mapExprs change) := by
  cases s with
  | decl id var =>
      have fit := fit _ List.mem_cons_self var rfl
      exact ⟨accepted.1, persistent.acceptsVar rel fit carries accepted.2⟩
  | expr id e => exact carries.typeOf_isSome rel List.mem_cons_self accepted
  | block id scope stmts =>
      have fit := (List.forall_mem_cons.mp fit).2
      exact persistent.acceptsList (persistent.opened rel) fit carries accepted
  | branch id cond whenTrue whenFalse =>
      have fit := List.forall_mem_append.mp (List.forall_mem_cons.mp fit).2
      have within := carries_append.mp carries.tail
      have inner := persistent.opened rel
      refine ⟨carries.typeOf_eq rel List.mem_cons_self accepted.1,
        persistent.accepts inner fit.1 within.1 accepted.2.1, ?_⟩
      cases whenFalse with
      | none => trivial
      | some s => exact persistent.accepts (s := s) inner fit.2 within.2 accepted.2.2
  | forLoop id init cond step body =>
      have fit := List.forall_mem_append.mp (List.forall_mem_cons.mp fit).2
      rw [placed_forLoop, carries_append, carries_append, carries_append] at carries
      rw [accepts_forLoop_iff] at accepted
      have header : Rel (ctx.header init) (ctx'.header (Stmt.mapExprsOption change init)) :=
        persistent.header rel fit.1
      rw [Stmt.mapExprs, accepts_forLoop_iff]
      refine ⟨?_, ?_, carries.2.1.forall_typeOf header accepted.2.2.1, ?_, ?_⟩
      · cases init with
        | none => exact fun _ listed => nomatch listed
        | some s =>
            intro s' isInit
            cases isInit
            have isLoopInit := accepted.1 s rfl
            cases s <;> first | rfl | cases isLoopInit
      · cases init with
        | none => trivial
        | some s =>
            exact persistent.accepts (s := s) (persistent.opened rel) fit.1 carries.1 accepted.2.1
      · cases step with
        | none => exact fun _ listed => nomatch listed
        | some e =>
            intro e' isStep
            cases isStep
            exact carries.2.2.1.typeOf_isSome header List.mem_cons_self (accepted.2.2.2.1 e rfl)
      · have inner := persistent.inLoop header
        have inBody := accepted.2.2.2.2
        cases body with
        | block id scope stmts =>
            exact persistent.acceptsList inner (List.forall_mem_cons.mp fit.2).2 carries.2.2.2 inBody
        | _ => exact persistent.accepts (persistent.opened inner) fit.2 carries.2.2.2 inBody
  | whileLoop id cond body =>
      have inner := persistent.opened (persistent.inLoop rel)
      exact ⟨carries.typeOf_eq rel List.mem_cons_self accepted.1,
        persistent.accepts inner (List.forall_mem_cons.mp fit).2 carries.tail accepted.2⟩
  | switch id selector cases =>
      have inner := persistent.opened (persistent.inSwitch rel)
      refine ⟨persistent.hasSwitch rel accepted.1,
        carries.typeOf_eq rel List.mem_cons_self accepted.2.1, ?_,
        persistent.acceptsCases inner (List.forall_mem_cons.mp fit).2 carries.tail accepted.2.2.2⟩
      have notEmpty := accepted.2.2.1
      cases cases with
      | nil => exact absurd rfl notEmpty
      | cons one rest => cases one; exact List.cons_ne_nil _ _
  | ret id value => exact persistent.acceptsReturn rel carries accepted
  | breakOut id =>
      unfold Accepts at accepted
      rw [← persistent.loops rel, ← persistent.switches rel] at accepted
      exact accepted
  | continueLoop id =>
      unfold Accepts at accepted
      rw [← persistent.loops rel] at accepted
      exact accepted
  | discard | empty => trivial

theorem acceptsList (persistent : Persistent fits Rel) {ctx ctx' : Context} (rel : Rel ctx ctx')
    {stmts : List Stmt}
    (fit : FitVars fits (Stmt.substmtsOfList stmts))
    (carries : Carries Rel change (ctx.placedList stmts)) (accepted : ctx.AcceptsList stmts) :
    ctx'.AcceptsList (Stmt.mapExprsList change stmts) := by
  match stmts with
  | [] => trivial
  | s :: rest =>
      have fit := List.forall_mem_append.mp fit
      have within := carries_append.mp carries
      exact ⟨persistent.accepts rel fit.1 within.1 accepted.1,
        persistent.acceptsList (persistent.behind rel fit.1) fit.2 within.2 accepted.2⟩

theorem acceptsCases (persistent : Persistent fits Rel) {ctx ctx' : Context} (rel : Rel ctx ctx')
    {before : List Label} {cases : List Case}
    (fit : FitVars fits (Stmt.substmtsOfCases cases))
    (carries : Carries Rel change (ctx.placedCases cases)) (accepted : ctx.AcceptsCases before cases) :
    ctx'.AcceptsCases before (Stmt.mapExprsCases change cases) := by
  match cases with
  | [] => trivial
  | .mk id label body :: rest =>
      have fit := List.forall_mem_append.mp fit
      have within := carries_append.mp carries
      exact ⟨accepted.1, persistent.acceptsList rel fit.1 within.1 accepted.2.1,
        persistent.acceptsCases (persistent.behindList rel fit.1) fit.2 within.2 accepted.2.2⟩

end

/-! ## Where expressions stand -/

mutual

/-- Each expression stands afterwards where the relation leads from where it stood. -/
theorem placed (persistent : Persistent fits Rel) {ctx ctx' : Context} (rel : Rel ctx ctx')
    {s : Stmt} (fit : FitVars fits s.substmts) :
    List.Forall₂ (Placed.Becomes Rel change) (ctx.placed s) (ctx'.placed (s.mapExprs change)) := by
  cases s with
  | decl id var => exact becomes_placedOption rel var.init
  | expr id e => exact .cons ⟨rel, rfl⟩ .nil
  | block id scope stmts =>
      exact persistent.placedList (persistent.opened rel) (List.forall_mem_cons.mp fit).2
  | branch id cond whenTrue whenFalse =>
      have fit := List.forall_mem_append.mp (List.forall_mem_cons.mp fit).2
      have inner := persistent.opened rel
      refine .cons ⟨rel, rfl⟩ (List.rel_append (persistent.placed inner fit.1) ?_)
      cases whenFalse with
      | none => exact .nil
      | some s => exact persistent.placed (s := s) inner fit.2
  | forLoop id init cond step body =>
      have fit := List.forall_mem_append.mp (List.forall_mem_cons.mp fit).2
      have header : Rel (ctx.header init) (ctx'.header (Stmt.mapExprsOption change init)) :=
        persistent.header rel fit.1
      rw [Stmt.mapExprs, placed_forLoop, placed_forLoop]
      refine List.rel_append ?_ (List.rel_append (becomes_placedOption header cond)
        (List.rel_append (becomes_placedOption header step) ?_))
      · cases init with
        | none => exact .nil
        | some s => exact persistent.placed (s := s) (persistent.opened rel) fit.1
      · have inner := persistent.inLoop header
        cases body with
        | block id scope stmts => exact persistent.placedList inner (List.forall_mem_cons.mp fit.2).2
        | _ => exact persistent.placed (persistent.opened inner) fit.2
  | whileLoop id cond body =>
      exact .cons ⟨rel, rfl⟩ (persistent.placed (persistent.opened (persistent.inLoop rel))
        (List.forall_mem_cons.mp fit).2)
  | switch id selector cases =>
      exact .cons ⟨rel, rfl⟩ (persistent.placedCases (persistent.opened (persistent.inSwitch rel))
        (List.forall_mem_cons.mp fit).2)
  | ret id value => exact becomes_placedOption rel value
  | breakOut | continueLoop | discard | empty => exact .nil

theorem placedList (persistent : Persistent fits Rel) {ctx ctx' : Context} (rel : Rel ctx ctx')
    {stmts : List Stmt}
    (fit : FitVars fits (Stmt.substmtsOfList stmts)) :
    List.Forall₂ (Placed.Becomes Rel change) (ctx.placedList stmts)
      (ctx'.placedList (Stmt.mapExprsList change stmts)) := by
  match stmts with
  | [] => exact .nil
  | s :: rest =>
      have fit := List.forall_mem_append.mp fit
      exact List.rel_append (persistent.placed rel fit.1)
        (persistent.placedList (persistent.behind rel fit.1) fit.2)

theorem placedCases (persistent : Persistent fits Rel) {ctx ctx' : Context} (rel : Rel ctx ctx')
    {cases : List Case}
    (fit : FitVars fits (Stmt.substmtsOfCases cases)) :
    List.Forall₂ (Placed.Becomes Rel change) (ctx.placedCases cases)
      (ctx'.placedCases (Stmt.mapExprsCases change cases)) := by
  match cases with
  | [] => exact .nil
  | .mk id label body :: rest =>
      have fit := List.forall_mem_append.mp fit
      exact List.rel_append (persistent.placedList rel fit.1)
        (persistent.placedCases (persistent.behindList rel fit.1) fit.2)

end

end Persistent

def FitDecl (fits : Ty → Prop) : Decl → Prop
  | .precision _ => True
  | .struct decl => ∀ field ∈ decl.fields, fits field.ty
  | .global var => fits var.ty
  | .function f => fits f.returnTy ∧ (∀ param ∈ f.params, fits param.ty) ∧
      FitVars fits (Stmt.substmtsOfList f.body.stmts)

theorem fitDecl_true (decl : Decl) : FitDecl (fun _ => True) decl := by
  cases decl with
  | precision | global => trivial
  | struct => exact fun _ _ => trivial
  | function => exact ⟨trivial, fun _ _ => trivial, fun _ _ _ _ => trivial⟩

/-- A persistent relation that holds behind declarations as well, under which every name
that was free at the top level is free. -/
structure PersistentTop (fits : Ty → Prop) (Rel : Context → Context → Prop)
    (change : Expr → Expr) : Prop extends Persistent fits Rel where
  hasInOutGlobals : ∀ {ctx ctx'}, Rel ctx ctx' →
    ctx.version.hasInOutGlobals → ctx'.version.hasInOutGlobals
  taken : ∀ {ctx ctx'}, Rel ctx ctx' → ctx'.taken ⊆ ctx.taken
  taking : ∀ {ctx ctx'} (name : String), Rel ctx ctx' → Rel (ctx.taking name) (ctx'.taking name)
  returning : ∀ {ctx ctx'} (ty : Ty), Rel ctx ctx' →
    Rel { ctx with returnTy := some ty } { ctx' with returnTy := some ty }
  behindDecl : ∀ {ctx ctx'} {decl : Decl}, Rel ctx ctx' → FitDecl fits decl → ctx.AcceptsDecl decl →
    Rel (ctx.behindDecl decl) (ctx'.behindDecl (decl.mapExprs change))

namespace PersistentTop

variable (persistent : PersistentTop fits Rel change)
include persistent

theorem behindParams (rel : Rel ctx ctx') {params : List Param}
    (fit : ∀ param ∈ params, fits param.ty) :
    Rel (ctx.behindParams params) (ctx'.behindParams params) := by
  induction params generalizing ctx ctx' with
  | nil => exact rel
  | cons param rest inductionHypothesis =>
      rw [List.forall_mem_cons] at fit
      exact inductionHypothesis (persistent.declared _ rel fit.1) fit.2

theorem acceptsParams (rel : Rel ctx ctx') {params : List Param}
    (fit : ∀ param ∈ params, fits param.ty) (accepted : ctx.AcceptsParams params) :
    ctx'.AcceptsParams params := by
  induction params generalizing ctx ctx' with
  | nil => trivial
  | cons param rest inductionHypothesis =>
      rw [List.forall_mem_cons] at fit
      exact ⟨persistent.knows rel fit.1 accepted.1,
        persistent.free rel accepted.2.1,
        inductionHypothesis (persistent.declared _ rel fit.1) fit.2 accepted.2.2⟩

theorem acceptsFields (rel : Rel ctx ctx') {before : List String} {fields : List Field}
    (fit : ∀ field ∈ fields, fits field.ty) (accepted : ctx.AcceptsFields before fields) :
    ctx'.AcceptsFields before fields := by
  induction fields generalizing before with
  | nil => trivial
  | cons field rest inductionHypothesis =>
      rw [List.forall_mem_cons] at fit
      exact ⟨persistent.knows rel fit.1 accepted.1, accepted.2.1,
        inductionHypothesis fit.2 accepted.2.2⟩

theorem inFunction (rel : Rel ctx ctx') {f : Function} (fit : ∀ param ∈ f.params, fits param.ty)
    (stmts : List Stmt) : Rel (ctx.inFunction f) (ctx'.inFunction (f.withStmts stmts)) :=
  persistent.returning _ (persistent.behindParams (persistent.opened rel) fit)

/-- An accepted declaration is accepted, with its expressions changed, where the relation
leads. -/
theorem acceptsDecl (rel : Rel ctx ctx') {decl : Decl} (fit : FitDecl fits decl)
    (carries : Carries Rel change (ctx.placedDecl decl)) (accepted : ctx.AcceptsDecl decl) :
    ctx'.AcceptsDecl (decl.mapExprs change) := by
  cases decl with
  | precision decl => exact accepted
  | struct decl =>
      exact ⟨fun isTaken => accepted.1 (persistent.taken rel isTaken), accepted.2.1,
        persistent.acceptsFields rel fit accepted.2.2⟩
  | global var =>
      refine ⟨fun isTaken => accepted.1 (persistent.taken rel isTaken), ⟨?_, fun isInput => ?_⟩,
        persistent.acceptsVar (persistent.taking var.name rel) fit carries accepted.2.2⟩
      · exact fun isExchanged => persistent.hasInOutGlobals rel (accepted.2.1.1 isExchanged)
      · rw [VarDecl.mapExprs, accepted.2.1.2 isInput]
        rfl
  | function f =>
      exact
        { notTaken := fun isTaken => accepted.notTaken (persistent.taken rel isTaken)
          notReserved := accepted.notReserved
          known := persistent.knows rel fit.1 accepted.known
          params := persistent.acceptsParams (persistent.opened rel) fit.2.1 accepted.params
          notEmpty := by
            have notEmpty := accepted.notEmpty
            rw [Function.withStmts]
            cases isBody : f.body.stmts with
            | nil => exact absurd isBody notEmpty
            | cons s rest => exact List.cons_ne_nil _ _
          body := persistent.acceptsList (persistent.inFunction rel fit.2.1 _) fit.2.2 carries
            accepted.body
          returns := fun notVoid => by
            rw [holdsReturn_eq (Stmt.alike_mapExprsList f.body.stmts)]
            exact accepted.returns notVoid }

/-- Accepted declarations are accepted, with their expressions changed, where the relation
leads, and there each expression stands where the relation leads from where it stood. -/
theorem acceptsDecls (rel : Rel ctx ctx') {decls : List Decl} (fit : ∀ decl ∈ decls, FitDecl fits decl)
    (carries : Carries Rel change (ctx.placedDecls decls)) (accepted : ctx.AcceptsDecls decls) :
    ctx'.AcceptsDecls (decls.map (Decl.mapExprs change)) ∧
      List.Forall₂ (Placed.Becomes Rel change) (ctx.placedDecls decls)
        (ctx'.placedDecls (decls.map (Decl.mapExprs change))) := by
  induction decls generalizing ctx ctx' with
  | nil => exact ⟨trivial, .nil⟩
  | cons decl rest inductionHypothesis =>
      rw [List.forall_mem_cons] at fit
      have within := carries_append.mp carries
      have behind := inductionHypothesis (persistent.behindDecl rel fit.1 accepted.1) fit.2 within.2
        accepted.2
      refine ⟨⟨persistent.acceptsDecl rel fit.1 within.1 accepted.1, behind.1⟩,
        List.rel_append ?_ behind.2⟩
      cases decl with
      | precision | struct => exact .nil
      | global var => exact becomes_placedOption (persistent.taking var.name rel) var.init
      | function f => exact persistent.placedList (persistent.inFunction rel fit.1.2.1 _) fit.1.2.2

end PersistentTop
end Context
end Check
end Whittle
