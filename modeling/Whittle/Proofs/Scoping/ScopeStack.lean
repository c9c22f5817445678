import Whittle.Proofs.Typing.Slots

namespace Whittle
namespace Check

/-!
# Scopes that are opened and closed

A check hands on the context of what comes next.  Which one that is does not depend on what the
check reports on its way: behind a statement everything but the innermost scope is as it was in
front of it, and behind a declaration only the scope of the globals is open.
-/

/-- Whatever has been found out before, the steps end in `a`. -/
def Ends {α : Type} (steps : Checker α) (a : α) : Prop :=
  ∀ log : Log, (steps.run log).1 = a

namespace Ends

variable {α β : Type} {first : Checker α} {second : α → Checker β} {a : α} {b : β}

theorem pure (a : α) : Ends (Pure.pure a) a :=
  fun _ => rfl

/-- What the first steps end in may not matter. -/
theorem andThen (ends : ∀ a, Ends (second a) b) : Ends (first >>= second) b :=
  fun _ => ends _ _

theorem bind (ends : Ends first a) (ends' : Ends (second a) b) : Ends (first >>= second) b := by
  intro log
  have run : (first >>= second).run log = (second (first.run log).1).run (first.run log).2 := rfl
  rw [run, ends log]
  exact ends' _

end Ends

variable {ctx : Context}

theorem ends_declare (ctx : Context) (id : NodeId) (name : String) (binding : Binding) :
    Ends (declare ctx id name binding) (ctx.declared name binding) := by
  unfold declare Context.declared
  split
  · exact .andThen fun _ => .pure ctx
  · exact .andThen fun _ => .pure _

theorem ends_checkVar (ctx : Context) (var : VarDecl) :
    Ends (checkVar ctx var) (ctx.behindVar var) :=
  .andThen fun _ => .andThen fun _ => .andThen fun _ => ends_declare ctx var.id var.name _

/-- Behind a statement a name is declared if the statement is a declaration, whatever the check
has reported. -/
theorem ends_checkStmt (ctx : Context) (s : Stmt) : Ends (checkStmt ctx s) (ctx.behind s) := by
  cases s with
  | decl id var => exact .andThen fun _ => .andThen fun _ => .andThen fun _ => ends_checkVar ctx var
  | branch id cond whenTrue whenFalse =>
      unfold checkStmt
      refine .andThen fun _ => .andThen fun _ => .andThen fun _ => ?_
      cases whenFalse with
      | none => exact .pure ctx
      | some s => exact .andThen fun _ => .pure ctx
  | forLoop id init cond step body =>
      unfold checkStmt
      refine .andThen fun _ => .andThen fun _ => .andThen fun _ => .andThen fun _ => ?_
      split
      · exact .andThen fun _ => .andThen fun _ => .andThen fun _ => .pure ctx
      · exact .andThen fun _ => .pure ctx
  | switch id selector cases =>
      unfold checkStmt
      exact .andThen fun _ => .andThen fun _ => .andThen fun _ => .andThen fun _ =>
        .andThen fun _ => .pure ctx
  | block =>
      unfold checkStmt
      exact .andThen fun _ => .andThen fun _ => .andThen fun _ => .pure ctx
  | whileLoop =>
      unfold checkStmt
      exact .andThen fun _ => .andThen fun _ => .andThen fun _ => .pure ctx
  | expr | ret | breakOut | continueLoop =>
      unfold checkStmt
      exact .andThen fun _ => .andThen fun _ => .pure ctx
  | discard | empty =>
      unfold checkStmt
      exact .andThen fun _ => .pure ctx

theorem ends_checkLoopInit (ctx : Context) (init : Option Stmt) :
    Ends (checkLoopInit ctx.opened init) (ctx.header init) := by
  unfold checkLoopInit Context.header
  cases init with
  | none => exact .pure _
  | some s =>
      dsimp only
      split
      · exact ends_checkStmt ctx.opened s
      · exact .andThen fun _ => .pure _

theorem ends_checkStmts (ctx : Context) (stmts : List Stmt) :
    Ends (checkStmts ctx stmts) (ctx.behindList stmts) := by
  induction stmts generalizing ctx with
  | nil => exact .pure ctx
  | cons s rest inductionHypothesis =>
      exact (ends_checkStmt ctx s).bind (inductionHypothesis (ctx.behind s))

theorem ends_checkParams (ctx : Context) (params : List Param) :
    Ends (checkParams ctx params) (ctx.behindParams params) := by
  induction params generalizing ctx with
  | nil => exact .pure ctx
  | cons param rest inductionHypothesis =>
      exact .andThen fun _ => .andThen fun _ =>
        (ends_declare ctx param.id param.name _).bind (inductionHypothesis _)

theorem ends_checkDecl (ctx : Context) (decl : Decl) :
    Ends (checkDecl ctx decl) (ctx.behindDecl decl) := by
  refine .andThen fun _ => ?_
  cases decl with
  | precision => exact .andThen fun _ => .pure ctx
  | struct decl =>
      simp only [checkStruct, Context.behindDecl]
      split
      · exact .andThen fun _ => .pure ctx
      · exact .andThen fun _ => .andThen fun _ => .pure _
  | global var =>
      simp only [checkGlobal, Context.behindDecl]
      split
      · exact .andThen fun _ => .pure ctx
      · exact .andThen fun _ => ends_checkVar (ctx.taking var.name) var
  | function f =>
      exact .andThen fun _ => .andThen fun _ => .andThen fun _ => .andThen fun _ =>
        .andThen fun _ => .andThen fun _ => .andThen fun _ => .andThen fun _ => .pure _

theorem ends_checkDecls (ctx : Context) (decls : List Decl) :
    Ends (checkDecls ctx decls) (ctx.behindDecls decls) := by
  induction decls generalizing ctx with
  | nil => exact .pure ctx
  | cons decl rest inductionHypothesis =>
      exact (ends_checkDecl ctx decl).bind (inductionHypothesis (ctx.behindDecl decl))

namespace Context

/-- The open scopes from the inside to the outside. -/
def scopes (ctx : Context) : List Scope :=
  ctx.inner :: ctx.outer

/-- Of the second context the innermost scope may have more names in front of those of the first
one, and nothing else is different. -/
structure Balances (ctx after : Context) : Prop where
  around : after = { ctx with inner := after.inner }
  kept : ctx.inner <:+ after.inner

/-- Only the scope of the globals is open, with what every shader of the version has, and no
function, loop or switch is around. -/
structure IsGlobal (version : Version) (ctx : Context) : Prop where
  scopes : ctx.scopes = [ctx.inner]
  predefined : Context.predefined version <:+ ctx.inner
  returnTy : ctx.returnTy = none
  loops : ctx.loops = 0
  switches : ctx.switches = 0

namespace Balances

variable {between after : Context}

theorem refl (ctx : Context) : ctx.Balances ctx :=
  ⟨rfl, List.suffix_refl _⟩

theorem trans (first : ctx.Balances between) (second : between.Balances after) :
    ctx.Balances after where
  around := by rw [second.around, first.around]
  kept := first.kept.trans second.kept

theorem length_scopes (balances : ctx.Balances after) :
    after.scopes.length = ctx.scopes.length := by
  rw [balances.around]
  rfl

theorem tail_scopes (balances : ctx.Balances after) : after.scopes.tail = ctx.scopes.tail := by
  rw [balances.around]
  rfl

theorem loops_eq (balances : ctx.Balances after) : after.loops = ctx.loops := by
  rw [balances.around]

theorem switches_eq (balances : ctx.Balances after) : after.switches = ctx.switches := by
  rw [balances.around]

theorem returnTy_eq (balances : ctx.Balances after) : after.returnTy = ctx.returnTy := by
  rw [balances.around]

end Balances

theorem balances_declared (ctx : Context) (name : String) (binding : Binding) :
    ctx.Balances (ctx.declared name binding) := by
  unfold declared
  split
  · exact .refl ctx
  · exact ⟨rfl, List.suffix_cons _ _⟩

theorem balances_behind (ctx : Context) (s : Stmt) : ctx.Balances (ctx.behind s) := by
  cases s with
  | decl id var => exact ctx.balances_declared _ _
  | _ => exact .refl ctx

theorem balances_behindList (ctx : Context) (stmts : List Stmt) :
    ctx.Balances (ctx.behindList stmts) := by
  induction stmts generalizing ctx with
  | nil => exact .refl ctx
  | cons s rest inductionHypothesis => exact (ctx.balances_behind s).trans (inductionHypothesis _)

theorem balances_behindCases (ctx : Context) (cases : List Case) :
    ctx.Balances (ctx.behindCases cases) := by
  induction cases generalizing ctx with
  | nil => exact .refl ctx
  | cons one rest inductionHypothesis =>
      cases one with
      | mk id label body => exact (ctx.balances_behindList body).trans (inductionHypothesis _)

theorem balances_header (ctx : Context) (init : Option Stmt) :
    ctx.opened.Balances (ctx.header init) := by
  unfold header
  cases init with
  | none => exact .refl _
  | some s =>
      dsimp only
      split
      · exact ctx.opened.balances_behind s
      · exact .refl _

theorem balances_behindParams (ctx : Context) (params : List Param) :
    ctx.Balances (ctx.behindParams params) := by
  induction params generalizing ctx with
  | nil => exact .refl ctx
  | cons param rest inductionHypothesis =>
      exact (ctx.balances_declared _ _).trans (inductionHypothesis _)

theorem Balances.isGlobal {version : Version} {after : Context} (balances : ctx.Balances after)
    (isGlobal : ctx.IsGlobal version) : after.IsGlobal version where
  scopes := by
    have tail : after.outer = ctx.outer := balances.tail_scopes
    rw [scopes, tail, List.tail_eq_of_cons_eq isGlobal.scopes]
  predefined := isGlobal.predefined.trans balances.kept
  returnTy := balances.returnTy_eq.trans isGlobal.returnTy
  loops := balances.loops_eq.trans isGlobal.loops
  switches := balances.switches_eq.trans isGlobal.switches

theorem isGlobal_initial (version : Version) : (initial version).IsGlobal version :=
  ⟨rfl, List.suffix_refl _, rfl, rfl, rfl⟩

/-- A declaration adds to the globals or to the functions and structs. -/
theorem IsGlobal.behindDecl {version : Version} (isGlobal : ctx.IsGlobal version) (decl : Decl) :
    (ctx.behindDecl decl).IsGlobal version := by
  have taking : ∀ name, (ctx.taking name).IsGlobal version :=
    fun _ => ⟨isGlobal.scopes, isGlobal.predefined, isGlobal.returnTy, isGlobal.loops,
      isGlobal.switches⟩
  unfold Context.behindDecl
  cases decl with
  | precision => exact isGlobal
  | global var =>
      dsimp only
      split
      · exact isGlobal
      · exact ((ctx.taking var.name).balances_declared _ _).isGlobal (taking var.name)
  | struct decl | function f =>
      dsimp only
      split
      · exact isGlobal
      · exact ⟨isGlobal.scopes, isGlobal.predefined, isGlobal.returnTy, isGlobal.loops,
          isGlobal.switches⟩

theorem IsGlobal.behindDecls {version : Version} (isGlobal : ctx.IsGlobal version)
    (decls : List Decl) : (ctx.behindDecls decls).IsGlobal version := by
  induction decls generalizing ctx with
  | nil => exact isGlobal
  | cons decl rest inductionHypothesis => exact inductionHypothesis (isGlobal.behindDecl decl)

end Context

end Check
end Whittle
