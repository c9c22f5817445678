import Whittle.Proofs.Scoping.ScopeStack

namespace Whittle
namespace Check

/-!
# A check in place

The end of a scope needs no action in a check that hands contexts on.  A check may also keep one
context and change it in place: it opens a scope and closes it again, it counts a loop or a
switch in and out, and it sets a return type and forgets it.  The two come to the same, on faulty
shaders as well, because everything is balanced.
-/

namespace Context

/-- The context behind the end of the innermost scope. -/
def closed (ctx : Context) : Context :=
  match ctx.outer with
  | [] => { ctx with inner := [] }
  | scope :: rest => { ctx with inner := scope, outer := rest }

/-- The context behind a loop. -/
def outOfLoop (ctx : Context) : Context :=
  { ctx with loops := ctx.loops - 1 }

def outOfSwitch (ctx : Context) : Context :=
  { ctx with switches := ctx.switches - 1 }

end Context

/-- Steps of a check that has one context and changes it. -/
abbrev InPlace := StateM (Context × Log)

namespace InPlace

/-- Look at the context and leave it alone. -/
def look (steps : Context → Checker Unit) : InPlace Unit :=
  fun (ctx, log) => ((), ctx, ((steps ctx).run log).2)

/-- Go on with the context that the steps end in. -/
def declaring (steps : Context → Checker Context) : InPlace Unit :=
  fun (ctx, log) => ((), (steps ctx).run log)

def change (f : Context → Context) : InPlace Unit :=
  fun (ctx, log) => ((), f ctx, log)

/-- Steps in a scope of their own. -/
def enclosed (steps : InPlace Unit) : InPlace Unit := do
  change Context.opened
  steps
  change Context.closed

mutual

/-- Check a statement.  What opens a scope or counts a loop or a switch undoes it at its end. -/
def stmt : Stmt → InPlace Unit
  | .block id scope stmts => do
      look fun _ => noteId id
      enclosed do
        look fun _ => noteId scope
        list stmts
  | .branch id cond whenTrue whenFalse => do
      look fun _ => noteId id
      look fun ctx => checkCondition ctx .branch cond
      enclosed (stmt whenTrue)
      option whenFalse
  | .forLoop id init cond step body => do
      look fun _ => noteId id
      enclosed do
        loopInit init
        look fun ctx => checkOptional (checkCondition ctx .loop) cond
        look fun ctx => checkOptional (fun e => do let _ ← infer ctx e) step
        change Context.inLoop
        match body with
        | .block bodyId scope stmts => do
            look fun _ => noteId bodyId
            look fun _ => noteId scope
            list stmts
        | s => enclosed (stmt s)
        change Context.outOfLoop
  | .whileLoop id cond body => do
      look fun _ => noteId id
      look fun ctx => checkCondition ctx .loop cond
      change Context.inLoop
      enclosed (stmt body)
      change Context.outOfLoop
  | .switch id selector cases => do
      look fun _ => noteId id
      look fun ctx => reportIf (!ctx.version.hasSwitch) id (.noSwitch ctx.version)
      look fun ctx => expect ctx selector selector.id (· != .int) .selectorType
      look fun _ => reportIf cases.isEmpty id .noCases
      change Context.inSwitch
      enclosed (arms [] cases)
      change Context.outOfSwitch
  | s => declaring fun ctx => checkStmt ctx s

def loopInit : Option Stmt → InPlace Unit
  | none => pure ()
  | some s => if s.isLoopInit then stmt s else look fun _ => report s.id .loopInit

def list : List Stmt → InPlace Unit
  | [] => pure ()
  | s :: rest => do
      stmt s
      list rest

/-- Check a statement that may be missing, in a scope of its own. -/
def option : Option Stmt → InPlace Unit
  | none => pure ()
  | some s => enclosed (stmt s)

/-- Check the cases of a switch. -/
def arms (before : List Label) : List Case → InPlace Unit
  | [] => pure ()
  | .mk id label body :: rest => do
      look fun _ => noteId id
      look fun _ => reportIf (before.contains label) id (.repeatedLabel label)
      list body
      arms (label :: before) rest

end

/-- Check a function.  Its return type is known between the beginning and the end of its scope. -/
def function (f : Function) : InPlace Unit := do
  look fun ctx => reportIf (ctx.taken.contains f.name) f.id (.taken f.name)
  look fun _ => reportIf (isReservedName f.name) f.id .reservedFunctionName
  look fun ctx => do let _ ← usable ctx f.id f.returnTy true
  enclosed do
    declaring fun ctx => checkParams ctx f.params
    change fun ctx => { ctx with returnTy := some f.returnTy }
    look fun _ => noteId f.body.id
    look fun _ => reportIf f.body.stmts.isEmpty f.id (.emptyBody f.name)
    list f.body.stmts
    look fun _ => reportIf (f.returnTy != .void && !f.body.holdsReturn) f.id (.returnMissing f.name)
    change fun ctx => { ctx with returnTy := none }
  change fun ctx => if ctx.taken.contains f.name then ctx
    else { ctx with taken := f.name :: ctx.taken, functions := f :: ctx.functions }

/-- Check a declaration.  Only a function opens scopes. -/
def decl : Decl → InPlace Unit
  | .function f => do
      look fun _ => noteId f.id
      function f
  | other => declaring fun ctx => checkDecl ctx other

def decls : List Decl → InPlace Unit
  | [] => pure ()
  | one :: rest => do
      decl one
      decls rest

/-- Steps in place find out what the other steps do, and leave the second context behind. -/
def Agrees {α : Type} (inPlace : InPlace Unit) (ctx after : Context) (steps : Checker α) : Prop :=
  ∀ log : Log, inPlace.run (ctx, log) = ((), after, (steps.run log).2)

section

variable {α β : Type} {ctx between after : Context} {inPlace rest : InPlace Unit}
  {steps : Checker α}

theorem agrees_pure (ctx : Context) (a : α) : Agrees (pure ()) ctx ctx (pure a) :=
  fun _ => rfl

theorem agrees_look (ctx : Context) (steps : Context → Checker Unit) :
    Agrees (look steps) ctx ctx (steps ctx) :=
  fun _ => rfl

theorem agrees_declaring {steps : Context → Checker Context} (ends : Ends (steps ctx) after) :
    Agrees (declaring steps) ctx after (steps ctx) := by
  intro log
  rw [← ends log]
  rfl

namespace Agrees

/-- The second steps begin where the first ones end. -/
theorem bind {a : α} {more : α → Checker β} (first : Agrees inPlace ctx between steps)
    (ends : Ends steps a) (behind : Agrees rest between after (more a)) :
    Agrees (do inPlace; rest) ctx after (steps >>= more) := by
  intro log
  have run : (do inPlace; rest : InPlace Unit).run (ctx, log) =
      rest.run (inPlace.run (ctx, log)).2 := rfl
  have run' : (steps >>= more).run log = (more (steps.run log).1).run (steps.run log).2 := rfl
  rw [run, run', first log, ends log, behind]

theorem andThen {more : Checker β} (first : Agrees inPlace ctx between steps)
    (behind : Agrees rest between after more) :
    Agrees (do inPlace; rest) ctx after (do let _ ← steps; more) := by
  intro log
  have run : (do inPlace; rest : InPlace Unit).run (ctx, log) =
      rest.run (inPlace.run (ctx, log)).2 := rfl
  have run' : (do let _ ← steps; more).run log = more.run (steps.run log).2 := rfl
  rw [run, run', first log, behind]

/-- What is found out does not depend on what the steps end in. -/
theorem andPure (agrees : Agrees inPlace ctx after steps) (b : β) :
    Agrees inPlace ctx after (do let _ ← steps; pure b) :=
  agrees

/-- A change is seen by what comes behind it. -/
theorem behindChange {f : Context → Context} (behind : Agrees rest (f ctx) after steps) :
    Agrees (do change f; rest) ctx after steps :=
  fun log => behind log

theorem andChange (agrees : Agrees inPlace ctx between steps) (f : Context → Context) :
    Agrees (do inPlace; change f) ctx (f between) steps := by
  intro log
  have run : (do inPlace; change f : InPlace Unit).run (ctx, log) =
      (change f).run (inPlace.run (ctx, log)).2 := rfl
  rw [run, agrees log]
  rfl

theorem run_eq {steps : Checker Context} (agrees : Agrees inPlace ctx after steps)
    (ends : Ends steps after) (log : Log) : inPlace.run (ctx, log) = ((), steps.run log) := by
  rw [agrees log, ← ends log]
  rfl

end Agrees

/-- The scope that is closed is the one that was opened. -/
theorem closed_eq_of_balances (balances : ctx.opened.Balances between) : between.closed = ctx := by
  rw [balances.around]
  rfl

/-- Behind a scope in which everything is balanced the context is as it was. -/
theorem agrees_enclosed (balances : ctx.opened.Balances between)
    (agrees : Agrees inPlace ctx.opened between steps) : Agrees (enclosed inPlace) ctx ctx steps := by
  have closes := agrees.andChange Context.closed
  rw [closed_eq_of_balances balances] at closes
  exact closes.behindChange

end

mutual

/-- Whatever it reports, a check in place closes the scopes that it opens, and counts down again
what it counts up. -/
theorem agrees_stmt (ctx : Context) (s : Stmt) :
    Agrees (stmt s) ctx (ctx.behind s) (checkStmt ctx s) := by
  cases s with
  | block id scope stmts =>
      unfold stmt checkStmt
      exact (agrees_look ctx _).andThen <| agrees_enclosed (ctx.opened.balances_behindList stmts)
        ((agrees_look _ _).andThen ((agrees_list ctx.opened stmts).andPure ctx))
  | branch id cond whenTrue whenFalse =>
      unfold stmt checkStmt
      have arm : ∀ s, Agrees (stmt s) ctx.opened (ctx.opened.behind s) (checkStmt ctx.opened s) →
          Agrees (enclosed (stmt s)) ctx ctx (checkStmt ctx.opened s) :=
        fun s => agrees_enclosed (ctx.opened.balances_behind s)
      refine (agrees_look ctx _).andThen <| (agrees_look ctx _).andThen <|
        (arm whenTrue (agrees_stmt ctx.opened whenTrue)).andThen ?_
      cases whenFalse with
      | none => exact agrees_pure ctx ctx
      | some s => exact (arm s (agrees_stmt ctx.opened s)).andPure ctx
  | forLoop id init cond step body =>
      unfold stmt checkStmt
      refine (agrees_look ctx _).andThen ?_
      have header := ctx.balances_header init
      have starts : Agrees (loopInit init) ctx.opened (ctx.header init)
          (checkLoopInit ctx.opened init) := by
        unfold loopInit checkLoopInit Context.header
        cases init with
        | none => exact agrees_pure _ _
        | some s =>
            dsimp only
            split
            · exact agrees_stmt ctx.opened s
            · exact (agrees_look ctx.opened _).andPure _
      -- The body of the loop shares the scope of its header if it is a block.
      cases body with
      | block bodyId scope stmts =>
          have inside := (ctx.header init).inLoop.balances_behindList stmts
          have balances : ctx.opened.Balances { ctx.header init with
              inner := ((ctx.header init).inLoop.behindList stmts).inner } :=
            header.trans ⟨rfl, inside.kept⟩
          refine agrees_enclosed balances ?_
          refine starts.bind (ends_checkLoopInit ctx init) <| (agrees_look _ _).andThen <|
            (agrees_look _ _).andThen <| .behindChange ?_
          have counts := ((agrees_look _ fun _ => noteId bodyId).andThen <|
            (agrees_look _ fun _ => noteId scope).andThen <|
            (agrees_list (ctx.header init).inLoop stmts).andPure ctx).andChange Context.outOfLoop
          rw [inside.around] at counts
          exact counts
      | _ =>
          refine agrees_enclosed header ?_
          refine starts.bind (ends_checkLoopInit ctx init) <| (agrees_look _ _).andThen <|
            (agrees_look _ _).andThen <| .behindChange ?_
          exact ((agrees_enclosed (Context.balances_behind _ _) (agrees_stmt _ _)).andChange
            Context.outOfLoop).andPure ctx
  | whileLoop id cond body =>
      unfold stmt checkStmt
      refine (agrees_look ctx _).andThen <| (agrees_look ctx _).andThen <| .behindChange ?_
      exact ((agrees_enclosed (ctx.inLoop.opened.balances_behind body)
        (agrees_stmt ctx.inLoop.opened body)).andChange _).andPure ctx
  | switch id selector cases =>
      unfold stmt checkStmt
      refine (agrees_look ctx _).andThen <| (agrees_look ctx _).andThen <|
        (agrees_look ctx _).andThen <| (agrees_look ctx _).andThen <| .behindChange ?_
      exact ((agrees_enclosed (ctx.inSwitch.opened.balances_behindCases cases)
        (agrees_arms ctx.inSwitch.opened [] cases)).andChange _).andPure ctx
  | decl | expr | ret | breakOut | continueLoop | discard | empty =>
      exact agrees_declaring (ends_checkStmt ctx _)

theorem agrees_list (ctx : Context) (stmts : List Stmt) :
    Agrees (list stmts) ctx (ctx.behindList stmts) (checkStmts ctx stmts) := by
  match stmts with
  | [] => exact agrees_pure ctx ctx
  | s :: rest => exact (agrees_stmt ctx s).bind (ends_checkStmt ctx s) (agrees_list _ rest)

theorem agrees_arms (ctx : Context) (before : List Label) (cases : List Case) :
    Agrees (arms before cases) ctx (ctx.behindCases cases) (checkCases ctx before cases) := by
  match cases with
  | [] => exact agrees_pure ctx ctx
  | .mk id label body :: rest =>
      exact (agrees_look ctx _).andThen <| (agrees_look ctx _).andThen <|
        (agrees_list ctx body).bind (ends_checkStmts ctx body)
          (agrees_arms _ (label :: before) rest)

end

variable {ctx : Context}

/-- A function that is checked in no other one leaves no return type behind. -/
theorem agrees_function (isBare : ctx.returnTy = none) (f : Function) :
    Agrees (function f) ctx (ctx.behindDecl (.function f)) (checkFunction ctx f) := by
  have params := ctx.opened.balances_behindParams f.params
  have inside := (ctx.inFunction f).balances_behindList f.body.stmts
  -- The return type is the only thing that the statements see and what is around does not.
  have balances : ctx.opened.Balances
      { (ctx.inFunction f).behindList f.body.stmts with returnTy := none } := by
    refine params.trans ⟨?_, inside.kept⟩
    have isBare' : (ctx.opened.behindParams f.params).returnTy = none :=
      params.returnTy_eq.trans isBare
    rw [inside.around, ← isBare']
    rfl
  unfold function checkFunction
  refine (agrees_look ctx _).andThen <| (agrees_look ctx _).andThen <|
    (agrees_look ctx _).andThen <|
    (agrees_enclosed balances ?_).andChange _
  refine (agrees_declaring (ends_checkParams ctx.opened f.params)).bind
    (ends_checkParams ctx.opened f.params) <| .behindChange <| (agrees_look _ _).andThen <|
    (agrees_look _ _).andThen <| (agrees_list (ctx.inFunction f) f.body.stmts).andThen ?_
  exact ((agrees_look _ _).andPure _).andChange _

theorem agrees_decl (isBare : ctx.returnTy = none) (d : Decl) :
    Agrees (decl d) ctx (ctx.behindDecl d) (checkDecl ctx d) := by
  cases d with
  | function f => exact (agrees_look ctx _).andThen (agrees_function isBare f)
  | precision | struct | global =>
      exact @agrees_declaring ctx _ (fun ctx => checkDecl ctx _) (ends_checkDecl ctx _)

theorem agrees_decls {version : Version} (isGlobal : ctx.IsGlobal version) (ds : List Decl) :
    Agrees (decls ds) ctx (ctx.behindDecls ds) (checkDecls ctx ds) := by
  induction ds generalizing ctx with
  | nil => exact agrees_pure ctx ctx
  | cons d rest inductionHypothesis =>
      exact (agrees_decl isGlobal.returnTy d).bind (ends_checkDecl ctx d)
        (inductionHypothesis (isGlobal.behindDecl d))

end InPlace

/-- A check that opens and closes scopes in place finds out what the check finds out that hands
contexts on.  Whatever it reports on the way, behind a statement as many scopes are open as in
front of it, with the same names in all but the innermost one, and as many loops and switches are
around; so in front of every declaration of a shader only the scope of the globals is open. -/
theorem balanced_inPlace :
    (∀ (ctx : Context) (log : Log) (s : Stmt), ∃ after : Context,
      (InPlace.stmt s).run (ctx, log) = ((), (checkStmt ctx s).run log) ∧
      ((checkStmt ctx s).run log).1 = after ∧ ctx.Balances after ∧
      after.scopes.length = ctx.scopes.length ∧ after.scopes.tail = ctx.scopes.tail ∧
      after.loops = ctx.loops ∧ after.switches = ctx.switches) ∧
    (∀ (shader : Shader) (version : Version) (n : Nat), ∃ atDecl : Context,
      (InPlace.decls (shader.decls.take n)).run (.initial version, .empty) =
        ((), (checkDecls (.initial version) (shader.decls.take n)).run .empty) ∧
      ((checkDecls (.initial version) (shader.decls.take n)).run .empty).1 = atDecl ∧
      atDecl.IsGlobal version) := by
  refine ⟨fun ctx log s => ?_, fun shader version n => ?_⟩
  · have balances := ctx.balances_behind s
    refine ⟨ctx.behind s, ?_, ends_checkStmt ctx s log, balances, balances.length_scopes,
      balances.tail_scopes, balances.loops_eq, balances.switches_eq⟩
    exact (InPlace.agrees_stmt ctx s).run_eq (ends_checkStmt ctx s) log
  · have isGlobal := Context.isGlobal_initial version
    have ends := ends_checkDecls (.initial version) (shader.decls.take n)
    exact ⟨_, (InPlace.agrees_decls isGlobal _).run_eq ends .empty, ends .empty,
      isGlobal.behindDecls _⟩

end Check
end Whittle
