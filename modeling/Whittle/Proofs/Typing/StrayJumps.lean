import Whittle.Proofs.Scoping.ScopeStack
import Whittle.Proofs.Typing.OperationFaults

namespace Whittle

open Reduction (Jumps)

namespace Check

/-!
# Jumps without a loop around them

The check and the reductions count jumps in ways of their own.  The check goes down to a jump and
asks how many loops and switches it has come through; the reductions come up from the jumps and
take those away that a loop or switch catches.  Both find the same jumps.
-/

/-- How many of the problems are a `break` or a `continue` with nothing around it to leave. -/
def strayJumps (problems : List Problem) : Jumps where
  breaks := (problems.map Problem.fault).count .breakOutside
  continues := (problems.map Problem.fault).count .continueOutside

theorem strayJumps_append (first second : List Problem) :
    strayJumps (first ++ second) = (strayJumps first).add (strayJumps second) := by
  simp only [strayJumps, Jumps.add, List.map_append, List.count_append]

/-- Whatever has been found out before, the steps report these stray jumps, next to other
problems. -/
def Finds {α : Type} (jumps : Jumps) (steps : Checker α) : Prop :=
  ∀ log : Log, ∃ found, (steps.run log).2.problems = log.problems ++ found ∧
    strayJumps found = jumps

/-- The steps report no stray jump. -/
abbrev Quiet {α : Type} (steps : Checker α) : Prop :=
  Finds .none steps

end Check

namespace Reduction.Jumps

theorem none_add (jumps : Jumps) : none.add jumps = jumps := by
  simp only [add, none, Nat.zero_add]

end Reduction.Jumps

namespace Check

section

variable {α β γ : Type} {jumps jumps' : Jumps}

namespace Finds

variable {first : Checker α} {second : α → Checker β}

theorem pure (a : α) : Quiet (Pure.pure a) :=
  fun log => ⟨[], (List.append_nil log.problems).symm, rfl⟩

/-- The second steps are looked at behind what the first ones end in. -/
theorem bindAt (finds : Finds jumps first)
    (behind : ∀ log : Log, Finds jumps' (second (first.run log).1)) :
    Finds (jumps.add jumps') (first >>= second) := by
  intro log
  rcases finds log with ⟨found, isFound, counted⟩
  rcases behind log (first.run log).2 with ⟨found', isFound', counted'⟩
  refine ⟨found ++ found', ?_, ?_⟩
  · change ((second (first.run log).1).run (first.run log).2).2.problems = _
    rw [isFound', isFound, List.append_assoc]
  · rw [strayJumps_append, counted, counted']

theorem bind (finds : Finds jumps first) (behind : ∀ a, Finds jumps' (second a)) :
    Finds (jumps.add jumps') (first >>= second) :=
  finds.bindAt fun _ => behind _

theorem bindEnds {a : α} (finds : Finds jumps first) (ends : Ends first a)
    (behind : Finds jumps' (second a)) : Finds (jumps.add jumps') (first >>= second) :=
  finds.bindAt fun log => (ends log).symm ▸ behind

/-- What is found in front of a value is all that is found. -/
theorem andPure (finds : Finds jumps first) (b : β) :
    Finds jumps (first >>= fun _ => Pure.pure b) :=
  finds.bind fun _ => .pure b

/-- Only what is behind quiet steps may find something. -/
theorem behind (quiet : Quiet first) (behind : ∀ a, Finds jumps (second a)) :
    Finds jumps (first >>= second) := by
  have finds := bind quiet behind
  rwa [Jumps.none_add] at finds

end Finds

/-- What changes other parts of the log is quiet. -/
theorem quiet_modify {f : Log → Log} (keeps : ∀ log, (f log).problems = log.problems) :
    Quiet (modify f : Checker Unit) :=
  fun log => ⟨[], by rw [List.append_nil]; exact keeps log, rfl⟩

/-- Whether the fault is that of a stray jump. -/
def Fault.isStray : Fault → Bool
  | .breakOutside | .continueOutside => true
  | _ => false

theorem strayJumps_singleton {fault : Fault} (node : NodeId) (other : fault.isStray = false) :
    strayJumps [⟨fault, some node⟩] = .none := by
  cases fault with
  | breakOutside => cases other
  | continueOutside => cases other
  | _ => rfl

theorem quiet_report (node : NodeId) {fault : Fault} (other : fault.isStray = false) :
    Quiet (report node fault) :=
  fun _ => ⟨_, rfl, strayJumps_singleton node other⟩

theorem finds_reportIf (violated : Bool) (node : NodeId) (fault : Fault) :
    Finds (if violated then strayJumps [⟨fault, some node⟩] else .none)
      (reportIf violated node fault) := by
  cases violated with
  | true => exact fun _ => ⟨_, rfl, rfl⟩
  | false => exact .pure ()

theorem quiet_reportIf (violated : Bool) (node : NodeId) {fault : Fault}
    (other : fault.isStray = false) : Quiet (reportIf violated node fault) := by
  cases violated with
  | true => exact quiet_report node other
  | false => exact .pure ()

theorem quiet_noteId (id : NodeId) : Quiet (noteId id) :=
  fun log => (Finds.behind (quiet_reportIf (log.seen.contains id) id rfl) fun _ =>
    quiet_modify fun _ => rfl) log

theorem quiet_settle (node : NodeId) {result : Except Fault Ty} (isOf : OfOperation result) :
    Quiet (settle node result) := by
  cases result with
  | ok ty => exact .pure (some ty)
  | error fault =>
      have other : fault.isStray = false := by
        have isOf := isOf fault rfl
        cases fault with
        | breakOutside => cases isOf
        | continueOutside => cases isOf
        | _ => rfl
      exact (quiet_report node other).andPure none

theorem quiet_recorded (id : NodeId) {work : Checker (Option Ty)} (quiet : Quiet work) :
    Quiet (recorded id work) :=
  .behind (quiet_noteId id) fun _ => .behind quiet fun ty? => by
    cases ty? with
    | none => exact .pure none
    | some ty => exact .behind (quiet_modify fun _ => rfl) fun _ => .pure (some ty)

theorem quiet_whenSome {part : Checker (Option α)} {next : α → Checker (Option β)}
    (quiet : Quiet part) (behind : ∀ a, Quiet (next a)) : Quiet (whenSome part next) :=
  .behind quiet fun a? => by
    cases a? with
    | none => exact .pure none
    | some a => exact behind a

theorem quiet_whenBoth {first : Checker (Option α)} {second : Checker (Option β)}
    {next : α → β → Checker (Option γ)} (quiet : Quiet first) (quiet' : Quiet second)
    (behind : ∀ a b, Quiet (next a b)) : Quiet (whenBoth first second next) :=
  .behind quiet fun a? => .behind quiet' fun b? => by
    cases a? with
    | none => exact .pure none
    | some a =>
        cases b? with
        | none => exact .pure none
        | some b => exact behind a b

end

theorem quiet_writable (ctx : Context) (e : Expr) : Quiet (writable ctx e) := by
  intro log
  rw [run_writable]
  cases unwritable? ctx log.types e with
  | none => exact Finds.pure true log
  | some node => exact (quiet_report node rfl).andPure false log

theorem quiet_settleUnary (ctx : Context) (id : NodeId) (op : UnaryOp) (operand : Expr)
    (operandTy : Ty) : Quiet (settleUnary ctx id op operand operandTy) := by
  refine quiet_whenSome (quiet_settle id (ofOperation_unary op operandTy)) fun ty => ?_
  split
  · refine .behind (quiet_writable ctx operand) fun isWritable => ?_
    split
    · exact .pure (some ty)
    · exact .pure none
  · exact .pure (some ty)

theorem quiet_settleAssign (ctx : Context) (id : NodeId) (op : AssignOp) (target : Expr)
    (targetTy valueTy : Ty) : Quiet (settleAssign ctx id op target targetTy valueTy) := by
  refine .behind (quiet_writable ctx target) fun isWritable => ?_
  split
  · exact quiet_settle id (ofOperation_assign op targetTy valueTy)
  · exact .pure none

theorem quiet_choice (id condId : NodeId) (cond whenTrue whenFalse : Ty) :
    Quiet (choice id condId cond whenTrue whenFalse) := by
  unfold choice
  split
  · exact quiet_settle condId (.error rfl)
  · split
    · exact quiet_settle id (.error rfl)
    · exact .pure (some whenTrue)

theorem quiet_indexed (id positionId : NodeId) (base position : Ty) :
    Quiet (indexed id positionId base position) := by
  unfold indexed
  split
  · exact quiet_settle positionId (.error rfl)
  · split
    · exact .pure (some _)
    · exact quiet_settle id (.error rfl)

mutual

/-- No jump stands in an expression. -/
theorem quiet_infer (ctx : Context) (e : Expr) : Quiet (infer ctx e) := by
  cases e with
  | int id | float id | bool id => exact quiet_recorded id (.pure (some _))
  | var id name =>
      refine quiet_recorded id ?_
      split
      · exact .pure (some _)
      · exact quiet_settle id (.error rfl)
  | paren id inner => exact quiet_recorded id (quiet_infer ctx inner)
  | unary id op operand =>
      exact quiet_recorded id <| quiet_whenSome (quiet_infer ctx operand) fun operandTy =>
        quiet_settleUnary ctx id op operand operandTy
  | binary id op lhs rhs =>
      exact quiet_recorded id <| quiet_whenBoth (quiet_infer ctx lhs) (quiet_infer ctx rhs)
        fun lhsTy rhsTy => quiet_settle id (ofOperation_binary op lhsTy rhsTy)
  | assign id op target value =>
      exact quiet_recorded id <| quiet_whenBoth (quiet_infer ctx target) (quiet_infer ctx value)
        fun targetTy valueTy => quiet_settleAssign ctx id op target targetTy valueTy
  | ternary id cond whenTrue whenFalse =>
      exact quiet_recorded id <| quiet_whenBoth (quiet_infer ctx cond)
        (quiet_whenBoth (quiet_infer ctx whenTrue) (quiet_infer ctx whenFalse) fun _ _ => .pure _)
        fun condTy tys => quiet_choice id cond.id condTy tys.1 tys.2
  | call id callee args =>
      exact quiet_recorded id <| quiet_whenSome (quiet_inferList ctx args) fun argTys =>
        quiet_settle id (ofOperation_call ctx callee argTys)
  | member id base field =>
      exact quiet_recorded id <| quiet_whenSome (quiet_infer ctx base) fun baseTy =>
        quiet_settle id (ofOperation_member ctx baseTy field)
  | index id base position =>
      exact quiet_recorded id <| quiet_whenBoth (quiet_infer ctx base) (quiet_infer ctx position)
        fun baseTy positionTy => quiet_indexed id position.id baseTy positionTy

theorem quiet_inferList (ctx : Context) (es : List Expr) : Quiet (inferList ctx es) := by
  match es with
  | [] => exact .pure (some [])
  | e :: rest =>
      exact quiet_whenBoth (quiet_infer ctx e) (quiet_inferList ctx rest) fun ty tys =>
        .pure (some (ty :: tys))

end

theorem quiet_expect (ctx : Context) (e : Expr) (node : NodeId) (wrong : Ty → Bool)
    {fault : Ty → Fault} (other : ∀ ty, (fault ty).isStray = false) :
    Quiet (expect ctx e node wrong fault) :=
  .behind (quiet_infer ctx e) fun ty? => by
    cases ty? with
    | none => exact .pure ()
    | some ty => exact quiet_reportIf (wrong ty) node (other ty)

theorem quiet_checkOptional {check : Expr → Checker Unit} (quiet : ∀ e, Quiet (check e))
    (e? : Option Expr) : Quiet (checkOptional check e?) := by
  cases e? with
  | none => exact .pure ()
  | some e => exact quiet e

theorem quiet_checkCondition (ctx : Context) (condition : Condition) (e : Expr) :
    Quiet (checkCondition ctx condition e) :=
  quiet_expect ctx e e.id _ fun _ => rfl

/-! ## Variables and returns -/

theorem quiet_usable (ctx : Context) (id : NodeId) (ty : Ty) (voidAllowed : Bool) :
    Quiet (usable ctx id ty voidAllowed) := by
  cases ty with
  | scalar | vector => exact .pure true
  | void =>
      cases voidAllowed with
      | true => exact .pure true
      | false => exact (quiet_report id rfl).andPure false
  | struct name =>
      rw [usable]
      split
      · exact .pure true
      · exact (quiet_report id rfl).andPure false

theorem quiet_declare (ctx : Context) (id : NodeId) (name : String) (binding : Binding) :
    Quiet (declare ctx id name binding) := by
  unfold declare
  split
  · exact (quiet_report id rfl).andPure ctx
  · exact (quiet_reportIf _ id rfl).andPure _

theorem quiet_checkVar (ctx : Context) (var : VarDecl) : Quiet (checkVar ctx var) :=
  .behind (quiet_usable ctx var.id var.ty false) fun _ =>
  .behind (quiet_reportIf _ var.id rfl) fun _ =>
  .behind (quiet_checkOptional (fun init => quiet_expect ctx init init.id _ fun _ => rfl) var.init)
    fun _ => quiet_declare ctx var.id var.name _

theorem quiet_checkReturn (ctx : Context) (id : NodeId) (value : Option Expr) :
    Quiet (checkReturn ctx id value) := by
  unfold checkReturn
  split
  · exact quiet_report id rfl
  · exact quiet_reportIf _ id rfl
  · split
    · exact quiet_expect ctx _ id _ fun _ => rfl
    · exact quiet_expect ctx _ _ _ fun _ => rfl

namespace Context

/-- Which jumps of a piece of program are stray in a context. -/
def stray (ctx : Context) (jumps : Jumps) : Jumps where
  breaks := if ctx.loops == 0 && ctx.switches == 0 then jumps.breaks else 0
  continues := if ctx.loops == 0 then jumps.continues else 0

variable (ctx : Context) (jumps jumps' : Jumps)

theorem stray_none : ctx.stray .none = .none := by
  simp [stray, Jumps.none]

theorem stray_add : ctx.stray (jumps.add jumps') = (ctx.stray jumps).add (ctx.stray jumps') := by
  unfold stray Jumps.add
  congr 1 <;> split <;> rfl

theorem stray_break (node : NodeId) : ctx.stray ⟨1, 0⟩ =
    if ctx.loops == 0 && ctx.switches == 0 then strayJumps [⟨.breakOutside, some node⟩]
    else .none := by
  simp only [stray, ite_self]
  split <;> rfl

theorem stray_continue (node : NodeId) : ctx.stray ⟨0, 1⟩ =
    if ctx.loops == 0 then strayJumps [⟨.continueOutside, some node⟩] else .none := by
  simp only [stray, ite_self]
  split <;> rfl

/-- Nothing is stray in a loop. -/
theorem stray_inLoop : ctx.inLoop.stray jumps = .none := by
  simp [stray, inLoop, Jumps.none]

/-- A switch catches each `break` and no `continue`. -/
theorem stray_inSwitch : ctx.inSwitch.stray jumps = ctx.stray ⟨0, jumps.continues⟩ := by
  simp [stray, inSwitch]

theorem stray_opened : ctx.opened.stray jumps = ctx.stray jumps :=
  rfl

variable {ctx} in
theorem Balances.stray_eq {after : Context} (balances : ctx.Balances after) :
    after.stray jumps = ctx.stray jumps := by
  rw [balances.around]
  rfl

end Context

/-- What has no jumps finds none in any context. -/
theorem Finds.ofQuiet {α : Type} {steps : Checker α} (quiet : Quiet steps) (ctx : Context) :
    Finds (ctx.stray .none) steps := by
  rwa [ctx.stray_none]

theorem quiet_checkLoopInit (ctx : Context) (init : Option Stmt) :
    Quiet (checkLoopInit ctx init) := by
  unfold checkLoopInit
  cases init with
  | none => exact .pure ctx
  | some s =>
      cases s with
      | decl id var =>
          exact .behind (quiet_noteId id) fun _ => .behind (quiet_noteId var.id) fun _ =>
            .behind (quiet_reportIf _ var.id rfl) fun _ => quiet_checkVar ctx var
      | expr id e =>
          exact .behind (quiet_noteId id) fun _ => (quiet_infer ctx e).andPure ctx
      | _ => exact (quiet_report _ rfl).andPure ctx

mutual

/-- The check of a statement finds the jumps that leave the statement, as far as nothing around
it catches them. -/
theorem finds_checkStmt (ctx : Context) (s : Stmt) :
    Finds (ctx.stray (Jumps.ofStmt s)) (checkStmt ctx s) := by
  cases s with
  | block id scope stmts =>
      unfold checkStmt
      exact .behind (quiet_noteId id) fun _ => .behind (quiet_noteId scope) fun _ =>
        (finds_checkStmts ctx.opened stmts).andPure ctx
  | branch id cond whenTrue whenFalse =>
      unfold checkStmt
      rw [Jumps.ofStmt, ctx.stray_add]
      refine .behind (quiet_noteId id) fun _ => .behind (quiet_checkCondition ctx _ cond) fun _ =>
        (finds_checkStmt ctx.opened whenTrue).bind fun _ => ?_
      cases whenFalse with
      | none => exact ctx.stray_none ▸ .pure ctx
      | some s => exact (finds_checkStmt ctx.opened s).andPure ctx
  | forLoop id init cond step body =>
      unfold checkStmt
      refine .ofQuiet (.behind (quiet_noteId id) fun _ =>
        .behind (quiet_checkLoopInit _ init) fun header =>
        .behind (quiet_checkOptional (fun e => quiet_checkCondition header _ e) cond) fun _ =>
        .behind (quiet_checkOptional (fun e => (quiet_infer header e).andPure ()) step) fun _ => ?_)
        ctx
      have inside : ∀ s, Finds (header.inLoop.opened.stray (Jumps.ofStmt s))
          (checkStmt header.inLoop.opened s) → Quiet (checkStmt header.inLoop.opened s) := by
        intro s finds
        rwa [Context.stray_opened, Context.stray_inLoop] at finds
      cases body with
      | block bodyId scope stmts =>
          have inside := finds_checkStmts header.inLoop stmts
          rw [Context.stray_inLoop] at inside
          exact .behind (quiet_noteId bodyId) fun _ => .behind (quiet_noteId scope) fun _ =>
            inside.andPure ctx
      | _ => exact (inside _ (finds_checkStmt _ _)).andPure ctx
  | whileLoop id cond body =>
      unfold checkStmt
      have inside := finds_checkStmt ctx.inLoop.opened body
      rw [Context.stray_opened, Context.stray_inLoop] at inside
      exact .ofQuiet (.behind (quiet_noteId id) fun _ =>
        .behind (quiet_checkCondition ctx _ cond) fun _ => inside.andPure ctx) ctx
  | switch id selector cases =>
      unfold checkStmt
      have inside := finds_checkCases ctx.inSwitch.opened [] cases
      rw [Context.stray_opened, Context.stray_inSwitch] at inside
      exact .behind (quiet_noteId id) fun _ => .behind (quiet_reportIf _ id rfl) fun _ =>
        .behind (quiet_expect ctx selector selector.id _ fun _ => rfl) fun _ =>
        .behind (quiet_reportIf _ id rfl) fun _ => inside.andPure ctx
  | breakOut id =>
      have finds := finds_reportIf (ctx.loops == 0 && ctx.switches == 0) id .breakOutside
      rw [← ctx.stray_break] at finds
      unfold checkStmt
      exact .behind (quiet_noteId id) fun _ => finds.andPure ctx
  | continueLoop id =>
      have finds := finds_reportIf (ctx.loops == 0) id .continueOutside
      rw [← ctx.stray_continue] at finds
      unfold checkStmt
      exact .behind (quiet_noteId id) fun _ => finds.andPure ctx
  | decl id var =>
      exact .ofQuiet (.behind (quiet_noteId id) fun _ => .behind (quiet_noteId var.id) fun _ =>
        .behind (quiet_reportIf _ var.id rfl) fun _ => quiet_checkVar ctx var) ctx
  | expr id e =>
      exact .ofQuiet (.behind (quiet_noteId id) fun _ => (quiet_infer ctx e).andPure ctx) ctx
  | ret id value =>
      exact .ofQuiet (.behind (quiet_noteId id) fun _ =>
        (quiet_checkReturn ctx id value).andPure ctx) ctx
  | discard id | empty id => exact .ofQuiet ((quiet_noteId id).andPure ctx) ctx

theorem finds_checkStmts (ctx : Context) (stmts : List Stmt) :
    Finds (ctx.stray (Jumps.ofStmts stmts)) (checkStmts ctx stmts) := by
  match stmts with
  | [] => exact ctx.stray_none ▸ .pure ctx
  | s :: rest =>
      have behind := finds_checkStmts (ctx.behind s) rest
      rw [(ctx.balances_behind s).stray_eq] at behind
      rw [Jumps.ofStmts, ctx.stray_add]
      exact (finds_checkStmt ctx s).bindEnds (ends_checkStmt ctx s) behind

theorem finds_checkCases (ctx : Context) (before : List Label) (cases : List Case) :
    Finds (ctx.stray (Jumps.ofCases cases)) (checkCases ctx before cases) := by
  match cases with
  | [] => exact ctx.stray_none ▸ .pure ctx
  | .mk id label body :: rest =>
      have behind := finds_checkCases (ctx.behindList body) (label :: before) rest
      rw [(ctx.balances_behindList body).stray_eq] at behind
      rw [Jumps.ofCases, ctx.stray_add]
      exact .behind (quiet_noteId id) fun _ => .behind (quiet_reportIf _ id rfl) fun _ =>
        (finds_checkStmts ctx body).bindEnds (ends_checkStmts ctx body) behind

end

theorem breaks_strayJumps_eq_zero_iff {problems : List Problem} :
    (strayJumps problems).breaks = 0 ↔ ∀ problem ∈ problems, problem.fault ≠ .breakOutside := by
  rw [strayJumps, List.count_eq_zero, List.mem_map]
  exact ⟨fun none problem listed same => none ⟨problem, listed, same⟩,
    fun none ⟨problem, listed, same⟩ => none problem listed same⟩

theorem continues_strayJumps_eq_zero_iff {problems : List Problem} :
    (strayJumps problems).continues = 0 ↔
      ∀ problem ∈ problems, problem.fault ≠ .continueOutside := by
  rw [strayJumps, List.count_eq_zero, List.mem_map]
  exact ⟨fun none problem listed same => none ⟨problem, listed, same⟩,
    fun none ⟨problem, listed, same⟩ => none problem listed same⟩

/-- Where no loop and no switch is around, a check reports as many stray jumps of either kind as
leave the statements.  So no jump leaves them iff the check reports none, and no `break` leaves
them iff the check reports no stray `break`. -/
theorem escaping_iff_stray (ctx : Context) (stmts : List Stmt) (log : Log)
    (noLoop : ctx.loops = 0) (noSwitch : ctx.switches = 0) :
    ∃ found, ((checkStmts ctx stmts).run log).2.problems = log.problems ++ found ∧
      strayJumps found = Jumps.ofStmts stmts ∧
      ((Jumps.ofStmts stmts).breaks = 0 ∧ (Jumps.ofStmts stmts).continues = 0 ↔
        ∀ problem ∈ found, problem.fault ≠ .breakOutside ∧ problem.fault ≠ .continueOutside) ∧
      ((Jumps.ofStmts stmts).breaks = 0 ↔
        ∀ problem ∈ found, problem.fault ≠ .breakOutside) := by
  have stray : ctx.stray (Jumps.ofStmts stmts) = Jumps.ofStmts stmts := by
    simp [Context.stray, noLoop, noSwitch]
  rcases finds_checkStmts ctx stmts log with ⟨found, isFound, counted⟩
  rw [stray] at counted
  refine ⟨found, isFound, counted, ?_, ?_⟩
  · rw [← counted, breaks_strayJumps_eq_zero_iff, continues_strayJumps_eq_zero_iff]
    exact ⟨fun none problem listed => ⟨none.1 problem listed, none.2 problem listed⟩,
      fun none => ⟨fun problem listed => (none problem listed).1,
        fun problem listed => (none problem listed).2⟩⟩
  · rw [← counted, breaks_strayJumps_eq_zero_iff]

/-- A `break` and a `continue` in a switch, of which only the second one leaves it. -/
def jumpingSwitch : List Stmt :=
  [.switch 0 (.int 1 0) [.mk 2 (.value 0) [.breakOut 3, .continueLoop 4]]]

theorem escaping_iff_stray_jumpingSwitch :
    Jumps.ofStmts jumpingSwitch = ⟨0, 1⟩ ∧ (Context.initial .essl300).loops = 0 ∧
      (Context.initial .essl300).switches = 0 ∧
      ∃ found, ((checkStmts (.initial .essl300) jumpingSwitch).run .empty).2.problems =
          Log.empty.problems ++ found ∧
        strayJumps found = Jumps.ofStmts jumpingSwitch ∧
        ((Jumps.ofStmts jumpingSwitch).breaks = 0 ∧ (Jumps.ofStmts jumpingSwitch).continues = 0 ↔
          ∀ problem ∈ found,
            problem.fault ≠ .breakOutside ∧ problem.fault ≠ .continueOutside) ∧
        ((Jumps.ofStmts jumpingSwitch).breaks = 0 ↔
          ∀ problem ∈ found, problem.fault ≠ .breakOutside) :=
  ⟨rfl, rfl, rfl, escaping_iff_stray (.initial .essl300) jumpingSwitch .empty rfl rfl⟩

end Check
end Whittle
