import Whittle.Proofs.Identifiers.MapIds
import Whittle.Proofs.Typing.Checking
import Whittle.Proofs.Typing.Congruence
import Whittle.Proofs.Typing.OperationFaults

namespace Whittle
namespace Check

/-!
# Checking under other identifiers

A check compares identifiers with each other and looks them up, but does nothing else with
them.  So if an injective map replaces them, the check goes the same way: step for step, the log
is the image of the log.
-/

def Fault.mapIds (image : NodeId → NodeId) : Fault → Fault
  | .repeatedId id => .repeatedId (image id)
  | fault => fault

def Problem.mapIds (image : NodeId → NodeId) (problem : Problem) : Problem :=
  ⟨problem.fault.mapIds image, problem.node.map image⟩

/-- The second log is the image of the first one. -/
structure Log.MapsTo (image : NodeId → NodeId) (log log' : Log) : Prop where
  problems : log'.problems = log.problems.map (Problem.mapIds image)
  seen : ∀ id, image id ∈ log'.seen ↔ id ∈ log.seen
  types : ∀ id, log'.types[image id]? = log.types[id]?
  keys : ∀ id' ∈ log'.types, ∃ id, image id = id'

/-- The second steps do to the image of a log what the first ones do to the log, and yield the
image of what those yield. -/
structure Mirrors {α β : Type} (image : NodeId → NodeId) (result : α → β) (steps : Checker α)
    (steps' : Checker β) : Prop where
  yields : ∀ log log', log.MapsTo image log' → (steps'.run log').1 = result (steps.run log).1
  logs : ∀ log log', log.MapsTo image log' → (steps.run log).2.MapsTo image (steps'.run log').2

/-- The same of steps that yield no context: they yield the same. -/
abbrev Agrees {α : Type} (image : NodeId → NodeId) (steps steps' : Checker α) : Prop :=
  Mirrors image (fun a => a) steps steps'

variable {image : NodeId → NodeId} {α β γ α' β' : Type}

namespace Mirrors

theorem pure {result : α → β} (a : α) :
    Mirrors image result (Pure.pure a) (Pure.pure (result a)) where
  yields _ _ _ := rfl
  logs _ _ same := same

/-- Steps may be looked at from each log on its own. -/
theorem of_run {result : α → α'} {steps : Checker α} {steps' : Checker α'}
    (mirrors : ∀ log log', log.MapsTo image log' → ∃ same same',
      Mirrors image result same same' ∧ steps.run log = same.run log ∧
        steps'.run log' = same'.run log') : Mirrors image result steps steps' where
  yields log log' isImage := by
    rcases mirrors log log' isImage with ⟨same, same', mirrors, run, run'⟩
    rw [run, run']
    exact mirrors.yields log log' isImage
  logs log log' isImage := by
    rcases mirrors log log' isImage with ⟨same, same', mirrors, run, run'⟩
    rw [run, run']
    exact mirrors.logs log log' isImage

theorem bind {result : α → α'} {result' : β → β'} {first : Checker α} {first' : Checker α'}
    {second : α → Checker β} {second' : α' → Checker β'}
    (mirrors : Mirrors image result first first')
    (behind : ∀ a, Mirrors image result' (second a) (second' (result a))) :
    Mirrors image result' (first >>= second) (first' >>= second') := by
  have run : ∀ log', (first' >>= second').run log' =
    (second' (first'.run log').1).run (first'.run log').2 := fun _ => rfl
  constructor
  · intro log log' same
    rw [run, mirrors.yields log log' same]
    exact (behind _).yields _ _ (mirrors.logs log log' same)
  · intro log log' same
    rw [run, mirrors.yields log log' same]
    exact (behind _).logs _ _ (mirrors.logs log log' same)

/-- A second part that does not look at what the first one yields. -/
theorem andThen {result : α → α'} {result' : β → β'} {first : Checker α} {first' : Checker α'}
    {second : Checker β} {second' : Checker β'} (mirrors : Mirrors image result first first')
    (behind : Mirrors image result' second second') :
    Mirrors image result' (first >>= fun _ => second) (first' >>= fun _ => second') :=
  mirrors.bind fun _ => behind

/-- A value in place of the one that a part yields. -/
theorem andPure {result : α → α'} {result' : β → β'} {first : Checker α} {first' : Checker α'}
    (mirrors : Mirrors image result first first') (b : β) :
    Mirrors image result' (first >>= fun _ => Pure.pure b)
      (first' >>= fun _ => Pure.pure (result' b)) :=
  mirrors.andThen (.pure b)

end Mirrors

theorem agrees_report (node : NodeId) (fault : Fault) :
    Agrees image (report node fault) (report (image node) (fault.mapIds image)) where
  yields _ _ _ := rfl
  logs log log' same := { same with
    problems := by
      show log'.problems ++ [_] = (log.problems ++ [_]).map _
      rw [same.problems, List.map_append]
      rfl }

theorem agrees_reportNowhere {fault : Fault} (plain : fault.mapIds image = fault) :
    Agrees image (reportNowhere fault) (reportNowhere fault) where
  yields _ _ _ := rfl
  logs log log' same := { same with
    problems := by
      show log'.problems ++ [_] = (log.problems ++ [_]).map _
      rw [same.problems, List.map_append, List.map_singleton, Problem.mapIds, plain]
      rfl }

/-- A fault that names no identifier is reported as it is. -/
theorem agrees_reportIf (violated : Bool) (node : NodeId) {fault : Fault}
    (plain : fault.mapIds image = fault) :
    Agrees image (reportIf violated node fault) (reportIf violated (image node) fault) := by
  cases violated with
  | false => exact .pure ()
  | true =>
      have agrees : Agrees image (report node fault) _ := agrees_report node fault
      rwa [plain] at agrees

theorem agrees_noteId (injective : Function.Injective image) (id : NodeId) :
    Agrees image (noteId id) (noteId (image id)) := by
  have inserted : Agrees image
      (modify fun log : Log => { log with seen := log.seen.insert id })
      (modify fun log : Log => { log with seen := log.seen.insert (image id) }) := by
    refine ⟨fun _ _ _ => rfl, fun log log' same => { same with seen := fun other => ?_ }⟩
    show image other ∈ log'.seen.insert (image id) ↔ other ∈ log.seen.insert id
    rw [Std.TreeSet.mem_insert, Std.TreeSet.mem_insert, same.seen other,
      Std.LawfulEqOrd.compare_eq_iff_eq, Std.LawfulEqOrd.compare_eq_iff_eq, injective.eq_iff]
  have reported : ∀ isKnown, Agrees image (reportIf isKnown id (.repeatedId id))
      (reportIf isKnown (image id) (.repeatedId (image id))) := by
    intro isKnown
    cases isKnown with
    | false => exact .pure ()
    | true => exact agrees_report id (.repeatedId id)
  -- Whether the identifier is known depends on the log, so the steps are compared log by log.
  refine .of_run fun log log' same =>
    ⟨_, _, (reported (log.seen.contains id)).andThen inserted, rfl, ?_⟩
  have known : log.seen.contains id = log'.seen.contains (image id) :=
    Bool.eq_iff_iff.mpr (same.seen id).symm
  rw [known]
  rfl

theorem agrees_record (injective : Function.Injective image) (id : NodeId) (ty? : Option Ty) :
    Agrees image (record id ty?) (record (image id) ty?) := by
  cases ty? with
  | none => exact .pure none
  | some ty =>
      refine ⟨fun _ _ _ => rfl, fun log log' same =>
        { same with types := fun other => ?_, keys := fun id' isKey => ?_ }⟩
      · show (log'.types.insert (image id) ty)[image other]? = (log.types.insert id ty)[other]?
        rw [Std.TreeMap.getElem?_insert, Std.TreeMap.getElem?_insert, same.types other]
        simp only [Std.LawfulEqOrd.compare_eq_iff_eq, injective.eq_iff]
      · have isKey : id' ∈ log'.types.insert (image id) ty := isKey
        rw [Std.TreeMap.mem_insert, Std.LawfulEqOrd.compare_eq_iff_eq] at isKey
        rcases isKey with rfl | isKey
        · exact ⟨id, rfl⟩
        · exact same.keys id' isKey

theorem agrees_recorded (injective : Function.Injective image) (id : NodeId)
    {work work' : Checker (Option Ty)} (agrees : Agrees image work work') :
    Agrees image (recorded id work) (recorded (image id) work') := by
  rw [recorded_eq, recorded_eq]
  exact ((agrees_noteId injective id).andThen agrees).bind (agrees_record injective id)

/-- A part that needs the value of another one. -/
theorem Mirrors.whenSome {part part' : Checker (Option α)} {next next' : α → Checker (Option β)}
    (agrees : Agrees image part part') (behind : ∀ a, Agrees image (next a) (next' a)) :
    Agrees image (whenSome part next) (whenSome part' next') :=
  agrees.bind fun a? => by
    cases a? with
    | none => exact .pure none
    | some a => exact behind a

theorem Mirrors.whenBoth {first first' : Checker (Option α)} {second second' : Checker (Option β)}
    {next next' : α → β → Checker (Option γ)} (agrees : Agrees image first first')
    (agrees' : Agrees image second second') (behind : ∀ a b, Agrees image (next a b) (next' a b)) :
    Agrees image (whenBoth first second next) (whenBoth first' second' next') :=
  agrees.bind fun a? => agrees'.bind fun b? => by
    cases a? with
    | none => exact .pure none
    | some a =>
        cases b? with
        | none => exact .pure none
        | some b => exact behind a b

theorem Fault.mapIds_eq_self {fault : Fault} (isOf : fault.isOfOperation = true) :
    fault.mapIds image = fault := by
  cases fault with
  | repeatedId => cases isOf
  | _ => rfl

theorem agrees_settle (node : NodeId) {result : Except Fault Ty} (isOf : OfOperation result) :
    Agrees image (settle node result) (settle (image node) result) := by
  cases result with
  | ok ty => exact .pure (some ty)
  | error fault =>
      have agrees : Agrees image (report node fault) _ := agrees_report node fault
      rw [Fault.mapIds_eq_self (isOf fault rfl)] at agrees
      exact agrees.andPure none

namespace Context

def mapIds (image : NodeId → NodeId) (ctx : Context) : Context :=
  { ctx with
    structs := ctx.structs.map (StructDecl.mapIds image)
    functions := ctx.functions.map (Function.mapIds image) }

theorem alike_mapIds (ctx : Context) : ctx.Alike (ctx.mapIds image) where
  version := rfl
  structs := List.forall₂_map_right_iff.mpr <| List.forall₂_same.mpr fun decl _ =>
    ⟨rfl, decl.alike_mapIds⟩
  functions := List.forall₂_map_right_iff.mpr <| List.forall₂_same.mpr fun f _ =>
    f.headsAlike_mapIds
  taken := rfl
  inner := rfl
  outer := rfl
  returnTy := rfl
  loops := rfl
  switches := rfl

theorem call_mapIds (ctx : Context) (callee : String) (args : List Ty) :
    (ctx.mapIds image).call callee args = ctx.call callee args :=
  ctx.alike_mapIds.call_eq (fun _ _ _ same => same) args

theorem member_mapIds (ctx : Context) (base : Ty) (field : String) :
    (ctx.mapIds image).member base field = ctx.member base field :=
  ctx.alike_mapIds.member base field

theorem isSome_struct?_mapIds (ctx : Context) (name : String) :
    ((ctx.mapIds image).struct? name).isSome = (ctx.struct? name).isSome := by
  simp only [Context.struct?, mapIds, List.find?_map, Option.isSome_map]
  rfl

end Context

/-- What cannot be written is found at the image of its node. -/
theorem unwritable?_mapIds (ctx : Context) {types types' : TypeTable}
    (same : ∀ id, types'[image id]? = types[id]?) (e : Expr) :
    unwritable? (ctx.mapIds image) types' (e.mapIds image) =
      (unwritable? ctx types e).map image := by
  induction e using Expr.children_induction with
  | step e inductionHypothesis =>
      cases e with
      | var id name =>
          have lookup : (ctx.mapIds image).lookup? name = ctx.lookup? name := rfl
          rw [Expr.mapIds, unwritable?, unwritable?, lookup]
          split <;> rfl
      | paren id inner => exact inductionHypothesis inner List.mem_cons_self
      | index id base position => exact inductionHypothesis base List.mem_cons_self
      | member id base field =>
          rw [Expr.mapIds, unwritable?, unwritable?, Expr.id_mapIds, same]
          split
          · rfl
          · exact inductionHypothesis base List.mem_cons_self
      | _ => rfl

theorem agrees_writable (ctx : Context) (e : Expr) :
    Agrees image (writable ctx e) (writable (ctx.mapIds image) (e.mapIds image)) := by
  refine .of_run fun log log' same => ?_
  rw [run_writable, run_writable, unwritable?_mapIds ctx same.types e]
  cases unwritable? ctx log.types e with
  | none => exact ⟨_, _, .pure true, rfl, rfl⟩
  | some node => exact ⟨_, _, (agrees_report node .notAssignable).andPure false, rfl, rfl⟩

theorem agrees_choice (id condId : NodeId) (cond whenTrue whenFalse : Ty) :
    Agrees image (choice id condId cond whenTrue whenFalse)
      (choice (image id) (image condId) cond whenTrue whenFalse) := by
  unfold choice
  split
  · exact agrees_settle condId fun | _, rfl => rfl
  · split
    · exact agrees_settle id fun | _, rfl => rfl
    · exact .pure (some whenTrue)

theorem agrees_indexed (id positionId : NodeId) (base position : Ty) :
    Agrees image (indexed id positionId base position)
      (indexed (image id) (image positionId) base position) := by
  unfold indexed
  split
  · exact agrees_settle positionId fun | _, rfl => rfl
  · split
    · exact .pure (some _)
    · exact agrees_settle id fun | _, rfl => rfl

theorem agrees_settleUnary (ctx : Context) (id : NodeId) (op : UnaryOp) (operand : Expr)
    (operandTy : Ty) :
    Agrees image (settleUnary ctx id op operand operandTy)
      (settleUnary (ctx.mapIds image) (image id) op (operand.mapIds image) operandTy) := by
  refine (agrees_settle id (ofOperation_unary op operandTy)).whenSome fun ty => ?_
  split
  · refine (agrees_writable ctx operand).bind fun isWritable => ?_
    cases isWritable with
    | true => exact .pure (some ty)
    | false => exact .pure none
  · exact .pure (some ty)

theorem agrees_settleAssign (ctx : Context) (id : NodeId) (op : AssignOp) (target : Expr)
    (targetTy valueTy : Ty) :
    Agrees image (settleAssign ctx id op target targetTy valueTy)
      (settleAssign (ctx.mapIds image) (image id) op (target.mapIds image) targetTy valueTy) := by
  refine (agrees_writable ctx target).bind fun isWritable => ?_
  cases isWritable with
  | true => exact agrees_settle id (ofOperation_assign op targetTy valueTy)
  | false => exact .pure none

mutual

/-- An expression has under other identifiers the type that it has. -/
theorem agrees_infer (injective : Function.Injective image) (ctx : Context) (e : Expr) :
    Agrees image (infer ctx e) (infer (ctx.mapIds image) (e.mapIds image)) := by
  cases e with
  | int | float | bool => exact agrees_recorded injective _ (.pure (some _))
  | var id name =>
      refine agrees_recorded injective id ?_
      have lookup : (ctx.mapIds image).lookup? name = ctx.lookup? name := rfl
      rw [lookup]
      split
      · exact .pure (some _)
      · exact agrees_settle id fun | _, rfl => rfl
  | paren id inner => exact agrees_recorded injective id (agrees_infer injective ctx inner)
  | unary id op operand =>
      exact agrees_recorded injective id
        ((agrees_infer injective ctx operand).whenSome (agrees_settleUnary ctx id op operand))
  | binary id op lhs rhs =>
      exact agrees_recorded injective id ((agrees_infer injective ctx lhs).whenBoth
        (agrees_infer injective ctx rhs) fun lhsTy rhsTy =>
          agrees_settle id (ofOperation_binary op lhsTy rhsTy))
  | assign id op target value =>
      exact agrees_recorded injective id ((agrees_infer injective ctx target).whenBoth
        (agrees_infer injective ctx value) (agrees_settleAssign ctx id op target))
  | ternary id cond whenTrue whenFalse =>
      have values := (agrees_infer injective ctx whenTrue).whenBoth
        (agrees_infer injective ctx whenFalse) fun trueTy falseTy =>
          .pure (some (trueTy, falseTy))
      rw [Expr.mapIds, infer, infer, Expr.id_mapIds]
      exact agrees_recorded injective id ((agrees_infer injective ctx cond).whenBoth values
        fun condTy tys => agrees_choice id cond.id condTy tys.1 tys.2)
  | call id callee args =>
      have settled : ∀ tys, Agrees image (settle id (ctx.call callee tys))
          (settle (image id) ((ctx.mapIds image).call callee tys)) := fun tys => by
        rw [ctx.call_mapIds]
        exact agrees_settle id (ofOperation_call ctx callee tys)
      exact agrees_recorded injective id ((agrees_inferList injective ctx args).whenSome settled)
  | member id base field =>
      have settled : ∀ baseTy, Agrees image (settle id (ctx.member baseTy field))
          (settle (image id) ((ctx.mapIds image).member baseTy field)) := fun baseTy => by
        rw [ctx.member_mapIds]
        exact agrees_settle id (ofOperation_member ctx baseTy field)
      exact agrees_recorded injective id ((agrees_infer injective ctx base).whenSome settled)
  | index id base position =>
      rw [Expr.mapIds, infer, infer, Expr.id_mapIds]
      exact agrees_recorded injective id ((agrees_infer injective ctx base).whenBoth
        (agrees_infer injective ctx position) (agrees_indexed id position.id))

theorem agrees_inferList (injective : Function.Injective image) (ctx : Context) (es : List Expr) :
    Agrees image (inferList ctx es)
      (inferList (ctx.mapIds image) (Expr.mapIdsOfList image es)) := by
  match es with
  | [] => exact .pure (some [])
  | e :: rest =>
      exact (agrees_infer injective ctx e).whenBoth (agrees_inferList injective ctx rest)
        fun ty tys => .pure (some (ty :: tys))

end

/-! ## Variables and returns -/

theorem agrees_usable (ctx : Context) (id : NodeId) (ty : Ty) (voidAllowed : Bool) :
    Agrees image (usable ctx id ty voidAllowed)
      (usable (ctx.mapIds image) (image id) ty voidAllowed) := by
  cases ty with
  | scalar | vector => exact .pure true
  | void =>
      cases voidAllowed with
      | true => exact .pure true
      | false => exact (agrees_report id .voidVariable).andPure false
  | struct name =>
      rw [usable, usable, ctx.isSome_struct?_mapIds]
      split
      · exact .pure true
      · exact (agrees_report id (.unknownType name)).andPure false

theorem mirrors_declare (ctx : Context) (id : NodeId) (name : String) (binding : Binding) :
    Mirrors image (Context.mapIds image) (declare ctx id name binding)
      (declare (ctx.mapIds image) (image id) name binding) := by
  unfold declare
  split
  · exact (agrees_report id (.reservedIdentifier name)).andPure ctx
  · exact (agrees_reportIf (ctx.inner.lookup name).isSome id rfl).andPure (ctx.bound name binding)

theorem agrees_expect (injective : Function.Injective image) (ctx : Context) (e : Expr)
    (node : NodeId) (wrong : Ty → Bool) {fault : Ty → Fault}
    (plain : ∀ ty, (fault ty).mapIds image = fault ty) :
    Agrees image (expect ctx e node wrong fault)
      (expect (ctx.mapIds image) (e.mapIds image) (image node) wrong fault) :=
  (agrees_infer injective ctx e).bind fun ty? => by
    cases ty? with
    | none => exact .pure ()
    | some ty => exact agrees_reportIf (wrong ty) node (plain ty)

theorem agrees_checkOptional {check check' : Expr → Checker Unit}
    (agrees : ∀ e, Agrees image (check e) (check' (e.mapIds image))) (e? : Option Expr) :
    Agrees image (checkOptional check e?) (checkOptional check' (e?.map (Expr.mapIds image))) := by
  cases e? with
  | none => exact .pure ()
  | some e => exact agrees e

theorem agrees_checkCondition (injective : Function.Injective image) (ctx : Context)
    (condition : Condition) (e : Expr) :
    Agrees image (checkCondition ctx condition e)
      (checkCondition (ctx.mapIds image) condition (e.mapIds image)) := by
  rw [checkCondition, checkCondition, Expr.id_mapIds]
  exact agrees_expect injective ctx e e.id _ fun _ => rfl

theorem mirrors_checkVar (injective : Function.Injective image) (ctx : Context) (var : VarDecl) :
    Mirrors image (Context.mapIds image) (checkVar ctx var)
      (checkVar (ctx.mapIds image) (var.mapIds image)) := by
  refine (agrees_usable ctx var.id var.ty false).bind fun typeOk => ?_
  have isNone : (var.init.map (Expr.mapIds image)).isNone = var.init.isNone := Option.isNone_map
  rw [VarDecl.mapIds]
  dsimp only
  rw [isNone]
  refine (agrees_reportIf _ var.id rfl).andThen <|
    (agrees_checkOptional (fun e => ?_) var.init).andThen <|
    mirrors_declare ctx var.id var.name ⟨var.ty, isWritable var.qualifier⟩
  rw [Expr.id_mapIds]
  exact agrees_expect injective ctx e e.id _ fun _ => rfl

theorem agrees_checkReturn (injective : Function.Injective image) (ctx : Context) (id : NodeId)
    (value : Option Expr) :
    Agrees image (checkReturn ctx id value)
      (checkReturn (ctx.mapIds image) (image id) (value.map (Expr.mapIds image))) := by
  have returnTy : (ctx.mapIds image).returnTy = ctx.returnTy := rfl
  unfold checkReturn
  rw [returnTy]
  cases ctx.returnTy with
  | none => exact agrees_report id .returnOutside
  | some expected =>
      cases value with
      | none => exact agrees_reportIf _ id rfl
      | some e =>
          dsimp only [Option.map_some]
          split
          · exact agrees_expect injective ctx e id _ fun _ => rfl
          · rw [Expr.id_mapIds]
            exact agrees_expect injective ctx e e.id _ fun _ => rfl

/-- A loop goes the same way if its header and its body do. -/
theorem mirrors_forLoop (injective : Function.Injective image) (id : NodeId)
    (cond step : Option Expr) {start start' : Checker Context}
    {body body' : Context → Checker Context}
    (mirrors : Mirrors image (Context.mapIds image) start start')
    (inBody : ∀ header, Mirrors image (Context.mapIds image) (body header)
      (body' (header.mapIds image))) :
    Mirrors image (Context.mapIds image)
      (do
        noteId id
        let header ← start
        checkOptional (checkCondition header .loop) cond
        checkOptional (fun e => do let _ ← infer header e) step
        body header)
      (do
        noteId (image id)
        let header ← start'
        checkOptional (checkCondition header .loop) (cond.map (Expr.mapIds image))
        checkOptional (fun e => do let _ ← infer header e) (step.map (Expr.mapIds image))
        body' header) :=
  (agrees_noteId injective id).andThen <| mirrors.bind fun header =>
    (agrees_checkOptional (agrees_checkCondition injective header .loop) cond).andThen <|
      (agrees_checkOptional (fun e => (agrees_infer injective header e).andPure ()) step).andThen
        (inBody header)

mutual

theorem mirrors_checkStmt (injective : Function.Injective image) (ctx : Context) (s : Stmt) :
    Mirrors image (Context.mapIds image) (checkStmt ctx s)
      (checkStmt (ctx.mapIds image) (s.mapIds image)) := by
  cases s with
  | decl id var =>
      exact (agrees_noteId injective id).andThen <| (agrees_noteId injective var.id).andThen <|
        (agrees_reportIf _ var.id rfl).andThen (mirrors_checkVar injective ctx var)
  | expr id e =>
      exact (agrees_noteId injective id).andThen ((agrees_infer injective ctx e).andPure ctx)
  | block id scope stmts =>
      exact (agrees_noteId injective id).andThen <| (agrees_noteId injective scope).andThen
        ((mirrors_checkStmts injective ctx.opened stmts).andPure ctx)
  | branch id cond whenTrue whenFalse =>
      have tested := agrees_checkCondition injective ctx .branch cond
      have first := mirrors_checkStmt injective ctx.opened whenTrue
      cases whenFalse with
      | none =>
          exact (agrees_noteId injective id).andThen (tested.andThen (first.andPure ctx))
      | some s =>
          exact (agrees_noteId injective id).andThen <| tested.andThen <| first.andThen
            ((mirrors_checkStmt injective ctx.opened s).andPure ctx)
  | whileLoop id cond body =>
      exact (agrees_noteId injective id).andThen <|
        (agrees_checkCondition injective ctx .loop cond).andThen
          ((mirrors_checkStmt injective ctx.inLoop.opened body).andPure ctx)
  | switch id selector cases =>
      rw [Stmt.mapIds, checkStmt, checkStmt, Expr.id_mapIds, Stmt.isEmpty_mapIdsOfCases]
      exact (agrees_noteId injective id).andThen <| (agrees_reportIf _ id rfl).andThen <|
        (agrees_expect injective ctx selector selector.id _ fun _ => rfl).andThen <|
        (agrees_reportIf _ id rfl).andThen
          ((mirrors_checkCases injective ctx.inSwitch.opened [] cases).andPure ctx)
  | forLoop id init cond step body =>
      have start := mirrors_checkLoopInit injective ctx.opened init
      cases body with
      | block bodyId scope stmts =>
          exact mirrors_forLoop injective id cond step start fun header =>
            (agrees_noteId injective bodyId).andThen <| (agrees_noteId injective scope).andThen
              ((mirrors_checkStmts injective header.inLoop stmts).andPure ctx)
      | _ =>
          exact mirrors_forLoop injective id cond step start fun header =>
            (mirrors_checkStmt injective header.inLoop.opened _).andPure ctx
  | ret id value =>
      exact (agrees_noteId injective id).andThen
        ((agrees_checkReturn injective ctx id value).andPure ctx)
  | breakOut id | continueLoop id =>
      exact (agrees_noteId injective id).andThen ((agrees_reportIf _ id rfl).andPure ctx)
  | discard id | empty id => exact (agrees_noteId injective id).andPure ctx

theorem mirrors_checkLoopInit (injective : Function.Injective image) (ctx : Context)
    (init : Option Stmt) :
    Mirrors image (Context.mapIds image) (checkLoopInit ctx init)
      (checkLoopInit (ctx.mapIds image) (Stmt.mapIdsOfOption image init)) := by
  match init with
  | none => exact .pure ctx
  | some s =>
      rw [Stmt.mapIdsOfOption, checkLoopInit, checkLoopInit, Stmt.isLoopInit_mapIds, Stmt.id_mapIds]
      split
      · exact mirrors_checkStmt injective ctx s
      · exact (agrees_report s.id .loopInit).andPure ctx

theorem mirrors_checkStmts (injective : Function.Injective image) (ctx : Context)
    (stmts : List Stmt) :
    Mirrors image (Context.mapIds image) (checkStmts ctx stmts)
      (checkStmts (ctx.mapIds image) (Stmt.mapIdsOfList image stmts)) := by
  match stmts with
  | [] => exact .pure ctx
  | s :: rest =>
      exact (mirrors_checkStmt injective ctx s).bind fun behind =>
        mirrors_checkStmts injective behind rest

theorem mirrors_checkCases (injective : Function.Injective image) (ctx : Context)
    (before : List Label) (cases : List Case) :
    Mirrors image (Context.mapIds image) (checkCases ctx before cases)
      (checkCases (ctx.mapIds image) before (Stmt.mapIdsOfCases image cases)) := by
  match cases with
  | [] => exact .pure ctx
  | .mk id label body :: rest =>
      exact (agrees_noteId injective id).andThen <| (agrees_reportIf _ id rfl).andThen <|
        (mirrors_checkStmts injective ctx body).bind fun behind =>
          mirrors_checkCases injective behind (label :: before) rest

end

theorem agrees_checkFields (injective : Function.Injective image) (ctx : Context)
    (struct : String) (before : List String) (fields : List Field) :
    Agrees image (checkFields ctx struct before fields)
      (checkFields (ctx.mapIds image) struct before (fields.map (Field.mapId image))) := by
  induction fields generalizing before with
  | nil => exact .pure ()
  | cons field rest inductionHypothesis =>
      exact (agrees_noteId injective field.id).andThen <|
        (agrees_usable ctx field.id field.ty false).andThen <|
        (agrees_reportIf _ field.id rfl).andThen (inductionHypothesis (field.name :: before))

theorem mirrors_checkParams (injective : Function.Injective image) (ctx : Context)
    (params : List Param) :
    Mirrors image (Context.mapIds image) (checkParams ctx params)
      (checkParams (ctx.mapIds image) (params.map (Param.mapId image))) := by
  induction params generalizing ctx with
  | nil => exact .pure ctx
  | cons param rest inductionHypothesis =>
      exact (agrees_noteId injective param.id).andThen <|
        (agrees_usable ctx param.id param.ty false).andThen <|
        (mirrors_declare ctx param.id param.name ⟨param.ty, true⟩).bind inductionHypothesis

theorem mirrors_checkStruct (injective : Function.Injective image) (ctx : Context)
    (decl : StructDecl) :
    Mirrors image (Context.mapIds image) (checkStruct ctx decl)
      (checkStruct (ctx.mapIds image) (decl.mapIds image)) := by
  have isEmpty : (decl.fields.map (Field.mapId image)).isEmpty = decl.fields.isEmpty :=
    List.isEmpty_map
  have fields := agrees_checkFields injective ctx decl.name [] decl.fields
  change Mirrors image _
    (if ctx.taken.contains decl.name then _ else _) (if ctx.taken.contains decl.name then _ else _)
  split
  · exact (agrees_report decl.id (.taken decl.name)).andPure ctx
  · dsimp only [StructDecl.mapIds]
    rw [isEmpty]
    exact (agrees_reportIf _ decl.id rfl).andThen (fields.andPure _)

theorem agrees_checkGlobalQualifier (version : Version) (var : VarDecl) :
    Agrees image (checkGlobalQualifier version var)
      (checkGlobalQualifier version (var.mapIds image)) := by
  have isSome : (var.init.map (Expr.mapIds image)).isSome = var.init.isSome := Option.isSome_map
  unfold checkGlobalQualifier
  rw [VarDecl.mapIds]
  dsimp only
  rw [isSome]
  split
  · exact agrees_report var.id (.noInOutGlobals version)
  · exact agrees_reportIf _ var.id rfl

theorem mirrors_checkGlobal (injective : Function.Injective image) (ctx : Context) (var : VarDecl) :
    Mirrors image (Context.mapIds image) (checkGlobal ctx var)
      (checkGlobal (ctx.mapIds image) (var.mapIds image)) := by
  change Mirrors image _
    (if ctx.taken.contains var.name then _ else _) (if ctx.taken.contains var.name then _ else _)
  split
  · exact (agrees_report var.id (.taken var.name)).andPure ctx
  · exact (agrees_checkGlobalQualifier ctx.version var).andThen
      (mirrors_checkVar injective { ctx with taken := var.name :: ctx.taken } var)

theorem mirrors_checkFunction (injective : Function.Injective image) (ctx : Context)
    (f : Function) :
    Mirrors image (Context.mapIds image) (checkFunction ctx f)
      (checkFunction (ctx.mapIds image) (f.mapIds image)) := by
  have isEmpty : (f.mapIds image).body.stmts.isEmpty = f.body.stmts.isEmpty := by
    rw [Function.mapIds, Stmt.mapIdsOfList_eq_map, List.isEmpty_map]
  unfold checkFunction
  rw [isEmpty, f.holdsReturn_mapIds]
  refine (agrees_reportIf _ f.id rfl).andThen <| (agrees_reportIf _ f.id rfl).andThen <|
    (agrees_usable ctx f.id f.returnTy true).andThen <|
    (mirrors_checkParams injective ctx.opened f.params).bind fun body =>
    (agrees_noteId injective f.body.id).andThen <| (agrees_reportIf _ f.id rfl).andThen <|
    (mirrors_checkStmts injective { body with returnTy := some f.returnTy } f.body.stmts).andThen <|
    (agrees_reportIf _ f.id rfl).andThen ?_
  change Mirrors image _ (pure (if ctx.taken.contains f.name then _ else _))
    (pure (if ctx.taken.contains f.name then _ else _))
  split
  · exact .pure ctx
  · exact .pure { ctx with taken := f.name :: ctx.taken, functions := f :: ctx.functions }

theorem mirrors_checkDecl (injective : Function.Injective image) (ctx : Context) (decl : Decl) :
    Mirrors image (Context.mapIds image) (checkDecl ctx decl)
      (checkDecl (ctx.mapIds image) (decl.mapIds image)) := by
  have noted := agrees_noteId injective decl.id
  cases decl with
  | precision decl => exact noted.andThen ((agrees_reportIf _ decl.id rfl).andPure ctx)
  | struct decl => exact noted.andThen (mirrors_checkStruct injective ctx decl)
  | global var => exact noted.andThen (mirrors_checkGlobal injective ctx var)
  | function f => exact noted.andThen (mirrors_checkFunction injective ctx f)

theorem mirrors_checkDecls (injective : Function.Injective image) (ctx : Context)
    (decls : List Decl) :
    Mirrors image (Context.mapIds image) (checkDecls ctx decls)
      (checkDecls (ctx.mapIds image) (decls.map (Decl.mapIds image))) := by
  induction decls generalizing ctx with
  | nil => exact .pure ctx
  | cons decl rest inductionHypothesis =>
      exact (mirrors_checkDecl injective ctx decl).bind inductionHypothesis

theorem agrees_checkMain (shader : Shader) :
    Agrees image (checkMain shader) (checkMain (shader.mapIds image)) := by
  unfold checkMain
  rw [shader.functions_mapIds, List.filter_map]
  have named : (fun f : Function => f.name == "main") ∘ Function.mapIds image =
    fun f => f.name == "main" := rfl
  rw [named]
  cases shader.functions.filter fun f => f.name == "main" with
  | nil => exact agrees_reportNowhere rfl
  | cons main rest =>
      cases rest with
      | nil =>
          have isEmpty : (main.params.map (Param.mapId image)).isEmpty = main.params.isEmpty :=
            List.isEmpty_map
          change Agrees image _
            (reportIf (main.returnTy != .void || !(main.params.map _).isEmpty) (image main.id) _)
          rw [isEmpty]
          exact agrees_reportIf _ main.id rfl
      | cons => exact .pure ()

/-- A check goes the same way under other identifiers. -/
theorem agrees_checkShader (injective : Function.Injective image) (shader : Shader)
    (version : Version) :
    Agrees image (checkShader shader version) (checkShader (shader.mapIds image) version) :=
  (mirrors_checkDecls injective (.initial version) shader.decls).andThen (agrees_checkMain shader)

/-- Nothing has been found out under any identifiers. -/
theorem mapsTo_empty : Log.empty.MapsTo image .empty where
  problems := rfl
  seen _ := iff_of_false Std.TreeSet.not_mem_emptyc Std.TreeSet.not_mem_emptyc
  types _ := Std.TreeMap.getElem?_emptyc.trans Std.TreeMap.getElem?_emptyc.symm
  keys _ isKey := absurd isKey Std.TreeMap.not_mem_emptyc

/-- The entries of the second table are those of the first one under the images of their
identifiers. -/
theorem Log.MapsTo.perm_types (injective : Function.Injective image) {log log' : Log}
    (same : log.MapsTo image log') :
    log'.types.toList.Perm (log.types.toList.map fun entry => (image entry.1, entry.2)) := by
  have distinct : ∀ types : TypeTable, types.toList.Nodup := fun types =>
    .of_map Prod.fst (Std.TreeMap.map_fst_toList_eq_keys ▸ Std.TreeMap.nodup_keys)
  have mapped : (log.types.toList.map fun entry => (image entry.1, entry.2)).Nodup :=
    (distinct _).map fun _ _ equal =>
      Prod.ext (injective (Prod.mk.inj equal).1) (Prod.mk.inj equal).2
  refine (List.perm_ext_iff_of_nodup (distinct _) mapped).mpr fun (id', ty) => ?_
  rw [Std.TreeMap.mem_toList_iff_getElem?_eq_some, List.mem_map]
  constructor
  · intro isTy
    have isKey : id' ∈ log'.types :=
      Std.TreeMap.mem_iff_isSome_getElem?.mpr (Option.isSome_of_eq_some isTy)
    rcases same.keys id' isKey with ⟨id, rfl⟩
    rw [same.types] at isTy
    exact ⟨(id, ty), Std.TreeMap.mem_toList_iff_getElem?_eq_some.mpr isTy, rfl⟩
  · rintro ⟨⟨id, _⟩, listed, ⟨⟩⟩
    rw [same.types]
    exact Std.TreeMap.mem_toList_iff_getElem?_eq_some.mp listed

/-- The second outcome of a check is the first one under the images of its identifiers: either
both are tables, with the same types of the same nodes, or both are the same problems in the
same order at the same nodes. -/
def OutcomeMapsTo (image : NodeId → NodeId) :
    Except (List Problem) TypeTable → Except (List Problem) TypeTable → Prop
  | .ok types, .ok types' =>
      types'.toList.Perm (types.toList.map fun entry => (image entry.1, entry.2))
  | .error problems, .error problems' => problems' = problems.map (Problem.mapIds image)
  | _, _ => False

end Check

/-- Injective maps of identifiers keep the outcome of a check. -/
theorem Shader.check_mapIds_of_injective {image : NodeId → NodeId}
    (injective : Function.Injective image) (shader : Shader) (version : Version) :
    Check.OutcomeMapsTo image (shader.check version) ((shader.mapIds image).check version) := by
  have same := (Check.agrees_checkShader injective shader version).logs _ _ Check.mapsTo_empty
  have isEmpty := congrArg List.isEmpty same.problems
  rw [List.isEmpty_map] at isEmpty
  unfold check
  dsimp only
  rw [isEmpty]
  split
  · exact same.perm_types injective
  · exact same.problems

end Whittle
