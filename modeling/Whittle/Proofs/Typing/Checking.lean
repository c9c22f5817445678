import Whittle.Proofs.Typing.Inference

namespace Whittle
namespace Check

/-!
# A shader is valid if it follows the rules

The parts of a check are judged from the inside to the outside.  For the whole
shader the log is empty at first, so what remains of the judgement is that no
identifier stands twice and that the rules are followed, and the table of types
holds what the rules give.
-/

namespace Context

def entriesOf (all : List Placed) : List (NodeId × Ty) :=
  all.flatMap Placed.entries

theorem entriesOf_singleton (ctx : Context) (e : Expr) : entriesOf [⟨ctx, e⟩] = ctx.entries e :=
  List.flatMap_singleton _ _

theorem entriesOf_cons (ctx : Context) (e : Expr) (rest : List Placed) :
    entriesOf (⟨ctx, e⟩ :: rest) = ctx.entries e ++ entriesOf rest :=
  List.flatMap_cons

theorem entriesOf_append (first second : List Placed) :
    entriesOf (first ++ second) = entriesOf first ++ entriesOf second :=
  List.flatMap_append

end Context

open Context

theorem judges_usable (log : Log) (ctx : Context) (id : NodeId) (ty : Ty) (voidAllowed : Bool) :
    Judges log (usable ctx id ty voidAllowed) [] [] (ctx.Knows ty voidAllowed) true := by
  have rejected : ∀ fault, Judges log (report id fault >>= fun _ => pure false) [] [] False true :=
    fun fault => judges_report log id fault [] [] (pure false) (.pure _) true
  cases ty with
  | scalar | vector => exact .pure log true
  | void =>
      cases voidAllowed with
      | true => exact (Judges.pure log true).of_ok_iff (by simp only [Knows])
      | false => exact (rejected _).of_ok_iff (by simp only [Knows, Bool.false_eq_true])
  | struct name =>
      by_cases known : (ctx.struct? name).isSome
      · simp only [usable, Knows, if_pos known]
        exact (Judges.pure log true).of_ok_iff (iff_true_intro known)
      · simp only [usable, Knows, if_neg known]
        exact (rejected _).of_ok_iff (iff_false_intro known)

theorem judges_declare (log : Log) (ctx : Context) (id : NodeId) (name : String)
    (binding : Binding) :
    Judges log (declare ctx id name binding) [] [] (ctx.CanDeclare name)
      (ctx.declared name binding) := by
  unfold declare declared CanDeclare
  by_cases reserved : isReservedName name
  · rw [if_pos reserved, if_pos reserved, reserved]
    exact (judges_report log id _ [] [] (pure ctx) (.pure _) ctx).of_ok_iff
      (by simp only [Bool.true_eq_false, false_and])
  · rw [if_neg reserved, if_neg reserved]
    refine ((judges_reportIf log _ id _).andPure _).of_ok_iff ?_
    rw [Option.isSome_eq_false_iff, Option.isNone_iff_eq_none, and_iff_right_iff_imp]
    exact fun _ => Bool.eq_false_iff.mpr reserved

theorem judges_expect (log : Log) (ctx : Context) (e : Expr) (node : NodeId) (wrong : Ty → Bool)
    (fault : Ty → Fault) :
    Judges log (expect ctx e node wrong fault) e.ids (ctx.entries e)
      (∃ ty, ctx.typeOf e = some ty ∧ wrong ty = false) () := by
  unfold expect
  refine ((judges_infer ctx e log).bind_some (fun typed => ?_) (fun between ty _ _ isTy => ?_)
    fun ty? => ?_).congr (.of_eq (List.append_nil _).symm) (List.append_nil _).symm .rfl
  · rcases typed with ⟨ty, isTy, _⟩
    exact Option.isSome_of_eq_some isTy
  · refine (judges_reportIf between (wrong ty) node (fault ty)).of_ok_iff ?_
    simp only [isTy, Option.some.injEq, exists_eq_left']
  · cases ty? with
    | none => exact .pure _
    | some ty => exact grows_reportIf _ _ _

theorem judges_checkOptional {ctx : Context} {check : Expr → Checker Unit} {ok : Expr → Prop}
    (log : Log) (judges : ∀ e log, Judges log (check e) e.ids (ctx.entries e) (ok e) ())
    (e? : Option Expr) :
    Judges log (checkOptional check e?) (Expr.idsOfOption e?) (entriesOf (ctx.placedOption e?))
      (∀ e ∈ e?, ok e) () := by
  cases e? with
  | none => exact (Judges.pure log ()).of_ok_iff (by simp)
  | some e =>
      exact (judges e log).congr (.refl _) (entriesOf_singleton _ _) (by simp)

theorem judges_checkCondition (log : Log) (ctx : Context) (condition : Condition) (e : Expr) :
    Judges log (checkCondition ctx condition e) e.ids (ctx.entries e)
      (ctx.typeOf e = some .bool) () := by
  refine (judges_expect log ctx e e.id _ _).of_ok_iff ?_
  simp

theorem judges_checkVar (log : Log) (ctx : Context) (var : VarDecl) :
    Judges log (checkVar ctx var) (Expr.idsOfOption var.init)
      (entriesOf (ctx.placedOption var.init)) (ctx.AcceptsVar var) (ctx.behindVar var) := by
  -- The rest is judged for an unknown type as well, since it has to be run then.
  have rest : ∀ (typeOk : Bool) (log : Log), Judges log _ _ _ _ _ := fun typeOk log =>
    (judges_reportIf log (var.qualifier == some .const && var.init.isNone) var.id
      (.initializerMissing var.name)).andThen fun between =>
      (judges_checkOptional between (fun e log => judges_expect log ctx e e.id
        (fun ty => typeOk && ty != var.ty) (.initializerType var.name var.ty)) var.init).andThen
        fun between => judges_declare between ctx var.id var.name ⟨var.ty, isWritable var.qualifier⟩
  refine ((judges_usable log ctx var.id var.ty false).bind (fun between _ _ _ => rest true between)
    fun typeOk => .of_judges (rest typeOk)).congr (.of_eq (List.append_nil _).symm)
      (List.append_nil _).symm ?_
  constructor
  · intro accepted
    refine ⟨accepted.known, ?_, fun init isInit => ⟨var.ty, accepted.initialised init isInit, ?_⟩,
      accepted.free⟩
    · by_cases isConst : var.qualifier = some .const
      · simp [isConst, accepted.isSet isConst]
      · simp [isConst]
    · simp
  · rintro ⟨known, isSet, initialised, free⟩
    refine ⟨known, fun isConst => ?_, fun init isInit => ?_, free⟩
    · simpa [isConst, Option.isSome_iff_ne_none] using isSet
    · rcases initialised init isInit with ⟨ty, isTy, same⟩
      simp only [Bool.true_and, bne_eq_false_iff_eq] at same
      rw [isTy, same]

theorem judges_checkReturn (log : Log) (ctx : Context) (id : NodeId) (value : Option Expr) :
    Judges log (checkReturn ctx id value) (Expr.idsOfOption value)
      (entriesOf (ctx.placedOption value)) (ctx.AcceptsReturn value) () := by
  unfold checkReturn AcceptsReturn
  cases ctx.returnTy with
  | none => exact judges_report log id _ _ _ (pure ()) (.pure _) ()
  | some expected =>
      cases value with
      | none => exact (judges_reportIf log (expected != .void) id _).of_ok_iff (by simp)
      | some e =>
          dsimp only
          by_cases isVoid : expected = .void
          · rw [isVoid, beq_self_eq_true, if_pos rfl]
            exact (judges_expect log ctx e id _ _).congr (.refl _) (entriesOf_singleton _ _)
              (by simp)
          · rw [beq_eq_false_iff_ne.mpr isVoid, if_neg Bool.false_ne_true]
            exact (judges_expect log ctx e e.id _ _).congr (.refl _) (entriesOf_singleton _ _)
              (by simp [isVoid])

/-- A loop is judged by its header and by its body behind the header. -/
theorem judges_forLoop (log : Log) (ctx : Context) (id : NodeId) (init : Option Stmt)
    (cond step : Option Expr) {bodySteps : Context → Checker Context} {bodyIds : List NodeId}
    (placedBody : Context → List Placed) (okBody : Context → Prop)
    (judgesInit : ∀ log, Judges log (checkLoopInit ctx.opened init) (Stmt.idsOfOption init)
      (entriesOf (ctx.opened.placedOfOption init))
      ((∀ s ∈ init, s.isLoopInit) ∧ ctx.opened.AcceptsOption init) (ctx.header init))
    (judgesBody : ∀ header log,
      Judges log (bodySteps header) bodyIds (entriesOf (placedBody header)) (okBody header) ctx) :
    Judges log
      (do
        noteId id
        let header ← checkLoopInit ctx.opened init
        checkOptional (checkCondition header .loop) cond
        checkOptional (fun e => do let _ ← infer header e) step
        bodySteps header)
      (id :: (Stmt.idsOfOption init ++
        (Expr.idsOfOption cond ++ (Expr.idsOfOption step ++ bodyIds))))
      (entriesOf (ctx.opened.placedOfOption init ++ ((ctx.header init).placedOption cond ++
        ((ctx.header init).placedOption step ++ placedBody (ctx.header init)))))
      ((∀ s ∈ init, s.isLoopInit) ∧ ctx.opened.AcceptsOption init ∧
        (∀ e ∈ cond, (ctx.header init).typeOf e = some .bool) ∧
        (∀ e ∈ step, ((ctx.header init).typeOf e).isSome) ∧ okBody (ctx.header init)) ctx := by
  have rest : ∀ (header : Context) (log : Log), Judges log _ _ _ _ _ := fun header log =>
    (judges_checkOptional log (fun e log => judges_checkCondition log header .loop e) cond).andThen
      fun between => (judges_checkOptional between
        (fun e log => (judges_infer header e log).andPure ()) step).andThen (judgesBody header)
  refine ((judges_noteId log id).andThen fun between => (judgesInit between).bind
    (fun between _ _ _ => rest (ctx.header init) between)
    fun header => .of_judges (rest header)).congr (.refl _) ?_ ?_
  · simp only [entriesOf_append, List.nil_append]
  · rw [true_and, and_assoc]

mutual

theorem judges_checkStmt (log : Log) (ctx : Context) (s : Stmt) :
    Judges log (checkStmt ctx s) s.ids (entriesOf (ctx.placed s)) (ctx.Accepts s)
      (ctx.behind s) := by
  cases s with
  | decl id var =>
      unfold checkStmt Stmt.ids placed Accepts behind
      refine ((judges_noteId log id).andThen fun between => (judges_noteId between var.id).andThen
        fun between => (judges_reportIf between _ var.id _).andThen fun between =>
          judges_checkVar between ctx var).of_ok_iff ?_
      simp
  | expr id e =>
      unfold checkStmt Stmt.ids placed Accepts behind
      refine ((judges_noteId log id).andThen fun between =>
        (judges_infer ctx e between).andPure ctx).congr (.refl _) (entriesOf_singleton _ _) ?_
      simp
  | block id scope stmts =>
      unfold checkStmt Stmt.ids placed Accepts behind
      refine ((judges_noteId log id).andThen fun between => (judges_noteId between scope).andThen
        fun between => (judges_checkStmts between ctx.opened stmts).andPure ctx).of_ok_iff ?_
      simp
  | branch id cond whenTrue whenFalse =>
      unfold checkStmt Stmt.ids placed Accepts behind
      rw [entriesOf_cons, entriesOf_append]
      cases whenFalse with
      | none =>
          exact ((judges_noteId log id).andThen fun between =>
            (judges_checkCondition between ctx .branch cond).andThen fun between =>
            (judges_checkStmt between ctx.opened whenTrue).andThen fun between =>
              .pure between ctx).of_ok_iff (by simp [AcceptsOption])
      | some s =>
          exact ((judges_noteId log id).andThen fun between =>
            (judges_checkCondition between ctx .branch cond).andThen fun between =>
            (judges_checkStmt between ctx.opened whenTrue).andThen fun between =>
              (judges_checkStmt between ctx.opened s).andPure ctx).of_ok_iff
                (by simp [AcceptsOption])
  | whileLoop id cond body =>
      unfold checkStmt Stmt.ids placed Accepts behind
      refine ((judges_noteId log id).andThen fun between =>
        (judges_checkCondition between ctx .loop cond).andThen fun between =>
          (judges_checkStmt between ctx.inLoop.opened body).andPure ctx).congr (.refl _) ?_ ?_
      · rfl
      · simp
  | switch id selector cases =>
      unfold checkStmt Stmt.ids placed Accepts behind
      refine ((judges_noteId log id).andThen fun between =>
        (judges_reportIf between _ id _).andThen fun between =>
        (judges_expect between ctx selector selector.id _ _).andThen fun between =>
        (judges_reportIf between _ id _).andThen fun between =>
          (judges_checkCases between ctx.inSwitch.opened [] cases).andPure ctx).congr (.refl _)
            ?_ ?_
      · rfl
      · simp
  | forLoop id init cond step body =>
      have judgesInit := fun log => judges_checkLoopInit log ctx init
      cases body with
      | block bodyId scope stmts =>
          exact judges_forLoop log ctx id init cond step
            (fun header => header.inLoop.placedList stmts)
            (fun header => header.inLoop.AcceptsList stmts) judgesInit fun header log =>
              ((judges_noteId log bodyId).andThen fun between =>
                (judges_noteId between scope).andThen fun between =>
                  (judges_checkStmts between header.inLoop stmts).andPure ctx).of_ok_iff (by simp)
      | _ =>
          exact judges_forLoop log ctx id init cond step
            (fun header => header.inLoop.opened.placed _)
            (fun header => header.inLoop.opened.Accepts _) judgesInit fun header log =>
              (judges_checkStmt log header.inLoop.opened _).andPure ctx
  | ret id value =>
      unfold checkStmt Stmt.ids placed Accepts behind
      refine ((judges_noteId log id).andThen fun between =>
        (judges_checkReturn between ctx id value).andPure ctx).of_ok_iff ?_
      simp
  | breakOut id =>
      unfold checkStmt Stmt.ids placed Accepts behind
      refine ((judges_noteId log id).andThen fun between =>
        (judges_reportIf between _ id _).andPure ctx).of_ok_iff ?_
      rw [true_and, Bool.and_eq_false_iff, beq_eq_false_iff_ne, beq_eq_false_iff_ne]
  | continueLoop id =>
      unfold checkStmt Stmt.ids placed Accepts behind
      refine ((judges_noteId log id).andThen fun between =>
        (judges_reportIf between _ id _).andPure ctx).of_ok_iff ?_
      simp
  | discard id => exact (judges_noteId log id).andPure ctx
  | empty id => exact (judges_noteId log id).andPure ctx

/-- What cannot initialise a loop is rejected, and declares nothing. -/
theorem judges_checkLoopInit (log : Log) (ctx : Context) (init : Option Stmt) :
    Judges log (checkLoopInit ctx.opened init) (Stmt.idsOfOption init)
      (entriesOf (ctx.opened.placedOfOption init))
      ((∀ s ∈ init, s.isLoopInit) ∧ ctx.opened.AcceptsOption init) (ctx.header init) := by
  match init with
  | none => exact (Judges.pure log ctx.opened).of_ok_iff (by simp [AcceptsOption])
  | some s =>
      by_cases isInit : s.isLoopInit
      · simp only [checkLoopInit, header, if_pos isInit]
        exact (judges_checkStmt log ctx.opened s).of_ok_iff (by simp [AcceptsOption, isInit])
      · simp only [checkLoopInit, header, if_neg isInit]
        exact (judges_report log s.id _ _ _ (pure ctx.opened) (.pure _) ctx.opened).of_ok_iff
          (by simp [isInit])

theorem judges_checkStmts (log : Log) (ctx : Context) (stmts : List Stmt) :
    Judges log (checkStmts ctx stmts) (Stmt.idsOfList stmts) (entriesOf (ctx.placedList stmts))
      (ctx.AcceptsList stmts) (ctx.behindList stmts) := by
  match stmts with
  | [] => exact .pure log ctx
  | s :: rest =>
      unfold checkStmts Stmt.idsOfList placedList AcceptsList behindList
      refine ((judges_checkStmt log ctx s).bind (fun between _ _ _ =>
        judges_checkStmts between (ctx.behind s) rest) fun behind => .of_judges fun log =>
          judges_checkStmts log behind rest).congr (.refl _) (entriesOf_append _ _) .rfl

theorem judges_checkCases (log : Log) (ctx : Context) (before : List Label) (cases : List Case) :
    Judges log (checkCases ctx before cases) (Stmt.idsOfCases cases)
      (entriesOf (ctx.placedCases cases)) (ctx.AcceptsCases before cases)
      (ctx.behindCases cases) := by
  match cases with
  | [] => exact .pure log ctx
  | .mk id label body :: rest =>
      unfold checkCases Stmt.idsOfCases placedCases AcceptsCases behindCases
      refine ((judges_noteId log id).andThen fun between =>
        (judges_reportIf between _ id _).andThen fun between =>
        (judges_checkStmts between ctx body).bind (fun between _ _ _ =>
          judges_checkCases between (ctx.behindList body) (label :: before) rest)
          fun behind => .of_judges fun log =>
            judges_checkCases log behind (label :: before) rest).congr (.refl _)
              (entriesOf_append _ _) ?_
      simp

end

/-! ## Declarations -/

theorem judges_checkFields (log : Log) (ctx : Context) (struct : String) (before : List String)
    (fields : List Field) :
    Judges log (checkFields ctx struct before fields) (fields.map Field.id) []
      (ctx.AcceptsFields before fields) () := by
  induction fields generalizing log before with
  | nil => exact .pure log ()
  | cons field rest inductionHypothesis =>
      refine ((judges_noteId log field.id).andThen fun between =>
        (judges_usable between ctx field.id field.ty false).andThen fun between =>
        (judges_reportIf between _ field.id _).andThen fun between =>
          inductionHypothesis between (field.name :: before)).of_ok_iff ?_
      simp [AcceptsFields]

theorem judges_checkParams (log : Log) (ctx : Context) (params : List Param) :
    Judges log (checkParams ctx params) (params.map Param.id) [] (ctx.AcceptsParams params)
      (ctx.behindParams params) := by
  induction params generalizing log ctx with
  | nil => exact .pure log ctx
  | cons param rest inductionHypothesis =>
      refine ((judges_noteId log param.id).andThen fun between =>
        (judges_usable between ctx param.id param.ty false).andThen fun between =>
        (judges_declare between ctx param.id param.name ⟨param.ty, true⟩).bind
          (fun between _ _ _ => inductionHypothesis between _)
          fun behind => .of_judges fun log => inductionHypothesis log behind).of_ok_iff ?_
      simp [AcceptsParams]

/-- A struct whose name is taken is rejected whatever its fields. -/
theorem judges_checkStruct (log : Log) (ctx : Context) (decl : StructDecl) :
    Judges log (checkStruct ctx decl) (decl.fields.map Field.id) [] (ctx.AcceptsDecl (.struct decl))
      (ctx.behindDecl (.struct decl)) := by
  by_cases isTaken : ctx.taken.contains decl.name
  · simp only [checkStruct, behindDecl, if_pos isTaken]
    refine (judges_report log decl.id _ _ _ (pure ctx) (.pure _) ctx).of_ok_iff ?_
    exact iff_false_intro fun accepted => accepted.1 (List.contains_iff_mem.mp isTaken)
  · simp only [checkStruct, behindDecl, if_neg isTaken]
    refine ((judges_reportIf log _ decl.id _).andThen fun between =>
      (judges_checkFields between ctx decl.name [] decl.fields).andPure _).of_ok_iff ?_
    rw [List.contains_iff_mem] at isTaken
    simp [AcceptsDecl, isTaken]

theorem judges_checkGlobalQualifier (log : Log) (version : Version) (var : VarDecl) :
    Judges log (checkGlobalQualifier version var) [] [] (AcceptsQualifier version var) () := by
  unfold checkGlobalQualifier AcceptsQualifier
  dsimp only
  split
  · rename_i wrong
    refine (judges_report log var.id _ [] [] (pure ()) (.pure _) ()).of_ok_iff ?_
    simp only [Bool.and_eq_true, Bool.or_eq_true, beq_iff_eq, Bool.not_eq_true'] at wrong
    simp [wrong]
  · rename_i fits
    refine (judges_reportIf log _ var.id _).of_ok_iff ?_
    simp only [Bool.and_eq_true, Bool.or_eq_true, beq_iff_eq, Bool.not_eq_true', not_and,
      Bool.not_eq_false] at fits
    rw [and_iff_right fits, Bool.and_eq_false_imp]
    simp

/-- A global variable whose name is taken is rejected whatever its initialiser. -/
theorem judges_checkGlobal (log : Log) (ctx : Context) (var : VarDecl) :
    Judges log (checkGlobal ctx var) (Expr.idsOfOption var.init)
      (entriesOf (ctx.placedDecl (.global var))) (ctx.AcceptsDecl (.global var))
      (ctx.behindDecl (.global var)) := by
  by_cases isTaken : ctx.taken.contains var.name
  · simp only [checkGlobal, behindDecl, if_pos isTaken]
    refine (judges_report log var.id _ _ _ (pure ctx) (.pure _) ctx).of_ok_iff ?_
    exact iff_false_intro fun accepted => accepted.1 (List.contains_iff_mem.mp isTaken)
  · simp only [checkGlobal, behindDecl, if_neg isTaken]
    refine ((judges_checkGlobalQualifier log ctx.version var).andThen fun between =>
      judges_checkVar between (ctx.taking var.name) var).of_ok_iff ?_
    rw [List.contains_iff_mem] at isTaken
    simp [AcceptsDecl, isTaken]

theorem judges_checkFunction (log : Log) (ctx : Context) (f : Function) :
    Judges log (checkFunction ctx f)
      (f.params.map Param.id ++ (f.body.id :: Stmt.idsOfList f.body.stmts))
      (entriesOf (ctx.placedDecl (.function f))) (ctx.AcceptsFunction f)
      (ctx.behindDecl (.function f)) := by
  have rest : ∀ (body : Context) (log : Log), Judges log _ _ _ _ _ := fun body log =>
    (judges_noteId log f.body.id).andThen fun between =>
    (judges_reportIf between f.body.stmts.isEmpty f.id (.emptyBody f.name)).andThen fun between =>
    (judges_checkStmts between { body with returnTy := some f.returnTy } f.body.stmts).andThen
    fun between =>
      (judges_reportIf between (f.returnTy != .void && !f.body.holdsReturn) f.id
        (.returnMissing f.name)).andPure (ctx.behindDecl (.function f))
  refine ((judges_reportIf log (ctx.taken.contains f.name) f.id _).andThen fun between =>
    (judges_reportIf between (isReservedName f.name) f.id _).andThen fun between =>
    (judges_usable between ctx f.id f.returnTy true).andThen fun between =>
    (judges_checkParams between ctx.opened f.params).bind (fun between _ _ _ => rest _ between)
      fun body => .of_judges (rest body)).congr ?_ ?_ ?_
  · exact .of_eq (by simp)
  · simp [placedDecl, inFunction]
  · have notTaken : ctx.taken.contains f.name = false ↔ f.name ∉ ctx.taken := by
      rw [← Bool.not_eq_true, List.contains_iff_mem]
    have notEmpty : f.body.stmts.isEmpty = false ↔ f.body.stmts ≠ [] := by
      rw [← Bool.not_eq_true, List.isEmpty_iff]
    have returns : (f.returnTy != .void && !f.body.holdsReturn) = false ↔
        (f.returnTy ≠ .void → f.body.holdsReturn = true) := by
      simp
    rw [notTaken, notEmpty, returns, true_and]
    constructor
    · intro accepted
      exact ⟨accepted.notTaken, accepted.notReserved, accepted.known, accepted.params,
        accepted.notEmpty, accepted.body, accepted.returns⟩
    · rintro ⟨notTaken, notReserved, known, params, notEmpty, body, returns⟩
      exact { notTaken, notReserved, known, params, notEmpty, body, returns }

theorem judges_checkDecl (log : Log) (ctx : Context) (decl : Decl) :
    Judges log (checkDecl ctx decl) decl.ids (entriesOf (ctx.placedDecl decl))
      (ctx.AcceptsDecl decl) (ctx.behindDecl decl) := by
  have noted := judges_noteId log decl.id
  cases decl with
  | precision decl =>
      refine (noted.andThen fun between =>
        (judges_reportIf between _ decl.id _).andPure ctx).of_ok_iff ?_
      rw [true_and, Bool.and_eq_false_iff, bne_eq_false_iff_eq, bne_eq_false_iff_eq]
      rfl
  | struct decl =>
      exact (noted.andThen fun between => judges_checkStruct between ctx decl).of_ok_iff
        (iff_of_eq (true_and _)).symm
  | global var =>
      exact (noted.andThen fun between => judges_checkGlobal between ctx var).of_ok_iff
        (iff_of_eq (true_and _)).symm
  | function f =>
      exact (noted.andThen fun between => judges_checkFunction between ctx f).of_ok_iff
        (iff_of_eq (true_and _)).symm

theorem judges_checkDecls (log : Log) (ctx : Context) (decls : List Decl) :
    Judges log (checkDecls ctx decls) (decls.flatMap Decl.ids) (entriesOf (ctx.placedDecls decls))
      (ctx.AcceptsDecls decls) (ctx.behindDecls decls) := by
  induction decls generalizing log ctx with
  | nil => exact .pure log ctx
  | cons decl rest inductionHypothesis =>
      exact ((judges_checkDecl log ctx decl).bind
        (fun between _ _ _ => inductionHypothesis between (ctx.behindDecl decl))
        fun behind => .of_judges fun log => inductionHypothesis log behind).congr
          (.of_eq List.flatMap_cons) (entriesOf_append _ _) .rfl

theorem judges_checkMain (log : Log) (shader : Shader) :
    Judges log (checkMain shader) [] [] (HasMain shader) () := by
  unfold checkMain HasMain
  generalize (shader.functions.filter fun f => f.name == "main") = mains
  match mains with
  | [] =>
      constructor
      · intro _ impossible
        cases impossible
      · intro _
        show log.problems.length < (log.problems ++ [_]).length
        rw [List.length_append]
        exact Nat.lt_succ_self _
  | [main] =>
      refine (judges_reportIf log _ main.id _).of_ok_iff ?_
      simp
  | _ :: _ :: _ => exact .pure log ()

/-- The whole shader is judged by the rules. -/
theorem judges_checkShader (log : Log) (shader : Shader) (version : Version) :
    Judges log (checkShader shader version) shader.ids (shader.entries version)
      (shader.FollowsRules version) () := by
  refine ((judges_checkDecls log (.initial version) shader.decls).andThen fun between =>
    judges_checkMain between shader).congr (.of_eq (List.append_nil _).symm)
      (List.append_nil _).symm ?_
  exact ⟨fun follows => ⟨follows.decls, follows.main⟩, fun both => ⟨both.1, both.2⟩⟩

end Check

namespace Shader

variable {shader : Shader} {version : Version} {types : TypeTable}

/-- A shader is valid if no identifier stands twice in it and if it follows the
rules. -/
theorem isValid_iff : shader.IsValid version ↔ shader.ids.Nodup ∧ shader.FollowsRules version := by
  have allows : Check.Log.empty.Allows shader.ids ↔ shader.ids.Nodup :=
    ⟨Check.Log.Allows.nodup, fun nodup => ⟨nodup, fun _ _ => Std.TreeSet.not_mem_emptyc⟩⟩
  have judges := Check.judges_checkShader .empty shader version
  rw [← allows]
  unfold IsValid check
  dsimp only
  split
  · rename_i noProblem
    refine iff_of_true ⟨_, rfl⟩ ?_
    by_contra rejected
    have more := judges.rejects rejected
    rw [List.isEmpty_iff.mp noProblem] at more
    exact Nat.not_lt_zero _ more
  · rename_i problem
    refine iff_of_false (fun valid => by rcases valid with ⟨_, impossible⟩; cases impossible) ?_
    rintro ⟨isNew, follows⟩
    have adds := (judges.accepts isNew follows).2
    rw [adds.problems] at problem
    exact problem rfl

/-- The types that a check finds are those that the rules give. -/
theorem getElem?_eq_some_iff_of_check (checked : shader.check version = .ok types) {id : NodeId}
    {ty : Ty} : types[id]? = some ty ↔ (id, ty) ∈ shader.entries version := by
  have valid := isValid_iff.mp ⟨types, checked⟩
  have judges := Check.judges_checkShader .empty shader version
  have adds := (judges.accepts ⟨valid.1, fun _ _ => Std.TreeSet.not_mem_emptyc⟩ valid.2).2
  have same : types = ((Check.checkShader shader version).run .empty).2.types := by
    unfold check at checked
    dsimp only at checked
    split at checked
    · exact (Except.ok.inj checked).symm
    · cases checked
  rw [same]
  constructor
  · intro found
    by_cases isKey : id ∈ (shader.entries version).map Prod.fst
    · rcases List.mem_map.mp isKey with ⟨⟨_, other⟩, listed, rfl⟩
      rw [adds.recorded _ listed] at found
      rwa [← Option.some.inj found]
    · rw [adds.kept id isKey] at found
      cases found
  · exact adds.recorded (id, ty)

end Shader
end Whittle
