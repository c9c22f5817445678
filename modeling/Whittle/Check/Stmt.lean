import Whittle.Check.Expr

namespace Whittle
namespace Check

/-!
# Checking statements

Checking a statement yields the context of the statement behind it.  Only a
declaration changes it, and only in the innermost scope; whatever a statement
opens inside itself is closed again because its own context is what counts
behind it.
-/

/-- What names begin with that the language keeps for itself. -/
def reservedStem : List Char := ['g', 'l', '_']

/-- Whether the language keeps the name for itself. -/
def isReservedName (name : String) : Bool :=
  reservedStem.isPrefixOf name.toList

/-- Declare a name in the innermost scope.  A second declaration there is
reported and replaces the first. -/
def declare (ctx : Context) (id : NodeId) (name : String) (binding : Binding) :
    Checker Context := do
  if isReservedName name then
    report id (.reservedIdentifier name)
    pure ctx
  else
    reportIf (ctx.inner.lookup name).isSome id (.redeclared name)
    pure (ctx.bound name binding)

/-- Whether a type may be used at a node: it must be known, and `void` only
where `voidAllowed` says so. -/
def usable (ctx : Context) (id : NodeId) (ty : Ty) (voidAllowed : Bool) : Checker Bool :=
  match ty with
  | .void =>
      if voidAllowed then pure true
      else do
        report id .voidVariable
        pure false
  | .struct name =>
      if (ctx.struct? name).isSome then pure true
      else do
        report id (.unknownType name)
        pure false
  | _ => pure true

/-- Whether a variable with this qualifier may be written. -/
def isWritable : Option Qualifier → Bool
  | some .const | some .uniform | some .input => false
  | some .output | none => true

/-- Check an expression, whose type must not be a `wrong` one.  This is reported
at `node`. -/
def expect (ctx : Context) (e : Expr) (node : NodeId) (wrong : Ty → Bool) (fault : Ty → Fault) :
    Checker Unit := do
  match ← infer ctx e with
  | some ty => reportIf (wrong ty) node (fault ty)
  | none => pure ()

def checkOptional (check : Expr → Checker Unit) : Option Expr → Checker Unit
  | some e => check e
  | none => pure ()

/-- Check a variable, global or local, and declare it.  Its initialiser does
not see it. -/
def checkVar (ctx : Context) (var : VarDecl) : Checker Context := do
  let typeOk ← usable ctx var.id var.ty false
  reportIf (var.qualifier == some .const && var.init.isNone) var.id (.initializerMissing var.name)
  checkOptional (fun init => expect ctx init init.id (fun ty => typeOk && ty != var.ty)
    (.initializerType var.name var.ty)) var.init
  declare ctx var.id var.name ⟨var.ty, isWritable var.qualifier⟩

def checkCondition (ctx : Context) (condition : Condition) (e : Expr) : Checker Unit :=
  expect ctx e e.id (· != .bool) (.conditionType condition)

/-- Check a `return` against the function around it. -/
def checkReturn (ctx : Context) (id : NodeId) (value : Option Expr) : Checker Unit :=
  match ctx.returnTy, value with
  | none, _ => report id .returnOutside
  | some expected, none => reportIf (expected != .void) id (.valueMissing expected)
  | some expected, some e =>
      if expected == .void then expect ctx e id (fun _ => true) fun _ => .valueReturned
      else expect ctx e e.id (· != expected) fun found => .returnType found expected

/-- Whether a local variable may have this qualifier. -/
def isLocalQualifier : Option Qualifier → Bool
  | none | some .const => true
  | _ => false

mutual

def checkStmt (ctx : Context) : Stmt → Checker Context
  | .decl id var => do
      noteId id
      noteId var.id
      reportIf (!isLocalQualifier var.qualifier) var.id .localQualifier
      checkVar ctx var
  | .expr id e => do
      noteId id
      let _ ← infer ctx e
      pure ctx
  | .block id scope stmts => do
      noteId id
      noteId scope
      let _ ← checkStmts ctx.opened stmts
      pure ctx
  | .branch id cond whenTrue whenFalse => do
      noteId id
      checkCondition ctx .branch cond
      let _ ← checkStmt ctx.opened whenTrue
      match whenFalse with
      | none => pure ctx
      | some s => do
          let _ ← checkStmt ctx.opened s
          pure ctx
  | .forLoop id init cond step body => do
      noteId id
      let header ← checkLoopInit ctx.opened init
      checkOptional (checkCondition header .loop) cond
      checkOptional (fun e => do let _ ← infer header e) step
      match body with
      | .block bodyId scope stmts => do
          noteId bodyId
          noteId scope
          let _ ← checkStmts header.inLoop stmts
          pure ctx
      | s => do
          let _ ← checkStmt header.inLoop.opened s
          pure ctx
  | .whileLoop id cond body => do
      noteId id
      checkCondition ctx .loop cond
      let _ ← checkStmt ctx.inLoop.opened body
      pure ctx
  | .switch id selector cases => do
      noteId id
      reportIf (!ctx.version.hasSwitch) id (.noSwitch ctx.version)
      expect ctx selector selector.id (· != .int) .selectorType
      reportIf cases.isEmpty id .noCases
      let _ ← checkCases ctx.inSwitch.opened [] cases
      pure ctx
  | .ret id value => do
      noteId id
      checkReturn ctx id value
      pure ctx
  | .breakOut id => do
      noteId id
      reportIf (ctx.loops == 0 && ctx.switches == 0) id .breakOutside
      pure ctx
  | .continueLoop id => do
      noteId id
      reportIf (ctx.loops == 0) id .continueOutside
      pure ctx
  | .discard id => do
      noteId id
      pure ctx
  | .empty id => do
      noteId id
      pure ctx

/-- Check the initialiser of a loop.  What cannot initialise a loop is not looked
at. -/
def checkLoopInit (ctx : Context) : Option Stmt → Checker Context
  | none => pure ctx
  | some s =>
      if s.isLoopInit then checkStmt ctx s
      else do
        report s.id .loopInit
        pure ctx

def checkStmts (ctx : Context) : List Stmt → Checker Context
  | [] => pure ctx
  | s :: rest => do
      let behind ← checkStmt ctx s
      checkStmts behind rest

/-- Check the cases of a switch, which share a scope.  The labels in front of
them are given as `before`. -/
def checkCases (ctx : Context) (before : List Label) : List Case → Checker Context
  | [] => pure ctx
  | .mk id label body :: rest => do
      noteId id
      reportIf (before.contains label) id (.repeatedLabel label)
      let behind ← checkStmts ctx body
      checkCases behind (label :: before) rest

end

end Check
end Whittle
