import Whittle.Reduction.Jumps
import Whittle.Reduction.Names
import Whittle.Reduction.Site
import Whittle.Syntax.Target
import Whittle.Syntax.Numbering

namespace Whittle
namespace Reduction

/-!
# Replacing switches by conditions

A switch in which no control falls from one arm into the next does what a chain
of conditions does.  An arm is a group of labels with one body; the `break` at
its end is not part of it.
-/

/-- Labels that share a body. -/
structure Arm where
  labels : List Label
  body : List Stmt

/-- Whether the arm is chosen when no label fits. -/
def Arm.isDefault (arm : Arm) : Bool :=
  arm.labels.contains .otherwise

/-- The body of a case as that of an arm.  Only the last case may do without a
`break` at its end, and no other `break` may leave the switch. -/
def armBody? (isLast : Bool) (body : List Stmt) : Option (List Stmt) :=
  let endsInBreak := body.getLast?.any Stmt.isBreak
  let stmts := if endsInBreak then body.dropLast else body
  if (endsInBreak || isLast) && (Jumps.ofStmts stmts).breaks == 0 then some stmts else none

/-- The arms of a switch, or nothing if control can fall from one into the next
or leave one before its end.  The labels in front of the cases that still lack
a body are given as `labels`. -/
def armsFrom? (labels : List Label) : List Case → Option (List Arm)
  | [] => some []
  | .mk _ label body :: rest =>
      let labels := labels ++ [label]
      if body.isEmpty && !rest.isEmpty then armsFrom? labels rest
      else do
        let stmts ← armBody? rest.isEmpty body
        let others ← armsFrom? [] rest
        some (⟨labels, stmts⟩ :: others)

def arms? (cases : List Case) : Option (List Arm) :=
  armsFrom? [] cases

/-- Whether no arm mentions a name that another one declares.  In the switch
the arms share a scope, and as branches they do not. -/
def areIndependent (arms : List Arm) : Bool :=
  arms.zipIdx.all fun (arm, position) =>
    (arm.body.filterMap Stmt.declared?).all fun var =>
      (arms.eraseIdx position).all fun other => !(Names.ofStmts other.body).mentions var.name

/-- The selector without the marker around it. -/
def comparedSelector (selector : Expr) : Expr :=
  match selector.bare with
  | .call _ callee [inner] =>
      if Marker.ofName? callee == some .switch then inner else selector
  | _ => selector

structure SwitchChain where
  stmt : NodeId
deriving DecidableEq

namespace SwitchChain

def ofStmt? (everywhere : Bool) (shader : Shader) : Stmt → Option SwitchChain
  | .switch id selector cases =>
      let targeted := everywhere || Marker.of? selector == some .switch
      if targeted && isPure shader (comparedSelector selector) &&
          (arms? cases).any areIndependent then
        some ⟨id⟩
      else none
  | _ => none

/-- The switches in a shader that can be replaced.  The selector is evaluated
again for each label in the chain, so it must have no effect. -/
def find (everywhere : Bool) (shader : Shader) : List SwitchChain :=
  (sites shader).filterMap fun site => ofStmt? everywhere shader site.stmt

/-- Statements as a block with new identifiers of its own. -/
def block (stmts : List Stmt) : StateM Shader Stmt := do
  let scope ← Shader.freshId
  let id ← Shader.freshId
  return .block id scope stmts

/-- The comparison of a selector with a number, with new identifiers
throughout. -/
def comparison (selector : Expr) (number : Int) : StateM Shader Expr := do
  let lhs ← fun shader => shader.refreshExpr selector
  let rhs ← Shader.freshId
  let id ← Shader.freshId
  return .binary id .eq lhs (.int rhs number)

/-- The condition extended by one comparison for each further label. -/
def alternatives (selector : Expr) (cond : Option Expr) :
    List Label → StateM Shader (Option Expr)
  | [] => return cond
  | .otherwise :: rest => alternatives selector cond rest
  | .value number :: rest => do
      let test ← comparison selector number
      match cond with
      | none => alternatives selector (some test) rest
      | some before =>
          let id ← Shader.freshId
          alternatives selector (some (.binary id .or before test)) rest

/-- The chain with a condition for each arm in front of it.  The arms come in
reverse order, so the first one ends up outermost. -/
def prepend (selector : Expr) (chain : Option Stmt) : List Arm → StateM Shader (Option Stmt)
  | [] => return chain
  | arm :: rest => do
      match ← alternatives selector none arm.labels with
      | none => prepend selector chain rest
      | some cond =>
          let whenTrue ← block arm.body
          let id ← Shader.freshId
          prepend selector (some (.branch id cond whenTrue chain)) rest

/-- The chain of conditions for the arms of a switch.  The default arm needs no
condition and comes last. -/
def chain (selector : Expr) (arms : List Arm) : StateM Shader (Option Stmt) := do
  let last ← match arms.find? Arm.isDefault with
    | some arm =>
        let s ← block arm.body
        pure (some s)
    | none => pure none
  prepend selector last (arms.filter fun arm => !arm.isDefault).reverse

/-- Put the chain in the place of the switch, under its identifier; a switch
without any arm becomes an empty statement. -/
def apply (edit : SwitchChain) (shader : Shader) : Shader :=
  match shader.findStmt? edit.stmt with
  | some (.switch _ selector cases) =>
      match arms? cases with
      | none => shader
      | some arms =>
          let (replacement, drawn) := (chain (comparedSelector selector) arms).run shader
          let replacement := (replacement.getD (.empty edit.stmt)).withId edit.stmt
          (drawn.replaceStmt edit.stmt replacement).1
  | _ => shader

/-- The line that announces the edit. -/
def describe (edit : SwitchChain) : String :=
  "replace switch " ++ edit.stmt.text ++ " with if statements"

end SwitchChain
end Reduction
end Whittle
