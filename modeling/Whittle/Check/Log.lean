import Std.Data.TreeMap
import Std.Data.TreeSet
import Whittle.Check.Context

namespace Whittle

abbrev TypeTable := Std.TreeMap NodeId Ty

namespace Check

/-!
# What a check finds out

A check goes through a shader in the order of the text.  On its way it collects
the problems, the types of expressions, and the identifiers it has met, since a
second node with the same identifier is a problem.
-/

/-- What has been found out so far. -/
structure Log where
  problems : List Problem
  types : TypeTable
  seen : Std.TreeSet NodeId

/-- Nothing has been found out. -/
def Log.empty : Log := ⟨[], ∅, ∅⟩

/-- Computations that add to what has been found out. -/
abbrev Checker := StateM Log

def report (node : NodeId) (fault : Fault) : Checker Unit :=
  modify fun log => { log with problems := log.problems ++ [⟨fault, some node⟩] }

def reportNowhere (fault : Fault) : Checker Unit :=
  modify fun log => { log with problems := log.problems ++ [⟨fault, none⟩] }

def reportIf (violated : Bool) (node : NodeId) (fault : Fault) : Checker Unit :=
  if violated then report node fault else pure ()

/-- Take note of an identifier, which must be new. -/
def noteId (id : NodeId) : Checker Unit := do
  reportIf ((← get).seen.contains id) id (.repeatedId id)
  modify fun log => { log with seen := log.seen.insert id }

/-- The type of an operation at a node, or a report of its fault. -/
def settle (node : NodeId) (result : Except Fault Ty) : Checker (Option Ty) :=
  match result with
  | .ok ty => pure (some ty)
  | .error fault => do
      report node fault
      pure none

/-- Go on with what a part yields, if it yields something. -/
def whenSome {α β : Type} (part : Checker (Option α)) (next : α → Checker (Option β)) :
    Checker (Option β) := do
  match ← part with
  | some a => next a
  | none => pure none

/-- Go on with what two parts yield, if both yield something.  The second part is
gone through in any case. -/
def whenBoth {α β γ : Type} (first : Checker (Option α)) (second : Checker (Option β))
    (next : α → β → Checker (Option γ)) : Checker (Option γ) := do
  let a? ← first
  let b? ← second
  match a?, b? with
  | some a, some b => next a b
  | _, _ => pure none

/-- Take note of the expression `id`, work out its type, and record it. -/
def recorded (id : NodeId) (work : Checker (Option Ty)) : Checker (Option Ty) := do
  noteId id
  match ← work with
  | some ty =>
      modify fun log => { log with types := log.types.insert id ty }
      pure (some ty)
  | none => pure none

end Check
end Whittle
