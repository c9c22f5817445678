import Whittle.Syntax.Expr

namespace Whittle

/-!
# Markers of injected code

A fuzzer that transforms shaders leaves traces: it wraps what it injects in
calls of a few marker functions, and its own names share a beginning.  The
markers are typed like builtin functions, and searches for simplifications use
them to tell injected code from the rest.
-/

/-- What a marker says of its argument. -/
inductive Marker where
  /-- The first argument is what the second was made from, and has its value. -/
  | identity
  /-- The argument was made up. -/
  | fuzzed
  /-- The condition of code that never runs. -/
  | dead
  /-- The condition of a wrapper whose first branch is code of the author. -/
  | wrappedIfTrue
  /-- The condition of a wrapper whose second branch is code of the author. -/
  | wrappedIfFalse
  /-- The condition of a loop around code of the author. -/
  | wrappedLoop
  /-- The selector of a switch that was injected. -/
  | switch
deriving DecidableEq

namespace Marker

/-- All markers, each once. -/
def all : List Marker :=
  [.identity, .fuzzed, .dead, .wrappedIfTrue, .wrappedIfFalse, .wrappedLoop, .switch]

/-- The function that stands for a marker in a shader. -/
def name : Marker → String
  | .identity => "_GLF_IDENTITY"
  | .fuzzed => "_GLF_FUZZED"
  | .dead => "_GLF_DEAD"
  | .wrappedIfTrue => "_GLF_WRAPPED_IF_TRUE"
  | .wrappedIfFalse => "_GLF_WRAPPED_IF_FALSE"
  | .wrappedLoop => "_GLF_WRAPPED_LOOP"
  | .switch => "_GLF_SWITCH"

def ofName? (name : String) : Option Marker :=
  all.find? fun marker => marker.name == name

/-- The number of arguments the marker takes. -/
def arity : Marker → Nat
  | .identity => 2
  | _ => 1

/-- Whether a call of the marker stands for its first argument. -/
def isTransparent : Marker → Bool
  | .identity | .fuzzed => true
  | _ => false

/-- The marker an expression is a call of, seen through parentheses. -/
def of? (e : Expr) : Option Marker :=
  e.bare.call?.bind fun (callee, _) => ofName? callee

end Marker

/-- What every injected name begins with. -/
def injectedStem : List Char := ['_', 'G', 'L', 'F', '_']

def isInjectedName (name : String) : Bool :=
  injectedStem.isPrefixOf name.toList

/-- Every marker has an injected name. -/
theorem Marker.isInjectedName_name (marker : Marker) : isInjectedName marker.name = true := by
  cases marker <;> decide

/-- Whether the outermost node names something injected. -/
def Expr.namesInjected : Expr → Bool
  | .var _ name => isInjectedName name
  | .call _ callee _ => isInjectedName callee
  | _ => false

/-- Whether something injected is named anywhere in the expression. -/
def Expr.mentionsInjected (e : Expr) : Bool :=
  e.subexprs.any Expr.namesInjected

end Whittle
