import Whittle.Syntax.Marker
import Whittle.Syntax.Shader

namespace Whittle
namespace Check

/-!
# What can be wrong with a shader

A fault is the reason why a rule is violated, with the names and types that its
message shows.  A problem is a fault at a node; only the absence of a `main`
function has no node.
-/

/-- The conditions that must be of type `bool`. -/
inductive Condition where
  | branch
  | loop
  | choice
deriving DecidableEq

/-- How a message names a condition. -/
def Condition.text : Condition → String
  | .branch => "if"
  | .loop => "loop"
  | .choice => "ternary"

/-- How a message names a label. -/
def labelName : Label → String
  | .value number => "case " ++ toString number
  | .otherwise => "default"

/-- Violations of the rules of the language. -/
inductive Fault where
  | repeatedId (id : NodeId)
  -- names
  | reservedIdentifier (name : String)
  | reservedFunctionName
  | redeclared (name : String)
  | taken (name : String)
  | undeclared (name : String)
  | unknownType (name : String)
  | noMain
  | mainSignature
  -- declarations
  | voidVariable
  | precisionOf (ty : Ty)
  | structWithoutFields (name : String)
  | repeatedField (struct field : String)
  | noInOutGlobals (version : Version)
  | noInitializerAllowed (name : String)
  | initializerMissing (name : String)
  | initializerType (name : String) (declared found : Ty)
  | localQualifier
  | emptyBody (function : String)
  | returnMissing (function : String)
  -- statements
  | conditionType (condition : Condition) (found : Ty)
  | loopInit
  | breakOutside
  | continueOutside
  | noSwitch (version : Version)
  | selectorType (found : Ty)
  | noCases
  | repeatedLabel (label : Label)
  | returnOutside
  | valueMissing (expected : Ty)
  | valueReturned
  | returnType (found expected : Ty)
  -- expressions
  | notOperand (found : Ty)
  | numericOperand (op : UnaryOp) (found : Ty)
  | operands (op : BinaryOp) (lhs rhs : Ty)
  | notAssignable
  | assignmentType (found target : Ty)
  | choiceTypes (whenTrue whenFalse : Ty)
  | indexType (found : Ty)
  | notIndexable (found : Ty)
  | noField (struct field : String)
  | noSelection (field : String) (found : Ty)
  -- calls
  | noFunction (name : String)
  | argumentCount (function : String) (expected found : Nat)
  | argumentType (function : String) (expected found : Ty)
  | fieldArguments (struct : String)
  | markerCount (marker : Marker)
  | markerTypes (marker : Marker)
  | markerType (marker : Marker) (expected found : Ty)
  | noOverload (function : String) (found : List Ty)
  | notConstructible (ty : Ty)
  | constructorEmpty (ty : Ty)
  | constructedFrom (ty found : Ty)
  | tooFewComponents (ty : Ty)
  | tooManyArguments (ty : Ty)
deriving DecidableEq

def Fault.message : Fault → String
  | .repeatedId id => "node id " ++ id.text ++ " is used more than once"
  | .reservedIdentifier name => "identifier '" ++ name ++ "' uses the reserved gl_ prefix"
  | .reservedFunctionName => "function names may not use the reserved gl_ prefix"
  | .redeclared name => "'" ++ name ++ "' is already declared in this scope"
  | .taken name => "'" ++ name ++ "' is already declared"
  | .undeclared name => "undeclared identifier '" ++ name ++ "'"
  | .unknownType name => "unknown type '" ++ name ++ "'"
  | .noMain => "no 'main' function"
  | .mainSignature => "'main' must be declared as 'void main()'"
  | .voidVariable => "'void' is not a valid variable type"
  | .precisionOf ty => "precision cannot be set for '" ++ ty.text ++ "'"
  | .structWithoutFields name => "struct '" ++ name ++ "' has no fields"
  | .repeatedField struct field =>
      "struct '" ++ struct ++ "' has duplicate field '" ++ field ++ "'"
  | .noInOutGlobals version =>
      "global in/out variables are not supported in version " ++ version.text
  | .noInitializerAllowed name => "'" ++ name ++ "' cannot have an initializer"
  | .initializerMissing name => "const variable '" ++ name ++ "' needs an initializer"
  | .initializerType name declared found =>
      "cannot initialize '" ++ name ++ "' of type '" ++ declared.text ++
        "' with a value of type '" ++ found.text ++ "'"
  | .localQualifier => "local variables may only be qualified with 'const'"
  | .emptyBody function => "function '" ++ function ++ "' has an empty body"
  | .returnMissing function => "non-void function '" ++ function ++ "' has no return statement"
  | .conditionType condition found =>
      condition.text ++ " condition must be 'bool', found '" ++ found.text ++ "'"
  | .loopInit => "invalid for-loop initializer"
  | .breakOutside => "'break' outside of a loop or switch"
  | .continueOutside => "'continue' outside of a loop"
  | .noSwitch version => "'switch' is not supported in version " ++ version.text
  | .selectorType found => "switch selector must be 'int', found '" ++ found.text ++ "'"
  | .noCases => "'switch' has no case labels"
  | .repeatedLabel label => "duplicate '" ++ labelName label ++ "' label in switch"
  | .returnOutside => "'return' outside of a function"
  | .valueMissing expected => "function returning '" ++ expected.text ++ "' must return a value"
  | .valueReturned => "void function cannot return a value"
  | .returnType found expected =>
      "returning '" ++ found.text ++ "' from a function returning '" ++ expected.text ++ "'"
  | .notOperand found => "'!' needs a 'bool' operand, found '" ++ found.text ++ "'"
  | .numericOperand op found =>
      "'" ++ op.symbol ++ "' needs a numeric operand, found '" ++ found.text ++ "'"
  | .operands op lhs rhs =>
      "operator '" ++ op.symbol ++ "' cannot be applied to '" ++ lhs.text ++ "' and '" ++
        rhs.text ++ "'"
  | .notAssignable => "expression is not assignable"
  | .assignmentType found target =>
      "cannot assign a value of type '" ++ found.text ++ "' to '" ++ target.text ++ "'"
  | .choiceTypes whenTrue whenFalse =>
      "ternary branches have different types '" ++ whenTrue.text ++ "' and '" ++
        whenFalse.text ++ "'"
  | .indexType found => "index must be 'int', found '" ++ found.text ++ "'"
  | .notIndexable found => "cannot index a value of type '" ++ found.text ++ "'"
  | .noField struct field => "struct '" ++ struct ++ "' has no field '" ++ field ++ "'"
  | .noSelection field found => "invalid swizzle '" ++ field ++ "' on '" ++ found.text ++ "'"
  | .noFunction name => "no function named '" ++ name ++ "'"
  | .argumentCount function expected found =>
      "'" ++ function ++ "' takes " ++ toString expected ++ " argument(s) but " ++
        toString found ++ " were supplied"
  | .argumentType function expected found =>
      "'" ++ function ++ "' expects an argument of type '" ++ expected.text ++ "', found '" ++
        found.text ++ "'"
  | .fieldArguments struct => "arguments do not match the fields of struct '" ++ struct ++ "'"
  | .markerCount marker => "'" ++ marker.name ++ "' takes " ++ toString marker.arity ++ " argument(s)"
  | .markerTypes marker => "'" ++ marker.name ++ "' arguments must have the same type"
  | .markerType marker expected found =>
      "'" ++ marker.name ++ "' expects an argument of type '" ++ expected.text ++ "', found '" ++
        found.text ++ "'"
  | .noOverload function found =>
      "no overload of '" ++ function ++ "' takes (" ++ ", ".intercalate (found.map Ty.text) ++ ")"
  | .notConstructible ty => "'" ++ ty.text ++ "' cannot be constructed"
  | .constructorEmpty ty => "constructor '" ++ ty.text ++ "' needs at least one argument"
  | .constructedFrom ty found => "cannot construct '" ++ ty.text ++ "' from '" ++ found.text ++ "'"
  | .tooFewComponents ty => "too few components to construct '" ++ ty.text ++ "'"
  | .tooManyArguments ty => "too many arguments to construct '" ++ ty.text ++ "'"

/-- A fault and the node at which it was found. -/
structure Problem where
  fault : Fault
  node : Option NodeId
deriving DecidableEq

/-- The words for a problem, with its node. -/
def Problem.message (problem : Problem) : String :=
  match problem.node with
  | some node => problem.fault.message ++ " (at " ++ node.text ++ ")"
  | none => problem.fault.message

/-- The words for several problems: a single one stands for itself, and more
are counted and listed. -/
def summary : List Problem → String
  | [] => "validation passed"
  | [problem] => problem.message
  | problems =>
      toString problems.length ++ " validation errors found:" ++
        String.join (problems.map fun problem => "\n  - " ++ problem.message)

end Check
end Whittle
