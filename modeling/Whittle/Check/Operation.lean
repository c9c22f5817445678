import Whittle.Check.Problem

namespace Whittle
namespace Check

/-!
# Types of operations

The type of an operation depends on the types of its operands alone, apart from
what has been declared.  Each function here answers with that type or with the
fault to report.
-/

/-- The type of an arithmetic operation.  The operands have one component type,
which must be `int` for a remainder; a scalar combines with each component of a
vector. -/
def arithmetic? (op : BinaryOp) (lhs rhs : Ty) : Option Ty :=
  let fits := if op == .rem then lhs.component? == some .int else lhs.isNumeric
  if !fits || lhs.component? != rhs.component? then none
  else if lhs == rhs || rhs.isScalar then some lhs
  else if lhs.isScalar then some rhs
  else none

def binary? (op : BinaryOp) (lhs rhs : Ty) : Option Ty :=
  match op with
  | .add | .sub | .mul | .div | .rem => arithmetic? op lhs rhs
  | .lt | .gt | .le | .ge =>
      if lhs == rhs && lhs.isScalar && lhs.isNumeric then some .bool else none
  | .eq | .ne => if lhs == rhs && lhs != .void then some .bool else none
  | .and | .or | .xor => if lhs == .bool && rhs == .bool then some .bool else none

def binary (op : BinaryOp) (lhs rhs : Ty) : Except Fault Ty :=
  match binary? op lhs rhs with
  | some ty => .ok ty
  | none => .error (.operands op lhs rhs)

def unary (op : UnaryOp) (operand : Ty) : Except Fault Ty :=
  if op == .not then
    if operand == .bool then .ok .bool else .error (.notOperand operand)
  else if operand.isNumeric then .ok operand
  else .error (.numericOperand op operand)

/-- The type of an assignment to a target of type `target`.  A compound
assignment must produce the type it starts from. -/
def assign (op : AssignOp) (target value : Ty) : Except Fault Ty := do
  let result ← match op.combining? with
    | none => .ok value
    | some combining => binary combining target value
  if result == target then return target
  else throw (.assignmentType value target)

/-- The letters that select components, in sets that must not be mixed. -/
def componentLetters : List (List Char) :=
  [['x', 'y', 'z', 'w'], ['r', 'g', 'b', 'a'], ['s', 't', 'p', 'q']]

def componentIndex? (letter : Char) : Option Nat :=
  componentLetters.findSome? fun letters => letters.idxOf? letter

/-- The positions that a selection of components names, for a vector with
`count` components: one to four letters of one set. -/
def selection? (field : List Char) (count : Nat) : Option (List Nat) :=
  match field with
  | [] => none
  | first :: _ =>
      if field.length > 4 then none
      else
        (componentLetters.find? fun letters => letters.contains first).bind fun letters =>
          field.mapM fun letter => (letters.idxOf? letter).filter (· < count)

/-- The type of a selection of components. -/
def select? (base : Ty) (field : List Char) : Option Ty :=
  match base with
  | .vector component width =>
      (selection? field width.count).bind fun positions => component.times? positions.length
  | _ => none

/-- Whether a selection names a component twice. -/
def repeatsLetter (field : String) : Bool :=
  !decide field.toList.Nodup

/-- Whether the type is `float` or a vector of it. -/
def isFloatLike (ty : Ty) : Bool :=
  ty.component? == some .float

/-- Whether the type is `int` or a vector of it. -/
def isIntLike (ty : Ty) : Bool :=
  ty.component? == some .int

/-- The functions from floats to floats that work component by component. -/
def floatFunctions : List String :=
  ["radians", "degrees", "sin", "cos", "tan", "asin", "acos", "exp", "log", "exp2", "log2",
   "sqrt", "inversesqrt", "floor", "ceil", "fract", "normalize"]

/-- The remaining builtin functions. -/
def otherFunctions : List String :=
  ["atan", "abs", "sign", "pow", "mod", "min", "max", "step", "clamp", "mix", "smoothstep",
   "length", "distance", "dot", "cross", "reflect"]

def isBuiltin (name : String) : Bool :=
  floatFunctions.contains name || otherFunctions.contains name

/-- Whether `second` is the type `first` or that of its components. -/
def sameOrComponent (first second : Ty) : Bool :=
  second == first || first.component?.map Ty.scalar == some second

/-- Whether two bounds fit a value: both have its type, or both that of its
components. -/
def boundsFit (value low high : Ty) : Bool :=
  (low == value && high == value) || (sameOrComponent value low && low == high)

/-- The type of a call of a builtin function of one argument. -/
def builtin1? (name : String) (x : Ty) : Option Ty :=
  if floatFunctions.contains name || name == "atan" then
    if isFloatLike x then some x else none
  else if name == "abs" || name == "sign" then
    if isFloatLike x || isIntLike x then some x else none
  else if name == "length" then
    if isFloatLike x then some .float else none
  else none

/-- The type of a call of a builtin function of two arguments. -/
def builtin2? (name : String) (x y : Ty) : Option Ty :=
  if name == "atan" || name == "pow" || name == "reflect" then
    if isFloatLike x && x == y then some x else none
  else if name == "mod" then
    if isFloatLike x && sameOrComponent x y then some x else none
  else if name == "min" || name == "max" then
    if (isFloatLike x || isIntLike x) && sameOrComponent x y then some x else none
  else if name == "step" then
    if isFloatLike y && sameOrComponent y x then some y else none
  else if name == "distance" || name == "dot" then
    if isFloatLike x && x == y then some .float else none
  else if name == "cross" then
    if x == .vector .float .three && y == .vector .float .three then some x else none
  else none

/-- The type of a call of a builtin function of three arguments. -/
def builtin3? (name : String) (x y z : Ty) : Option Ty :=
  if name == "clamp" then
    if (isFloatLike x || isIntLike x) && boundsFit x y z then some x else none
  else if name == "mix" then
    if isFloatLike x && x == y && sameOrComponent x z then some x else none
  else if name == "smoothstep" then
    if isFloatLike z && boundsFit z x y then some z else none
  else none

/-- The type of a call of a builtin function. -/
def callBuiltin (name : String) (args : List Ty) : Except Fault Ty :=
  let result := match args with
    | [x] => builtin1? name x
    | [x, y] => builtin2? name x y
    | [x, y, z] => builtin3? name x y z
    | _ => none
  match result with
  | some ty => .ok ty
  | none => .error (.noOverload name args)

def componentCounts (target : Ty) : List Ty → Except Fault (List Nat)
  | [] => .ok []
  | arg :: rest =>
      match arg.components? with
      | none => .error (.constructedFrom target arg)
      | some count => (componentCounts target rest).map (count :: ·)

/-- The sum of numbers of components. -/
def totalCount : List Nat → Nat
  | [] => 0
  | count :: rest => count + totalCount rest

/-- The type of a call of the constructor of a scalar or vector type.  A single
value is converted, repeated or cut; several values must supply every component
without the last one going unused. -/
def construct (target : Ty) (args : List Ty) : Except Fault Ty := do
  match target.components? with
  | none => throw (.notConstructible target)
  | some count =>
      if args.isEmpty then throw (.constructorEmpty target)
      match ← componentCounts target args with
      | [size] =>
          if count == 1 || size == 1 || count ≤ size then return target
          else throw (.tooFewComponents target)
      | sizes =>
          if count == 1 then throw (.tooManyArguments target)
          else if totalCount sizes < count then throw (.tooFewComponents target)
          else if count ≤ totalCount sizes.dropLast then throw (.tooManyArguments target)
          else return target

def callMarker (marker : Marker) (args : List Ty) : Except Fault Ty :=
  match marker, args with
  | .identity, [first, second] =>
      if first == second then .ok first else .error (.markerTypes marker)
  | .identity, _ => .error (.markerCount marker)
  | .fuzzed, [arg] => .ok arg
  | .switch, [arg] =>
      if arg == .int then .ok .int else .error (.markerType marker .int arg)
  | .dead, [arg] | .wrappedIfTrue, [arg] | .wrappedIfFalse, [arg] | .wrappedLoop, [arg] =>
      if arg == .bool then .ok .bool else .error (.markerType marker .bool arg)
  | _, _ => .error (.markerCount marker)

end Check
end Whittle
