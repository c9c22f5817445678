namespace Whittle

/-!
# Types

The types of the language are `void`, three scalar types, their vectors with
two, three or four components, and structs, which are known by name alone.
Because a vector is a scalar and a width, no vector of one or of nine
components can be written down.
-/

/-- The types of a single component. -/
inductive Scalar where
  | bool
  | int
  | float
deriving DecidableEq

/-- The number of components of a vector. -/
inductive Width where
  | two
  | three
  | four
deriving DecidableEq

/-- The width as a number. -/
def Width.count : Width → Nat
  | .two => 2
  | .three => 3
  | .four => 4

def Width.ofCount? : Nat → Option Width
  | 2 => some .two
  | 3 => some .three
  | 4 => some .four
  | _ => none

inductive Ty where
  | void
  | scalar (component : Scalar)
  | vector (component : Scalar) (width : Width)
  | struct (name : String)
deriving DecidableEq

def Scalar.keyword : Scalar → String
  | .bool => "bool"
  | .int => "int"
  | .float => "float"

/-- What stands before the width in the keyword of a vector type. -/
def Scalar.vectorStem : Scalar → String
  | .bool => "bvec"
  | .int => "ivec"
  | .float => "vec"

/-- The digit that ends the keyword of a vector type. -/
def Width.digit : Width → String
  | .two => "2"
  | .three => "3"
  | .four => "4"

namespace Ty

/-- The `bool` type. -/
abbrev bool : Ty := .scalar .bool

/-- The `int` type. -/
abbrev int : Ty := .scalar .int

/-- The `float` type. -/
abbrev float : Ty := .scalar .float

/-- A type as it is written in a program. -/
def text : Ty → String
  | .void => "void"
  | .scalar component => component.keyword
  | .vector component width => component.vectorStem ++ width.digit
  | .struct name => name

/-- Every type with a keyword of its own. -/
def builtin : List Ty :=
  [.void, .bool, .int, .float,
   .vector .float .two, .vector .float .three, .vector .float .four,
   .vector .int .two, .vector .int .three, .vector .int .four,
   .vector .bool .two, .vector .bool .three, .vector .bool .four]

def ofKeyword? (name : String) : Option Ty :=
  builtin.find? fun ty => ty.text == name

/-- The type a name denotes: a builtin type, or else the struct of that name. -/
def ofName (name : String) : Ty :=
  (ofKeyword? name).getD (.struct name)

def component? : Ty → Option Scalar
  | .scalar component | .vector component _ => some component
  | .void | .struct _ => none

def components? : Ty → Option Nat
  | .scalar _ => some 1
  | .vector _ width => some width.count
  | .void | .struct _ => none

/-- Whether the type has a single component. -/
def isScalar : Ty → Bool
  | .scalar _ => true
  | _ => false

/-- Whether the type has two to four components. -/
def isVector : Ty → Bool
  | .vector .. => true
  | _ => false

/-- Whether the type is a scalar or vector of `int` or `float`. -/
def isNumeric (ty : Ty) : Bool :=
  ty.component? == some .int || ty.component? == some .float

def structName? : Ty → Option String
  | .struct name => some name
  | _ => none

end Ty

/-- The type with the given number of components: the scalar itself for one,
a vector for two to four. -/
def Scalar.times? (component : Scalar) : Nat → Option Ty
  | 1 => some (.scalar component)
  | count => (Width.ofCount? count).map (.vector component)

/-- The type with `count` components of the scalar type `ty`. -/
def Ty.times? (ty : Ty) (count : Nat) : Option Ty :=
  match ty with
  | .scalar component => component.times? count
  | _ => none

/-- Widening a component type yields a type over that component. -/
theorem Scalar.component?_of_times? {component : Scalar} {count : Nat} {ty : Ty}
    (widened : component.times? count = some ty) : ty.component? = some component := by
  unfold Scalar.times? at widened
  split at widened
  · cases widened; rfl
  · obtain ⟨width, _, rfl⟩ := Option.map_eq_some_iff.1 widened; rfl

end Whittle
