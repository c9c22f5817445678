import Whittle.Text.Blank

namespace Whittle

/-!
# Shading-language versions

A shader names its version in a `#version` directive; a shader without one is
written in the oldest version for embedded systems.  Only three features differ
between the supported versions as far as this library is concerned: whether
there is a `switch` statement, whether `gl_FragColor` is the colour output, and
whether globals may be `in` or `out`.
-/

/-- The supported versions: four for embedded systems and four for desktops. -/
inductive Version where
  | essl100
  | essl300
  | essl310
  | essl320
  | glsl130
  | glsl330
  | glsl440
  | glsl450
deriving DecidableEq, Inhabited

namespace Version

/-- Every version, in the order in which texts are compared with them. -/
def all : List Version :=
  [essl100, essl300, essl310, essl320, glsl130, glsl330, glsl440, glsl450]

/-- The version of a shader without a directive. -/
def implied : Version := essl100

/-- The text of a version as it stands behind `#version`. -/
def text : Version → String
  | essl100 => "100"
  | essl300 => "300 es"
  | essl310 => "310 es"
  | essl320 => "320 es"
  | glsl130 => "130"
  | glsl330 => "330"
  | glsl440 => "440"
  | glsl450 => "450"

/-- Distinct versions have distinct texts, so a text names at most one. -/
theorem text_injective {v w : Version} (same : v.text = w.text) : v = w := by
  cases v <;> cases w <;> revert same <;> decide

/-- The version a directive names.  Any white space may surround and separate
the words of its text. -/
def ofDirective? (directive : List Char) : Option Version :=
  all.find? fun version => version.text.toList == Text.normalized directive

/-- The text in which a trailing `es` that follows its number without a space
gets one. -/
def spaced (given : List Char) : List Char :=
  match (Text.trim given).reverse with
  | 's' :: 'e' :: ' ' :: _ => given
  | 's' :: 'e' :: number => number.reverse ++ [' ', 'e', 's']
  | _ => given

/-- The version a user means: the text of a directive, or its compact form such
as `300es`. -/
def ofText? (given : List Char) : Option Version :=
  ofDirective? (spaced given)

/-- The complaint about a text that names no version. -/
def unknownMessage (given : String) : String :=
  "unknown shading language version '" ++ given ++ "'"

def isEmbedded : Version → Bool
  | essl100 | essl300 | essl310 | essl320 => true
  | _ => false

/-- Whether the version has a `switch` statement. -/
def hasSwitch (version : Version) : Bool :=
  version != essl100

/-- Whether the fragment colour is written through `gl_FragColor`. -/
def hasFragColor : Version → Bool
  | essl100 | glsl130 => true
  | _ => false

/-- Whether globals may be qualified with `in` or `out`. -/
def hasInOutGlobals (version : Version) : Bool :=
  version != essl100

/-- Each version is read back from its own text. -/
theorem ofDirective?_text (version : Version) :
    ofDirective? version.text.toList = some version := by
  cases version <;> decide

end Version
end Whittle
