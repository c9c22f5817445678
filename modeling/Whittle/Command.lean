import Whittle.Parse.Shader
import Whittle.Print.Shader
import Whittle.Reduction.Discovery

namespace Whittle
namespace Command

/-!
# Commands

The commands take the text of a shader and answer with text: whether it is
valid, which edits it allows, or what it looks like behind one of them.
-/

/-- What is asked for besides the command. -/
structure Options where
  /-- The version to use in place of the shader's own. -/
  version : Option Version
  /-- Whether all code counts, and not only injected code. -/
  everywhere : Bool
  /-- Whether each edit is verified. -/
  verify : Bool
deriving DecidableEq

/-- Why a command has no answer. -/
inductive Failure where
  | unreadable (failure : Parse.Failure)
  | invalid (problems : List Check.Problem)
  | undiscovered (failure : Reduction.Failure)
  | noSuchEdit (index found : Nat)
deriving DecidableEq

def Failure.message : Failure → String
  | .unreadable failure => failure.message
  | .invalid problems => Check.summary problems
  | .undiscovered failure => failure.message
  | .noSuchEdit index found =>
      "no opportunity #" ++ toString index ++ "; " ++ toString found ++ " found"

def Options.versionOf (options : Options) (shader : Shader) : Version :=
  options.version.getD shader.version

def read (source : String) : Except Failure Shader :=
  (Shader.parse source).mapError .unreadable

def editsOf (shader : Shader) (options : Options) : Except Failure (List Reduction.Edit) :=
  let scan : Reduction.Scan := ⟨options.versionOf shader, options.everywhere⟩
  (Reduction.discover Reduction.Kind.all scan options.verify shader).mapError .undiscovered

/-- Check a shader and sum it up. -/
def check (source : String) (options : Options) : Except Failure String := do
  let shader ← read source
  let version := options.versionOf shader
  let _ ← (shader.check version).mapError .invalid
  return "ok: " ++ toString shader.decls.length ++ " declarations, version " ++ version.text

/-- The line for an edit: its number, its kind and its description. -/
def editLine (index : Nat) (edit : Reduction.Edit) : String :=
  toString index ++ "\t" ++ edit.kind.name ++ "\t" ++ edit.describe

/-- List the edits that a shader allows. -/
def list (source : String) (options : Options) : Except Failure (List String) := do
  let shader ← read source
  let edits ← editsOf shader options
  return edits.mapIdx editLine

/-- Apply one of the edits that a shader allows. -/
def apply (source : String) (index : Nat) (options : Options) : Except Failure String := do
  let shader ← read source
  let edits ← editsOf shader options
  match edits[index]? with
  | some edit => return (edit.apply shader).text
  | none => throw (.noSuchEdit index edits.length)

end Command
end Whittle
