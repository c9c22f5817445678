import Whittle.Command

/-!
# The command line

Three commands: `check FILE`, `list FILE` (or `ls`), and `apply FILE INDEX`.
All take `--language-version VERSION`; the latter two also `--everywhere` and
`--check`, and the last one `-o FILE` (or `--output`).
-/

namespace Whittle
namespace CommandLine

open Command

/-- What was asked for. -/
inductive Request where
  | check (file : String) (options : Options)
  | list (file : String) (options : Options)
  | apply (file : String) (index : Nat) (options : Options) (output : Option String)

/-- The arguments behind the command, sorted into options and others. -/
structure Arguments where
  options : Options
  output : Option String
  others : List String

def sorted? : List String → Option Arguments
  | [] => some ⟨⟨none, false, false⟩, none, []⟩
  | "--everywhere" :: rest =>
      (sorted? rest).map fun found =>
        { found with options := { found.options with everywhere := true } }
  | "--check" :: rest =>
      (sorted? rest).map fun found =>
        { found with options := { found.options with verify := true } }
  | "--language-version" :: text :: rest => do
      let version ← Version.ofText? text.toList
      let found ← sorted? rest
      some { found with options := { found.options with version := some version } }
  | "-o" :: file :: rest | "--output" :: file :: rest =>
      (sorted? rest).map fun found => { found with output := some file }
  | argument :: rest =>
      if argument.toList.head? == some '-' then none
      else (sorted? rest).map fun found => { found with others := argument :: found.others }

/-- Whether nothing is asked for that only a search can use. -/
def Arguments.isPlain (found : Arguments) : Bool :=
  !found.options.everywhere && !found.options.verify && found.output.isNone

/-- The request that arguments make. -/
def request? : List String → Option Request
  | [] => none
  | command :: rest => do
      let found ← sorted? rest
      match command, found.others with
      | "check", [file] => if found.isPlain then some (.check file found.options) else none
      | "list", [file] | "ls", [file] =>
          if found.output.isNone then some (.list file found.options) else none
      | "apply", [file, index] => do
          let index ← index.toNat?
          some (.apply file index found.options found.output)
      | _, _ => none

/-- How to call the program. -/
def usage : String :=
  "usage: whittle check FILE [--language-version VERSION]\n" ++
    "       whittle list FILE [--everywhere] [--check] [--language-version VERSION]\n" ++
    "       whittle apply FILE INDEX [--everywhere] [--check] [--language-version VERSION] [-o FILE]"

/-- Complain and report failure. -/
def fail (message : String) : IO UInt32 := do
  IO.eprintln ("fatal: " ++ message)
  return 1

/-- Write an answer, or complain that there is none. -/
def respond (answer : Except Failure String) (output : Option String) : IO UInt32 := do
  match answer with
  | .error failure => fail failure.message
  | .ok text =>
      match output with
      | some file => IO.FS.writeFile file text
      | none => IO.print text
      return 0

/-- The text of a file, or nothing if it cannot be accessed. -/
def fileText? (file : String) : IO (Except String String) := do
  try
    return .ok (← IO.FS.readFile file)
  catch error =>
    return .error ("cannot access '" ++ file ++ "': " ++ toString error)

def answer (request : Request) (source : String) : Except Failure String :=
  match request with
  | .check _ options => (check source options).map fun line => line ++ "\n"
  | .list _ options =>
      (list source options).map fun lines => String.join (lines.map fun line => line ++ "\n")
  | .apply _ index options _ => apply source index options

/-- The file that a request is about. -/
def Request.file : Request → String
  | .check file _ | .list file _ | .apply file _ _ _ => file

/-- Where the answer to a request goes, if not to the terminal. -/
def Request.output? : Request → Option String
  | .apply _ _ _ output => output
  | _ => none

/-- Answer a request. -/
def run (request : Request) : IO UInt32 := do
  match ← fileText? request.file with
  | .error message => fail message
  | .ok source => respond (answer request source) request.output?

end CommandLine
end Whittle

open Whittle.CommandLine in
/-- Answer the request that the arguments make. -/
def main (arguments : List String) : IO UInt32 := do
  match request? arguments with
  | some request => run request
  | none => do
      IO.eprintln usage
      return 2
