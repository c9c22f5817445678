import Whittle.Parse.Stmt
import Whittle.Syntax.Numbering

namespace Whittle

/-!
# Reading shaders

A shader is an optional `#version` directive followed by declarations.  The
first declaration that cannot be read decides the message and its position.
Nodes get their identifiers when the whole text has been read.
-/

namespace Parse

/-- Read the version of the directive at the beginning of a shader, if there is
one.  The directive takes the rest of its line. -/
def versionDirective : Reader Version := do
  gap
  match "#version".toList.isPrefixOf? (← get) with
  | none => return Version.implied
  | some line =>
      let text := line.takeWhile (· != '\n')
      set (line.dropWhile (· != '\n'))
      match Version.ofDirective? text with
      | some version => return version
      | none => Reader.fail (.unknownVersion (String.ofList (Text.trim text)))

def precisionDecl : Reader Decl := do
  keyword "precision"
  gap
  let precision ←
    if ← atKeyword "lowp" then
      keyword "lowp"
      pure Precision.low
    else if ← atKeyword "mediump" then
      keyword "mediump"
      pure Precision.medium
    else
      keyword "highp"
      pure Precision.high
  let ty ← typeName
  token ";"
  return .precision ⟨.unnumbered, precision, ty⟩

def structField : Reader Field := do
  let ty ← typeName
  let name ← identifier
  token ";"
  return ⟨.unnumbered, ty, name⟩

def structDecl (fuel : Nat) : Reader Decl := do
  keyword "struct"
  let name ← identifier
  token "\x7b"
  let fields ← Reader.manyUntil (atToken "\x7d") structField fuel
  token "\x7d"
  token ";"
  return .struct ⟨.unnumbered, name, fields⟩

/-- Read a storage qualifier, if there is one. -/
def qualifier : Reader (Option Qualifier) := do
  gap
  if ← atKeyword "const" then
    keyword "const"
    return some .const
  else if ← atKeyword "uniform" then
    keyword "uniform"
    return some .uniform
  else if ← atKeyword "in" then
    keyword "in"
    return some .input
  else if ← atKeyword "out" then
    keyword "out"
    return some .output
  else return none

/-- Read a parameter.  The word `in` before it says nothing new. -/
def parameter : Reader Param := do
  gap
  if ← atKeyword "in" then keyword "in"
  let ty ← typeName
  let name ← identifier
  return ⟨.unnumbered, ty, name⟩

/-- Read at least one parameter. -/
def parameterList (fuel : Nat) : Reader (List Param) := do
  let first ← parameter
  let others ← Reader.manyBehind (token ",") parameter fuel
  return first :: others

def functionRest (fuel : Nat) (returnTy : Ty) (name : String) : Reader Decl := do
  token "("
  gap
  let params ←
    if ← atKeyword "void" then
      keyword "void"
      pure []
    else Reader.either (parameterList fuel) (pure [])
  token ")"
  let stmts ← braced (statement fuel) fuel
  return .function ⟨.unnumbered, returnTy, name, params, ⟨.unnumbered, stmts⟩⟩

def declaration (fuel : Nat) : Reader Decl := do
  gap
  if ← atKeyword "precision" then precisionDecl
  else if ← atKeyword "struct" then structDecl fuel
  else
    let storage ← qualifier
    let ty ← typeName
    let name ← identifier
    let isFunction ← if storage.isNone then atToken "(" else pure false
    if isFunction then functionRest fuel ty name
    else
      let var ← variableRest fuel storage ty name
      return .global var

/-- Whether the text ends here.  Where it goes on, it must not do so with a
directive. -/
def atEnd : Reader Bool := do
  gap
  match ← get with
  | [] => return true
  | '#' :: _ => Reader.fail .directive
  | _ => return false

/-- Read a whole shader.  No more declarations, repetitions or levels of nesting
fit into a text than it has characters. -/
def shader (fuel : Nat) : Reader Shader := do
  let version ← versionDirective
  let decls ← Reader.manyUntil atEnd (declaration fuel) fuel
  return Shader.ofDecls version decls

/-- Why and where a text is not a shader. -/
structure Failure where
  cause : Cause
  position : Text.Position
deriving DecidableEq

/-- The full message with the position. -/
def Failure.message (failure : Failure) : String :=
  "parse error at " ++ toString failure.position.line ++ ":" ++
    toString failure.position.column ++ ": " ++ failure.cause.message

end Parse

/-- The shader that a text describes. -/
def Shader.parse (text : String) : Except Parse.Failure Shader :=
  let source := text.toList
  match Parse.shader (source.length + 1) source with
  | .ok (shader, _) => .ok shader
  | .error stop => .error ⟨stop.cause, .before source stop.rest⟩

end Whittle
