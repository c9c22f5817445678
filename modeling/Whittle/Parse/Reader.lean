import Whittle.Text.Blank
import Whittle.Text.Position

namespace Whittle

/-!
# Readers

A reader consumes the beginning of a text.  When it fails, it reports what is
left of the text at the point of failure, and this decides the position in the
message: a sequence of readers does not go back to where it started, while a
choice goes back before its second alternative and reports that one's failure.
-/

namespace Parse

/-- Why a text cannot be read. -/
inductive Cause where
  /-- A fixed piece of text is missing. -/
  | expected (token : String)
  /-- A comment is not closed. -/
  | openComment
  /-- A directive other than `#version`. -/
  | directive
  /-- The version of the shader is not known. -/
  | unknownVersion (text : String)
  | unexpected
deriving DecidableEq

def Cause.message : Cause → String
  | .expected token => "expected `" ++ token ++ "`"
  | .openComment => "invalid block comment"
  | .directive => "unsupported preprocessor directive"
  | .unknownVersion text => "unsupported #version '" ++ text ++ "'"
  | .unexpected => "unexpected input"

/-- A failure, with what is left of the text where it happened. -/
structure Stop where
  cause : Cause
  rest : List Char
deriving DecidableEq

/-- Readers of values from the beginning of a text. -/
abbrev Reader := StateT (List Char) (Except Stop)

namespace Reader

variable {α : Type}

def fail (cause : Cause) : Reader α :=
  fun input => .error ⟨cause, input⟩

/-- Fail, and report an earlier point. -/
def failAt (rest : List Char) : Reader α :=
  fun _ => .error ⟨.unexpected, rest⟩

/-- Read in the first way, or else from the same start in the second way. -/
def either (first second : Reader α) : Reader α := fun input =>
  match first input with
  | .ok result => .ok result
  | .error _ => second input

/-- Items up to the point where `closed` holds, and at most as many as `fuel`
says. -/
def manyUntil (closed : Reader Bool) (item : Reader α) : Nat → Reader (List α)
  | 0 => fail .unexpected
  | fuel + 1 => do
      if ← closed then pure []
      else
        let first ← item
        let others ← manyUntil closed item fuel
        pure (first :: others)

/-- Further items, each behind a separator.  The list ends before the first
separator that no item follows. -/
def manyBehind (separator : Reader Unit) (item : Reader α) : Nat → Reader (List α)
  | 0 => pure []
  | fuel + 1 => fun input =>
      match (do separator; item : Reader α) input with
      | .error _ => .ok ([], input)
      | .ok (first, rest) =>
          (manyBehind separator item fuel rest).map fun (others, rest) =>
            (first :: others, rest)

end Reader

/-- Where in a gap between two tokens a scan stands: outside comments, in a
comment that ends with its line, or in one that was opened in front of a given
rest of the text. -/
inductive Gap where
  | open
  | line
  | block (opened : List Char)

/-- What is left behind the blanks and comments at the beginning of a text. -/
def afterGap : Gap → List Char → Except Stop (List Char)
  | .open, '/' :: '/' :: rest => afterGap .line rest
  | .open, '/' :: '*' :: rest => afterGap (.block rest) rest
  | .open, c :: rest =>
      if Text.isTokenBlank c then afterGap .open rest else .ok (c :: rest)
  | .open, [] => .ok []
  | .line, '\n' :: rest => afterGap .open rest
  | .line, _ :: rest => afterGap .line rest
  | .line, [] => .ok []
  | .block _, '*' :: '/' :: rest => afterGap .open rest
  | .block opened, _ :: rest => afterGap (.block opened) rest
  | .block opened, [] => .error ⟨.openComment, opened⟩

/-- Skip blanks and comments. -/
def gap : Reader Unit := fun input =>
  (afterGap .open input).map fun rest => ((), rest)

/-- The words that name nothing. -/
def reserved : List String :=
  ["if", "else", "for", "while", "do", "switch", "case", "default", "return", "break",
   "continue", "discard", "struct", "const", "uniform", "in", "out", "inout", "precision",
   "lowp", "mediump", "highp", "true", "false"]

/-- Whether a word is no name because it has a meaning of its own. -/
def isReserved (name : String) : Bool :=
  reserved.contains name

def isWordStart (c : Char) : Bool :=
  c.isAlpha || c == '_'

def isWordChar (c : Char) : Bool :=
  c.isAlphanum || c == '_'

def goesOn : List Char → Bool
  | [] => false
  | c :: _ => isWordChar c

/-- What follows a keyword at the very beginning of a text, if it is there as a
whole word. -/
def behindKeyword? (keyword : String) (input : List Char) : Option (List Char) :=
  (keyword.toList.isPrefixOf? input).filter fun rest => !goesOn rest

def atKeyword (keyword : String) : Reader Bool := do
  return (behindKeyword? keyword (← get)).isSome

def keyword (keyword : String) : Reader Unit := do
  gap
  match behindKeyword? keyword (← get) with
  | some rest => set rest
  | none => Reader.fail .unexpected

/-- Whether a piece of punctuation comes next.  The gap before it is skipped
either way. -/
def atToken (token : String) : Reader Bool := do
  gap
  return token.toList.isPrefixOf (← get)

/-- Read a piece of punctuation. -/
def token (token : String) : Reader Unit := do
  gap
  match token.toList.isPrefixOf? (← get) with
  | some rest => set rest
  | none => Reader.fail (.expected token)

/-- Read a word, reserved or not. -/
def word : Reader String := do
  gap
  match ← get with
  | c :: rest =>
      if isWordStart c then
        set (rest.dropWhile isWordChar)
        return String.ofList (c :: rest.takeWhile isWordChar)
      else Reader.fail .unexpected
  | [] => Reader.fail .unexpected

end Parse
end Whittle
