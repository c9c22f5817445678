import Whittle.Number.Reading
import Whittle.Parse.Reader
import Whittle.Syntax.Expr
import Whittle.Syntax.Ty

namespace Whittle
namespace Parse

/-!
# Reading expressions

There is a reader for every strength of binding, from assignments down to single
words.  Readers that need a whole expression, as between parentheses, take the
reader `inner` for it; `expression` ties the knot and counts the nesting.  Every
use of `inner` comes behind a character, so the length of a text bounds its
nesting and serves as the count, and for the same reason it bounds every
repetition.
-/

/-- Read an identifier that a program may choose. -/
def identifier : Reader String := do
  let start ← get
  let name ← word
  if isReserved name || (Ty.ofKeyword? name).isSome then Reader.failAt start
  else return name

def typeName : Reader Ty := do
  let start ← get
  let name ← word
  if isReserved name then Reader.failAt start
  else return Ty.ofName name

/-- The largest integer literal. -/
def largestInt : Nat := 9223372036854775807

/-- The digits and the rest of a text that begins with at least one digit. -/
def digits? (input : List Char) : Option (List Char × List Char) :=
  match input.takeWhile Char.isDigit with
  | [] => none
  | digits => some (digits, input.dropWhile Char.isDigit)

def exponent? : List Char → Option (List Char × List Char)
  | [] => none
  | mark :: input =>
      if mark == 'e' || mark == 'E' then
        match input with
        | '+' :: rest => (digits? rest).map fun (digits, rest) => (mark :: '+' :: digits, rest)
        | '-' :: rest => (digits? rest).map fun (digits, rest) => (mark :: '-' :: digits, rest)
        | rest => (digits? rest).map fun (digits, rest) => (mark :: digits, rest)
      else none

def optionalExponent (input : List Char) : List Char × List Char :=
  (exponent? input).getD ([], input)

/-- The text of a literal with a point or an exponent. -/
def floatText? (input : List Char) : Option (List Char × List Char) :=
  match digits? input with
  | some (whole, '.' :: rest) =>
      let fraction := rest.takeWhile Char.isDigit
      let (exponent, rest) := optionalExponent (rest.dropWhile Char.isDigit)
      some (whole ++ '.' :: fraction ++ exponent, rest)
  | some (whole, rest) =>
      (exponent? rest).map fun (exponent, rest) => (whole ++ exponent, rest)
  | none =>
      match input with
      | '.' :: rest =>
          (digits? rest).map fun (fraction, rest) =>
            let (exponent, rest) := optionalExponent rest
            ('.' :: fraction ++ exponent, rest)
      | _ => none

/-- Read a number.  One with a point or an exponent is a float literal; any
other must fit into sixty-four bits. -/
def number : Reader Expr := do
  match floatText? (← get) with
  | some (text, rest) =>
      set rest
      match Binary64.ofText? text with
      | some value => return .float .unnumbered value
      | none => Reader.fail .unexpected
  | none =>
      match digits? (← get) with
      | some (digits, rest) =>
          set rest
          let value := Binary64.digitsValue digits
          if value ≤ largestInt then return .int .unnumbered value
          else Reader.fail .unexpected
      | none => Reader.fail .unexpected

/-- Read the arguments of a call up to the closing parenthesis.  The word `void`
alone stands for no arguments. -/
def arguments (inner : Reader Expr) (fuel : Nat) : Reader (List Expr) := do
  gap
  if ← atToken ")" then return []
  else if ← atKeyword "void" then
    keyword "void"
    return []
  else
    let first ← inner
    let others ← Reader.manyBehind (token ",") inner fuel
    return first :: others

/-- Read a word and, if a parenthesis follows, the call that it names. -/
def named (inner : Reader Expr) (fuel : Nat) : Reader Expr := do
  let start ← get
  let name ← word
  if ← atToken "(" then
    if isReserved name then Reader.failAt start
    else
      token "("
      let args ← arguments inner fuel
      token ")"
      return .call .unnumbered name args
  else if isReserved name || (Ty.ofKeyword? name).isSome then Reader.failAt start
  else return .var .unnumbered name

/-- Read an operand that is not put together by operators. -/
def primary (inner : Reader Expr) (fuel : Nat) : Reader Expr := do
  gap
  match ← get with
  | '(' :: rest =>
      set rest
      let e ← inner
      token ")"
      return .paren .unnumbered e
  | input =>
      if (input.head?.any fun c => c.isDigit || c == '.') then number
      else if ← atKeyword "true" then
        keyword "true"
        return .bool .unnumbered true
      else if ← atKeyword "false" then
        keyword "false"
        return .bool .unnumbered false
      else named inner fuel

/-- Read what stands behind an operand: members, indices and increments. -/
def suffixes (inner : Reader Expr) : Nat → Expr → Reader Expr
  | 0, _ => Reader.fail .unexpected
  | fuel + 1, e => do
      let start ← get
      gap
      match ← get with
      | '.' :: c :: rest =>
          if isWordStart c then
            set (c :: rest)
            let field ← word
            suffixes inner fuel (.member .unnumbered e field)
          else
            set start
            return e
      | '[' :: rest =>
          set rest
          let position ← inner
          token "]"
          suffixes inner fuel (.index .unnumbered e position)
      | '+' :: '+' :: rest =>
          set rest
          suffixes inner fuel (.unary .unnumbered .postIncrement e)
      | '-' :: '-' :: rest =>
          set rest
          suffixes inner fuel (.unary .unnumbered .postDecrement e)
      | _ =>
          set start
          return e

/-- A prefix operator at the beginning of a text, and what follows it.  A plus
sign is read and means nothing. -/
def prefixOp? : List Char → Option (Option UnaryOp × List Char)
  | '+' :: '+' :: rest => some (some .preIncrement, rest)
  | '-' :: '-' :: rest => some (some .preDecrement, rest)
  | '-' :: rest => some (some .negate, rest)
  | '!' :: rest => some (some .not, rest)
  | '+' :: rest => some (none, rest)
  | _ => none

/-- Read an operand with its prefix operators. -/
def prefixed (inner : Reader Expr) : Nat → Reader Expr
  | 0 => Reader.fail .unexpected
  | fuel + 1 => do
      gap
      match prefixOp? (← get) with
      | some (op, rest) =>
          set rest
          let operand ← prefixed inner fuel
          return match op with
            | some op => .unary .unnumbered op operand
            | none => operand
      | none =>
          let e ← primary inner (fuel + 1)
          suffixes inner (fuel + 1) e

/-- A binary operator at the beginning of a text, and what follows it.  An
operator of one character is none if an equals sign or the same character again
follows, because then it is part of a longer one. -/
def binaryOp? : List Char → Option (BinaryOp × List Char)
  | '|' :: '|' :: rest => some (.or, rest)
  | '^' :: '^' :: rest => some (.xor, rest)
  | '&' :: '&' :: rest => some (.and, rest)
  | '=' :: '=' :: rest => some (.eq, rest)
  | '!' :: '=' :: rest => some (.ne, rest)
  | '<' :: '=' :: rest => some (.le, rest)
  | '>' :: '=' :: rest => some (.ge, rest)
  | c :: rest =>
      if rest.head? == some '=' || rest.head? == some c then none
      else match c with
        | '<' => some (.lt, rest)
        | '>' => some (.gt, rest)
        | '+' => some (.add, rest)
        | '-' => some (.sub, rest)
        | '*' => some (.mul, rest)
        | '/' => some (.div, rest)
        | '%' => some (.rem, rest)
        | _ => none
  | [] => none

/-- Extend the operand `lhs` by operators that bind at least as tightly as
`least`.  The right operand of each takes what binds tighter than it. -/
def climb (operand : Reader Expr) : Nat → Nat → Expr → Reader Expr
  | 0, _, _ => Reader.fail .unexpected
  | fuel + 1, least, lhs => do
      let start ← get
      gap
      match binaryOp? (← get) with
      | some (op, rest) =>
          if least ≤ op.precedence then
            set rest
            let first ← operand
            let rhs ← climb operand fuel (op.precedence + 1) first
            climb operand fuel least (.binary .unnumbered op lhs rhs)
          else
            set start
            return lhs
      | none =>
          set start
          return lhs

/-- Read operands and the binary operators between them. -/
def binary (inner : Reader Expr) (fuel : Nat) : Reader Expr := do
  let first ← prefixed inner fuel
  climb (prefixed inner fuel) fuel 0 first

/-- Read a choice between two values, or what binds tighter. -/
def ternary (inner : Reader Expr) (fuel : Nat) : Reader Expr := do
  let cond ← binary inner fuel
  if ← atToken "?" then
    token "?"
    let whenTrue ← inner
    token ":"
    let whenFalse ← inner
    return .ternary .unnumbered cond whenTrue whenFalse
  else return cond

/-- An assignment operator at the beginning of a text, and what follows it. -/
def assignOp? : List Char → Option (AssignOp × List Char)
  | '+' :: '=' :: rest => some (.add, rest)
  | '-' :: '=' :: rest => some (.sub, rest)
  | '*' :: '=' :: rest => some (.mul, rest)
  | '/' :: '=' :: rest => some (.div, rest)
  | '=' :: rest => if rest.head? == some '=' then none else some (.set, rest)
  | _ => none

/-- Read an assignment, or what binds tighter. -/
def assignment (inner : Reader Expr) (fuel : Nat) : Reader Expr := do
  let target ← ternary inner fuel
  gap
  match assignOp? (← get) with
  | some (op, rest) =>
      set rest
      let value ← inner
      return .assign .unnumbered op target value
  | none => return target

/-- Read an expression with at most `fuel` levels of nesting. -/
def expression : Nat → Reader Expr
  | 0 => Reader.fail .unexpected
  | fuel + 1 => assignment (expression fuel) (fuel + 1)

end Parse
end Whittle
