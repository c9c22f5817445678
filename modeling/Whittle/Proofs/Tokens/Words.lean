import Whittle.Print.Shader
import Whittle.Proofs.Tokens.Lexing

namespace Whittle

/-!
# What tokens and trees say

Two texts say the same if their tokens agree apart from what has no meaning.  Parentheses
only group, numbers can be written in many ways, and the reader passes over a plus sign in
front of an operand, the word `in` in front of a parameter and a `void` that is alone between
parentheses.  Whether a token is one of these depends on what stands in front of it, so the
tokens are gone through from the first to the last one.
-/

open Parse (tokens)

/-- What stands in front of a token, as far as it decides what the token means. -/
inductive Front where
  /-- Nothing that an operator could stand behind. -/
  | start
  /-- An opening parenthesis. -/
  | opening
  | comma
  /-- The end of an operand, or a word. -/
  | operand
  /-- The word of a statement that has a header. -/
  | header
  /-- A point, so that a word is the name of a member. -/
  | point
  /-- The word `case`. -/
  | label
  /-- The minus sign of a label. -/
  | minus
deriving DecidableEq

/-- Whether an operand may begin here. -/
def Front.awaits : Front → Bool
  | .start | .opening | .comma => true
  | _ => false

theorem Front.ne_of_awaits {front front' : Front} (awaits : front.awaits = true)
    (closed : front'.awaits = false) : front ≠ front' := by
  rintro rfl
  rw [closed] at awaits
  cases awaits

/-- What stands in front of a token, and of each open parenthesis, from the inside to the
outside, whether it is that of a header. -/
structure TokenScan where
  front : Front
  opened : List Bool

namespace TokenScan

def beginning : TokenScan := ⟨.start, []⟩

/-- What a word is for the token behind it. -/
def frontBehind (name : String) : Front :=
  if ["if", "for", "while", "switch"].contains name then .header
  else if ["return", "else"].contains name then .start
  else if name == "case" then .label
  else .operand

def behind (scan : TokenScan) : Token → TokenScan
  | .directive _ => ⟨.start, scan.opened⟩
  | .word name => ⟨if scan.front == .point then .operand else frontBehind name, scan.opened⟩
  | .int _ | .float _ | .mark "]" => ⟨.operand, scan.opened⟩
  | .mark "(" => ⟨.opening, (scan.front == .header) :: scan.opened⟩
  | .mark ")" => ⟨if scan.opened.headD false then .start else .operand, scan.opened.tail⟩
  | .mark "," => ⟨.comma, scan.opened⟩
  | .mark "." => ⟨.point, scan.opened⟩
  | .mark "++" | .mark "--" => ⟨if scan.front == .operand then .operand else .start, scan.opened⟩
  | .mark "-" => ⟨if scan.front == .label then .minus else .start, scan.opened⟩
  | .mark _ => ⟨.start, scan.opened⟩

/-- Whether the reader passes over the token: a plus sign without a left operand, `in` in
front of a parameter, or `void` between parentheses of its own. -/
def isIdle (scan : TokenScan) (token : Token) (next? : Option Token) : Bool :=
  match token with
  | .mark text => text == "+" && scan.front.awaits
  | .word name =>
      name == "in" && (scan.front == .opening || scan.front == .comma) ||
        name == "void" && scan.front == .opening && next? == some (.mark ")")
  | _ => false

/-- What a token says: nothing if it is a parenthesis, and of a number the printed form of its
value.  The sign of a label is a part of its number. -/
def spell (scan : TokenScan) : Token → List String
  | .directive line => ["#" ++ String.ofList line]
  | .word name => [name]
  | .int digits =>
      [toString (if scan.front == .minus then -Int.ofNat (Binary64.digitsValue digits)
        else Binary64.digitsValue digits)]
  | .float text => ((Binary64.ofText? text).map Binary64.text).toList
  | .mark text =>
      if text == "(" || text == ")" || (text == "-" && scan.front == .label) then [] else [text]

/-- What tokens say one after the other, with or without those that the reader passes over. -/
def spelling (passing : Bool) : TokenScan → List Token → List String
  | _, [] => []
  | scan, token :: rest =>
      if passing && scan.isIdle token rest.head? then spelling passing scan rest
      else scan.spell token ++ spelling passing (scan.behind token) rest

end TokenScan

/-- What has been said so far, and how the scan goes on. -/
structure Progress where
  said : List String
  scan : TokenScan

namespace Progress

variable {p : Progress} {passing : Bool} {input chars rest : List Char}

/-- What has been said at the end of the text, if it goes on with `input`. -/
def total (passing : Bool) (p : Progress) (input : List Char) : List String :=
  p.said ++ p.scan.spelling passing (tokens input)

def behind (p : Progress) (token : Token) : Progress :=
  ⟨p.said ++ p.scan.spell token, p.scan.behind token⟩

/-- The progress behind words that leave no parenthesis open. -/
def say (p : Progress) (words : List String) (front : Front) : Progress :=
  ⟨p.said ++ words, ⟨front, p.scan.opened⟩⟩

@[simp] theorem say_say (words words' : List String) (front front' : Front) :
    (p.say words front).say words' front' = p.say (words ++ words') front' := by
  rw [say, say, say, List.append_assoc]

@[simp] theorem front_say (words : List String) (front : Front) :
    (p.say words front).scan.front = front :=
  rfl

theorem say_nil {front : Front} (same : p.scan.front = front) : p.say [] front = p := by
  rw [say, List.append_nil, ← same]

/-! Behind a parenthesis and the one that closes it, the scan is where it was. -/

/-- The progress in parentheses. -/
def opening (p : Progress) : Progress :=
  ⟨p.said, ⟨.opening, (p.scan.front == .header) :: p.scan.opened⟩⟩

theorem behind_openParen : p.behind (.mark "(") = p.opening := by
  rw [behind, opening]
  exact congrArg (Progress.mk · _) (List.append_nil _)

@[simp] theorem front_opening : p.opening.scan.front = .opening :=
  rfl

theorem behind_closeParen (words : List String) (front : Front) :
    (p.opening.say words front).behind (.mark ")") =
      p.say words (if p.scan.front = .header then .start else .operand) := by
  by_cases isHeader : p.scan.front = .header
  · rw [if_pos isHeader]
    simp [behind, opening, say, TokenScan.behind, TokenScan.spell, isHeader]
  · rw [if_neg isHeader]
    simp [behind, opening, say, TokenScan.behind, TokenScan.spell, isHeader]

/-! ## Steps -/

/-- A token that is not passed over is said. -/
theorem total_of_token {token : Token} (areTokens : tokens input = token :: tokens rest)
    (said : passing = false ∨ p.scan.isIdle token (tokens rest).head? = false) :
    p.total passing input = (p.behind token).total passing rest := by
  have notPassed : (passing && p.scan.isIdle token (tokens rest).head?) = false := by
    rcases said with rfl | said
    · rfl
    · rw [said, Bool.and_false]
  rw [total, total, areTokens, TokenScan.spelling, notPassed, if_neg Bool.false_ne_true, behind,
    List.append_assoc]

/-- One that is passed over changes nothing. -/
theorem total_of_idle {token : Token} (areTokens : tokens input = token :: tokens rest)
    (isIdle : p.scan.isIdle token (tokens rest).head? = true) :
    p.total true input = p.total true rest := by
  rw [total, total, areTokens, TokenScan.spelling, isIdle]
  rfl

theorem total_of_shows (shown : Parse.Shows input chars) :
    p.total passing input = p.total passing chars := by
  rw [total, total, shown.tokens_eq]

@[simp] theorem total_space : p.total passing (' ' :: rest) = p.total passing rest := by
  rw [total, total, Parse.tokens_space]

@[simp] theorem total_newline : p.total passing ('\n' :: rest) = p.total passing rest := by
  rw [total, total, Parse.tokens_newline]

end Progress

/-!
## What trees say

A tree says the words, operators and marks that stand for its nodes in the order of the text.
Parentheses say nothing, so the text of a tree says the same wherever the writer puts them.
-/

/-- What the members of a list say, with commas between them. -/
def separated {α : Type} (words : α → List String) : List α → List String
  | [] => []
  | a :: rest => words a ++ rest.flatMap fun a => "," :: words a

namespace Progress

variable {α : Type} {p : Progress}

/-- The progress behind a list, which may be empty. -/
def sayItems (p : Progress) (words : α → List String) : List α → Progress
  | [] => p
  | a :: rest => p.say (separated words (a :: rest)) .operand

/-- What is behind a list in parentheses stands behind an operand. -/
theorem behind_closeParen_sayItems (notHeader : p.scan.front ≠ .header) (words : α → List String)
    (items : List α) :
    (p.opening.sayItems words items).behind (.mark ")") = p.say (separated words items) .operand := by
  cases items with
  | nil =>
      rw [sayItems, ← say_nil (front_opening (p := p)), behind_closeParen, if_neg notHeader, separated]
  | cons a rest => rw [sayItems, behind_closeParen, if_neg notHeader]

/-! An operator is said, and what is behind it depends on its kind. -/

theorem behind_binarySymbol (here : p.scan.front = .operand) (op : BinaryOp) :
    p.behind (.mark op.symbol) = p.say [op.symbol] .start := by
  cases op <;> simp [behind, say, TokenScan.behind, TokenScan.spell, BinaryOp.symbol, here]

theorem behind_assignSymbol (op : AssignOp) : p.behind (.mark op.symbol) = p.say [op.symbol] .start := by
  cases op <;> rfl

theorem behind_prefixSymbol (awaits : p.scan.front.awaits = true) {op : UnaryOp}
    (inFront : op.followsOperand = false) : p.behind (.mark op.symbol) = p.say [op.symbol] .start := by
  have notLabel : p.scan.front ≠ .label := Front.ne_of_awaits awaits rfl
  have notOperand : p.scan.front ≠ .operand := Front.ne_of_awaits awaits rfl
  cases op with
  | negate | not | preIncrement | preDecrement =>
      simp [behind, say, TokenScan.behind, TokenScan.spell, UnaryOp.symbol, notLabel, notOperand]
  | postIncrement | postDecrement => cases inFront

theorem behind_suffixSymbol (here : p.scan.front = .operand) {op : UnaryOp}
    (isBehind : op.followsOperand = true) :
    p.behind (.mark op.symbol) = p.say [op.symbol] .operand := by
  cases op with
  | postIncrement | postDecrement =>
      simp [behind, say, TokenScan.behind, TokenScan.spell, UnaryOp.symbol, here]
  | negate | not | preIncrement | preDecrement => cases isBehind

end Progress

namespace Expr

mutual

/-- What an expression says. -/
def words : Expr → List String
  | .int _ value => [toString value]
  | .float _ value => [value.text]
  | .bool _ value => [if value then "true" else "false"]
  | .var _ name => [name]
  | .unary _ op operand =>
      if op.followsOperand then operand.words ++ [op.symbol] else op.symbol :: operand.words
  | .binary _ op lhs rhs => lhs.words ++ op.symbol :: rhs.words
  | .assign _ op target value => target.words ++ op.symbol :: value.words
  | .ternary _ cond whenTrue whenFalse =>
      cond.words ++ "?" :: (whenTrue.words ++ ":" :: whenFalse.words)
  | .call _ callee args => callee :: wordsOfArgs args
  | .member _ base field => base.words ++ [".", field]
  | .index _ base position => base.words ++ "[" :: (position.words ++ ["]"])
  | .paren _ inner => inner.words

/-- What the arguments of a call say. -/
def wordsOfArgs : List Expr → List String
  | [] => []
  | [e] => e.words
  | e :: next :: rest => e.words ++ "," :: wordsOfArgs (next :: rest)

end

theorem wordsOfArgs_eq_separated (args : List Expr) : wordsOfArgs args = separated words args := by
  induction args with
  | nil => rfl
  | cons e behind inductionHypothesis =>
      cases behind with
      | nil => rw [wordsOfArgs, separated, List.flatMap_nil, List.append_nil]
      | cons next rest =>
          rw [wordsOfArgs, inductionHypothesis, separated, separated, List.flatMap_cons,
            List.cons_append]

end Expr

/-- What the initialiser of a variable says, if there is one. -/
def Expr.wordsOfInit : Option Expr → List String
  | some init => "=" :: init.words
  | none => []

def VarDecl.words (var : VarDecl) : List String :=
  (var.qualifier.map Qualifier.keyword).toList ++
    var.ty.text :: var.name :: (Expr.wordsOfInit var.init ++ [";"])

def Label.words : Label → List String
  | .value number => ["case", toString number, ":"]
  | .otherwise => ["default", ":"]

namespace Stmt

/-- What the first part of the header of a `for` loop says. -/
def wordsOfInit : Option Stmt → List String
  | some (.decl _ var) => var.words
  | some (.expr _ e) => e.words ++ [";"]
  | _ => [";"]

def wordsOfOption : Option Expr → List String
  | some e => e.words
  | none => []

end Stmt

def Progress.sayOption (p : Progress) : Option Expr → Progress
  | some e => p.say e.words .operand
  | none => p

theorem Progress.exists_sayOption_eq (p : Progress) (e? : Option Expr) :
    ∃ front, p.sayOption e? = p.say (Stmt.wordsOfOption e?) front := by
  cases e? with
  | none => exact ⟨_, (say_nil rfl).symm⟩
  | some e => exact ⟨_, rfl⟩

namespace Stmt

mutual

/-- What a statement says. -/
def words : Stmt → List String
  | .decl _ var => var.words
  | .expr _ e => e.words ++ [";"]
  | .block _ _ stmts => "\x7b" :: (wordsOfList stmts ++ ["\x7d"])
  | .branch _ cond whenTrue whenFalse =>
      "if" :: (cond.words ++ (whenTrue.words ++ wordsOfElse whenFalse))
  | .forLoop _ init cond step body =>
      "for" :: (wordsOfInit init ++ (wordsOfOption cond ++ ";" :: (wordsOfOption step ++ body.words)))
  | .whileLoop _ cond body => "while" :: (cond.words ++ body.words)
  | .switch _ selector cases =>
      "switch" :: (selector.words ++ "\x7b" :: (wordsOfCases cases ++ ["\x7d"]))
  | .ret _ value => "return" :: (wordsOfOption value ++ [";"])
  | .breakOut _ => ["break", ";"]
  | .continueLoop _ => ["continue", ";"]
  | .discard _ => ["discard", ";"]
  | .empty _ => [";"]

/-- What a second branch says with the word in front of it. -/
def wordsOfElse : Option Stmt → List String
  | none => []
  | some s => "else" :: s.words

def wordsOfList : List Stmt → List String
  | [] => []
  | s :: rest => s.words ++ wordsOfList rest

def wordsOfCases : List Case → List String
  | [] => []
  | .mk _ label body :: rest => label.words ++ (wordsOfList body ++ wordsOfCases rest)

end

theorem wordsOfList_eq_flatMap (stmts : List Stmt) : wordsOfList stmts = stmts.flatMap words := by
  induction stmts with
  | nil => rfl
  | cons s rest inductionHypothesis => rw [wordsOfList, inductionHypothesis, List.flatMap_cons]

end Stmt

/-- What a case of a selection says. -/
def Case.words (one : Case) : List String :=
  one.label.words ++ Stmt.wordsOfList one.body

theorem Stmt.wordsOfCases_eq_flatMap (cases : List Case) :
    wordsOfCases cases = cases.flatMap Case.words := by
  induction cases with
  | nil => rfl
  | cons one rest inductionHypothesis =>
      cases one with
      | mk id label body =>
          rw [wordsOfCases, inductionHypothesis, List.flatMap_cons, Case.words, List.append_assoc]
          rfl

/-- What a field of a struct says. -/
def Field.words (field : Field) : List String :=
  [field.ty.text, field.name, ";"]

def Param.words (param : Param) : List String :=
  [param.ty.text, param.name]

def Decl.words : Decl → List String
  | .precision decl => ["precision", decl.precision.keyword, decl.ty.text, ";"]
  | .struct decl => "struct" :: decl.name :: "\x7b" :: (decl.fields.flatMap Field.words ++ ["\x7d", ";"])
  | .global var => var.words
  | .function f =>
      f.returnTy.text :: f.name :: (separated Param.words f.params ++
        "\x7b" :: (Stmt.wordsOfList f.body.stmts ++ ["\x7d"]))

end Whittle
