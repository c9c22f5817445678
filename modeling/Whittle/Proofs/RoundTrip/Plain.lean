import Mathlib.Data.List.Forall2
import Whittle.Print.Expr
import Whittle.Proofs.Parse.Tokens
import Whittle.Parse.Expr

namespace Whittle

/-!
# Expressions as the reader builds them

The parentheses that a text shows and the nodes that hold them are two things.
The writer adds parentheses where a part binds too loosely for its place, the
reader makes a node of each pair, and a tree that needs no more of them is
*plain*.  What a text stands for is always a plain tree, so it is enough to know
how plain trees are read, and which plain tree has the text of a given one.
-/

namespace Parse

/-- Whether a word may name a variable, a function or a struct. -/
def isName (name : String) : Bool :=
  isWord name && !isReserved name && (Ty.ofKeyword? name).isNone

/-- Whether a word may stand in front of the arguments of a call. -/
def isCallee (name : String) : Bool :=
  isWord name && !isReserved name && name != "void"

theorem isWord_of_isName {name : String} (named : isName name = true) : isWord name = true := by
  simp only [isName, Bool.and_eq_true] at named
  exact named.1.1

theorem isWord_of_isCallee {name : String} (called : isCallee name = true) :
    isWord name = true := by
  simp only [isCallee, Bool.and_eq_true] at called
  exact called.1.1

theorem isReserved_of_isName {name : String} (named : isName name = true) :
    isReserved name = false := by
  simp only [isName, Bool.and_eq_true, Bool.not_eq_true'] at named
  exact named.1.2

theorem isReserved_of_isCallee {name : String} (called : isCallee name = true) :
    isReserved name = false := by
  simp only [isCallee, Bool.and_eq_true, Bool.not_eq_true'] at called
  exact called.1.2

theorem ofKeyword?_of_isName {name : String} (named : isName name = true) :
    Ty.ofKeyword? name = none := by
  simp only [isName, Bool.and_eq_true, Option.isNone_iff_eq_none] at named
  exact named.2

/-- Every name may be called. -/
theorem isCallee_of_isName {name : String} (named : isName name = true) :
    isCallee name = true := by
  have notVoid : name ≠ "void" := by
    rintro rfl
    revert named
    decide
  simp [isCallee, isWord_of_isName named, isReserved_of_isName named, notVoid]

end Parse

/-- Whether a number is infinity with a positive sign. -/
def Binary64.isInfinity (x : Binary64) : Bool :=
  x.magnitude == .infinite && !x.isNegative

namespace Expr

/-- Whether the base of a member is an integer literal, whose text would run
into the point. -/
def isInt : Expr → Bool
  | .int .. => true
  | _ => false

/-- Whether the text of a node is one that the reader knows: names are names,
and literals are not negative and fit. -/
def isReadable : Expr → Bool
  | .int _ value => 0 ≤ value && value ≤ Parse.largestInt
  | .float _ value => !value.isNegative && value.magnitude != .notANumber
  | .var _ name => Parse.isName name
  | .call _ callee _ => Parse.isCallee callee
  | .member _ base field => !base.isInt && Parse.isWord field
  | _ => true

def Readable (e : Expr) : Prop :=
  ∀ part ∈ e.subexprs, part.isReadable = true

/-- Whether a node is the literal of infinity, which is written like a name. -/
def isInfinity : Expr → Bool
  | .float _ value => value.isInfinity
  | _ => false

/-- Whether a prefix operator and the text of its operand would join into
another operator. -/
def joins (op : UnaryOp) (operandText : String) : Bool :=
  op.symbol.toList.getLast? == some '-' && operandText.toList.head? == some '-'

/-- The expressions that the reader builds: their nodes are not numbered, and
they hold a parenthesis wherever their text shows one. -/
inductive Plain : Expr → Prop where
  | int {value : Int} (nonneg : 0 ≤ value) (fits : value ≤ Parse.largestInt) :
      Plain (.int .unnumbered value)
  | float {value : Binary64} (nonneg : value.isNegative = false) {significand : Nat}
      {exponent : Int} {isPower : Bool}
      (finite : value.magnitude = .finite significand exponent isPower) :
      Plain (.float .unnumbered value)
  | bool {value : Bool} : Plain (.bool .unnumbered value)
  | var {name : String} (named : Parse.isName name = true) : Plain (.var .unnumbered name)
  | front {op : UnaryOp} {operand : Expr} (inFront : op.followsOperand = false)
      (inner : Plain operand) (tight : Precedence.prefixed ≤ operand.precedence)
      (apart : joins op operand.bareText = false) : Plain (.unary .unnumbered op operand)
  | behind {op : UnaryOp} {operand : Expr} (isBehind : op.followsOperand = true)
      (inner : Plain operand) (tight : Precedence.suffixed ≤ operand.precedence) :
      Plain (.unary .unnumbered op operand)
  | binary {op : BinaryOp} {lhs rhs : Expr} (left : Plain lhs) (right : Plain rhs)
      (tightLeft : op.precedence ≤ lhs.precedence)
      (tightRight : op.precedence + 1 ≤ rhs.precedence) : Plain (.binary .unnumbered op lhs rhs)
  | assign {op : AssignOp} {target value : Expr} (written : Plain target) (read : Plain value)
      (tight : Precedence.prefixed ≤ target.precedence) :
      Plain (.assign .unnumbered op target value)
  | ternary {cond whenTrue whenFalse : Expr} (tested : Plain cond) (first : Plain whenTrue)
      (second : Plain whenFalse) (tightCond : Precedence.disjunction ≤ cond.precedence)
      (tightFalse : Precedence.choice ≤ whenFalse.precedence) :
      Plain (.ternary .unnumbered cond whenTrue whenFalse)
  | call {callee : String} {args : List Expr} (called : Parse.isCallee callee = true)
      (passed : ∀ arg ∈ args, Plain arg) : Plain (.call .unnumbered callee args)
  | member {base : Expr} {field : String} (inner : Plain base)
      (tight : Precedence.suffixed ≤ base.precedence) (notInt : base.isInt = false)
      (selected : Parse.isWord field = true) : Plain (.member .unnumbered base field)
  | index {base position : Expr} (inner : Plain base) (at? : Plain position)
      (tight : Precedence.suffixed ≤ base.precedence) : Plain (.index .unnumbered base position)
  | paren {inner : Expr} (enclosed : Plain inner) : Plain (.paren .unnumbered inner)

/-- Nothing binds looser than an assignment. -/
theorem assignment_le_precedence (e : Expr) : Precedence.assignment ≤ e.precedence := by
  have binary : ∀ op : BinaryOp, Precedence.assignment ≤ op.precedence := by
    intro op
    cases op <;> decide
  cases e with
  | binary id op lhs rhs => exact binary op
  | unary id op operand => cases op <;> exact Nat.le_of_ble_eq_true rfl
  | int id value =>
      show _ ≤ if value < 0 then _ else _
      split <;> decide
  | float id value =>
      show _ ≤ if value.isNegative then _ else _
      split <;> decide
  | _ => exact Nat.le_of_ble_eq_true rfl

theorem enclosed_of_le {least : Nat} {e : Expr} {bareText : String}
    (tight : least ≤ e.precedence) : e.enclosed least bareText = bareText :=
  if_neg (Nat.not_lt.mpr tight)

theorem enclosed_assignment (e : Expr) (bareText : String) :
    e.enclosed Precedence.assignment bareText = bareText :=
  enclosed_of_le e.assignment_le_precedence

/-- An expression on its own needs no parentheses. -/
theorem text_eq_bareText (e : Expr) : e.text = e.bareText :=
  enclosed_assignment e e.bareText

theorem bareText_paren (id : NodeId) (inner : Expr) :
    (paren id inner).bareText = "(" ++ inner.bareText ++ ")" := by
  rw [bareText, enclosed_assignment]

/-- The part `read` of a plain expression for the part `e` of another, with the
parentheses that its place demands. -/
def placedAt (least : Nat) (e read : Expr) : Expr :=
  if e.precedence < least then .paren .unnumbered read else read

/-- The operand of a plain prefix operator. -/
def keptApart (op : UnaryOp) (operand : Expr) : Expr :=
  if joins op operand.bareText then .paren .unnumbered operand else operand

mutual

/-- What the text of an expression is read as. -/
def asRead : Expr → Expr
  | .int _ value => .int .unnumbered value
  | .float _ value =>
      if value.isInfinity then .var .unnumbered "inf" else .float .unnumbered value
  | .bool _ value => .bool .unnumbered value
  | .var _ name => .var .unnumbered name
  | .unary _ op operand =>
      if op.followsOperand then
        .unary .unnumbered op (operand.placedAt Precedence.suffixed operand.asRead)
      else
        .unary .unnumbered op (keptApart op (operand.placedAt Precedence.prefixed operand.asRead))
  | .binary _ op lhs rhs =>
      .binary .unnumbered op (lhs.placedAt op.precedence lhs.asRead)
        (rhs.placedAt (op.precedence + 1) rhs.asRead)
  | .assign _ op target value =>
      .assign .unnumbered op (target.placedAt Precedence.prefixed target.asRead) value.asRead
  | .ternary _ cond whenTrue whenFalse =>
      .ternary .unnumbered (cond.placedAt Precedence.disjunction cond.asRead) whenTrue.asRead
        (whenFalse.placedAt Precedence.choice whenFalse.asRead)
  | .call _ callee args => .call .unnumbered callee (asReadList args)
  | .member _ base field =>
      .member .unnumbered (base.placedAt Precedence.suffixed base.asRead) field
  | .index _ base position =>
      .index .unnumbered (base.placedAt Precedence.suffixed base.asRead) position.asRead
  | .paren _ inner => .paren .unnumbered inner.asRead

def asReadList : List Expr → List Expr
  | [] => []
  | e :: rest => e.asRead :: asReadList rest

end

theorem asReadList_eq_map (es : List Expr) : asReadList es = es.map asRead := by
  induction es with
  | nil => rfl
  | cons e rest inductionHypothesis => rw [asReadList, inductionHypothesis, List.map_cons]

theorem precedence_asRead (e : Expr) : e.asRead.precedence = e.precedence := by
  cases e with
  | float id value =>
      rw [asRead]
      split
      · rename_i isInfinity
        rw [Binary64.isInfinity, Bool.and_eq_true, Bool.not_eq_true'] at isInfinity
        rw [precedence, precedence, isInfinity.2]
        rfl
      · rfl
  | unary id op operand =>
      rw [asRead]
      split
      · rfl
      · rfl
  | _ => rfl

/-- The parentheses of a part are those that the writer adds. -/
theorem bareText_placedAt (least : Nat) (e read : Expr) :
    (e.placedAt least read).bareText = e.enclosed least read.bareText := by
  rw [placedAt, enclosed]
  split
  · exact bareText_paren _ _
  · rfl

/-- A part binds tightly enough for its place. -/
theorem le_precedence_placedAt {least : Nat} {e read : Expr} (low : least ≤ Precedence.primary)
    (same : read.precedence = e.precedence) : least ≤ (e.placedAt least read).precedence := by
  rw [placedAt]
  split
  · exact low
  · omega

theorem le_precedence_keptApart {least : Nat} {op : UnaryOp} {operand : Expr}
    (low : least ≤ Precedence.primary) (tight : least ≤ operand.precedence) :
    least ≤ (keptApart op operand).precedence := by
  rw [keptApart]
  split
  · exact low
  · exact tight

theorem joins_paren (op : UnaryOp) (id : NodeId) (inner : Expr) :
    joins op (paren id inner).bareText = false := by
  rw [bareText_paren, joins, String.toList_append, String.toList_append]
  exact Bool.and_false _

theorem joins_keptApart (op : UnaryOp) (operand : Expr) :
    joins op (keptApart op operand).bareText = false := by
  rw [keptApart]
  split
  · exact joins_paren op _ operand
  · rename_i apart
    exact eq_false_of_ne_true apart

theorem prefixedText_eq (op : UnaryOp) (operandText : String) :
    prefixedText op operandText =
      if joins op operandText then op.symbol ++ "(" ++ operandText ++ ")"
      else op.symbol ++ operandText :=
  rfl

theorem symbol_append_keptApart (op : UnaryOp) (operand : Expr) :
    op.symbol ++ (keptApart op operand).bareText = prefixedText op operand.bareText := by
  rw [prefixedText_eq, keptApart]
  split
  · rw [bareText_paren, ← String.append_assoc, ← String.append_assoc]
  · rfl

/-! ## The text of what is read -/

theorem text_of_isInfinity {x : Binary64} (isInfinity : x.isInfinity = true) : x.text = "inf" := by
  rw [Binary64.isInfinity, Bool.and_eq_true, beq_iff_eq, Bool.not_eq_true'] at isInfinity
  rw [Binary64.text, isInfinity.1, isInfinity.2]
  rfl

mutual

/-- Reading changes no text. -/
theorem bareText_asRead (e : Expr) : e.asRead.bareText = e.bareText := by
  cases e with
  | int id value => rfl
  | bool id value => rfl
  | var id name => rfl
  | float id value =>
      rw [asRead]
      split
      · rename_i isInfinity
        rw [bareText, bareText, text_of_isInfinity isInfinity]
      · rfl
  | unary id op operand =>
      have read := bareText_asRead operand
      have same := precedence_asRead operand
      rw [asRead]
      split
      · rename_i isBehind
        have tight : Precedence.suffixed ≤
            (operand.placedAt Precedence.suffixed operand.asRead).precedence :=
          le_precedence_placedAt (by decide) same
        rw [bareText, bareText, if_pos isBehind, if_pos isBehind, enclosed_of_le tight,
          bareText_placedAt, read]
      · rename_i inFront
        have tight : Precedence.prefixed ≤
            (keptApart op (operand.placedAt Precedence.prefixed operand.asRead)).precedence :=
          le_precedence_keptApart (by decide) (le_precedence_placedAt (by decide) same)
        rw [bareText, bareText, if_neg inFront, if_neg inFront, enclosed_of_le tight,
          prefixedText_eq, joins_keptApart, if_neg Bool.false_ne_true, symbol_append_keptApart,
          bareText_placedAt, read]
  | binary id op lhs rhs =>
      have low : op.precedence + 1 ≤ Precedence.primary := by cases op <;> decide
      have tightLeft : op.precedence ≤ (lhs.placedAt op.precedence lhs.asRead).precedence :=
        le_precedence_placedAt (by omega) (precedence_asRead lhs)
      have tightRight :
          op.precedence + 1 ≤ (rhs.placedAt (op.precedence + 1) rhs.asRead).precedence :=
        le_precedence_placedAt low (precedence_asRead rhs)
      rw [asRead, bareText, bareText, enclosed_of_le tightLeft, enclosed_of_le tightRight,
        bareText_placedAt, bareText_placedAt, bareText_asRead lhs, bareText_asRead rhs]
  | assign id op target value =>
      have tight : Precedence.prefixed ≤
          (target.placedAt Precedence.prefixed target.asRead).precedence :=
        le_precedence_placedAt (by decide) (precedence_asRead target)
      rw [asRead, bareText, bareText, enclosed_of_le tight, bareText_placedAt,
        bareText_asRead target, enclosed_assignment, enclosed_assignment, bareText_asRead value]
  | ternary id cond whenTrue whenFalse =>
      have tightCond : Precedence.disjunction ≤
          (cond.placedAt Precedence.disjunction cond.asRead).precedence :=
        le_precedence_placedAt (by decide) (precedence_asRead cond)
      have tightFalse : Precedence.choice ≤
          (whenFalse.placedAt Precedence.choice whenFalse.asRead).precedence :=
        le_precedence_placedAt (by decide) (precedence_asRead whenFalse)
      rw [asRead, bareText, bareText, enclosed_of_le tightCond, enclosed_of_le tightFalse,
        bareText_placedAt, bareText_placedAt, bareText_asRead cond, bareText_asRead whenFalse,
        enclosed_assignment, enclosed_assignment, bareText_asRead whenTrue]
  | call id callee args => rw [asRead, bareText, bareText, argsText_asReadList args]
  | member id base field =>
      have tight : Precedence.suffixed ≤
          (base.placedAt Precedence.suffixed base.asRead).precedence :=
        le_precedence_placedAt (by decide) (precedence_asRead base)
      rw [asRead, bareText, bareText, enclosed_of_le tight, bareText_placedAt,
        bareText_asRead base]
  | index id base position =>
      have tight : Precedence.suffixed ≤
          (base.placedAt Precedence.suffixed base.asRead).precedence :=
        le_precedence_placedAt (by decide) (precedence_asRead base)
      rw [asRead, bareText, bareText, enclosed_of_le tight, bareText_placedAt,
        bareText_asRead base, enclosed_assignment, enclosed_assignment, bareText_asRead position]
  | paren id inner => rw [asRead, bareText_paren, bareText_paren, bareText_asRead inner]

theorem argsText_asReadList (es : List Expr) : argsText (asReadList es) = argsText es := by
  match es with
  | [] => rfl
  | [e] =>
      rw [asReadList, asReadList, argsText, argsText, enclosed_assignment, enclosed_assignment,
        bareText_asRead e]
  | e :: next :: rest =>
      have behind := argsText_asReadList (next :: rest)
      rw [asReadList] at behind
      rw [asReadList, asReadList, argsText, argsText, enclosed_assignment, enclosed_assignment,
        bareText_asRead e, behind]

end

theorem Readable.self {e : Expr} (readable : e.Readable) : e.isReadable = true :=
  readable e e.self_mem_subexprs

theorem Readable.of_mem_children {e child : Expr} (readable : e.Readable)
    (listed : child ∈ e.children) : child.Readable :=
  fun part within => readable part (mem_subexprs_trans within (mem_subexprs_of_mem_children listed))

theorem Plain.placedAt {least : Nat} {e read : Expr} (plain : read.Plain) :
    (e.placedAt least read).Plain := by
  rw [Expr.placedAt]
  split
  · exact .paren plain
  · exact plain

theorem Plain.keptApart {op : UnaryOp} {operand : Expr} (plain : operand.Plain) :
    (keptApart op operand).Plain := by
  rw [Expr.keptApart]
  split
  · exact .paren plain
  · exact plain

theorem isInt_placedAt_asRead {least : Nat} {base : Expr} (notInt : base.isInt = false) :
    (base.placedAt least base.asRead).isInt = false := by
  rw [placedAt]
  split
  · rfl
  · cases base with
    | int => cases notInt
    | float id value =>
        rw [asRead]
        split <;> rfl
    | unary id op operand =>
        rw [asRead]
        split <;> rfl
    | _ => rfl

/-- The name under which infinity is written. -/
theorem isName_inf : Parse.isName "inf" = true := by
  decide

/-- What a readable expression is read as is plain. -/
theorem Readable.plain_asRead {e : Expr} (readable : e.Readable) : e.asRead.Plain := by
  induction e using children_induction with
  | step e inductionHypothesis =>
      have parts : ∀ child ∈ e.children, child.asRead.Plain := fun child listed =>
        inductionHypothesis child listed (readable.of_mem_children listed)
      have itself := readable.self
      cases e with
      | int id value =>
          simp only [isReadable, Bool.and_eq_true, decide_eq_true_eq] at itself
          exact .int itself.1 itself.2
      | float id value =>
          simp only [isReadable, Bool.and_eq_true, Bool.not_eq_true', bne_iff_ne] at itself
          rw [asRead]
          split
          · exact .var isName_inf
          · rename_i notInfinity
            cases size : value.magnitude with
            | finite significand exponent isPower => exact .float itself.1 size
            | infinite => simp [Binary64.isInfinity, size, itself.1] at notInfinity
            | notANumber => exact absurd size itself.2
      | bool id value => exact .bool
      | var id name => exact .var itself
      | unary id op operand =>
          have inner := parts operand (List.mem_singleton.mpr rfl)
          have same := precedence_asRead operand
          rw [asRead]
          split
          · rename_i isBehind
            exact .behind isBehind inner.placedAt (le_precedence_placedAt (by decide) same)
          · rename_i inFront
            exact .front (eq_false_of_ne_true inFront) inner.placedAt.keptApart
              (le_precedence_keptApart (by decide) (le_precedence_placedAt (by decide) same))
              (joins_keptApart op _)
      | binary id op lhs rhs =>
          have low : op.precedence + 1 ≤ Precedence.primary := by cases op <;> decide
          exact .binary (parts lhs (by simp [children])).placedAt
            (parts rhs (by simp [children])).placedAt
            (le_precedence_placedAt (by omega) (precedence_asRead lhs))
            (le_precedence_placedAt low (precedence_asRead rhs))
      | assign id op target value =>
          exact .assign (parts target (by simp [children])).placedAt
            (parts value (by simp [children]))
            (le_precedence_placedAt (by decide) (precedence_asRead target))
      | ternary id cond whenTrue whenFalse =>
          exact .ternary (parts cond (by simp [children])).placedAt
            (parts whenTrue (by simp [children])) (parts whenFalse (by simp [children])).placedAt
            (le_precedence_placedAt (by decide) (precedence_asRead cond))
            (le_precedence_placedAt (by decide) (precedence_asRead whenFalse))
      | call id callee args =>
          rw [asRead, asReadList_eq_map]
          refine .call itself fun arg listed => ?_
          rcases List.mem_map.mp listed with ⟨given, isGiven, rfl⟩
          exact parts given isGiven
      | member id base field =>
          simp only [isReadable, Bool.and_eq_true, Bool.not_eq_true'] at itself
          exact .member (parts base (List.mem_singleton.mpr rfl)).placedAt
            (le_precedence_placedAt (by decide) (precedence_asRead base))
            (isInt_placedAt_asRead itself.1) itself.2
      | index id base position =>
          exact .index (parts base (by simp [children])).placedAt
            (parts position (by simp [children]))
            (le_precedence_placedAt (by decide) (precedence_asRead base))
      | paren id inner => exact .paren (parts inner (List.mem_singleton.mpr rfl))

/-- The second expression is the first one with parentheses added, apart from
identifiers. -/
inductive ParensAdded : Expr → Expr → Prop where
  | int {id id' : NodeId} {value : Int} : ParensAdded (.int id value) (.int id' value)
  | float {id id' : NodeId} {value : Binary64} : ParensAdded (.float id value) (.float id' value)
  | bool {id id' : NodeId} {value : Bool} : ParensAdded (.bool id value) (.bool id' value)
  | var {id id' : NodeId} {name : String} : ParensAdded (.var id name) (.var id' name)
  | unary {id id' : NodeId} {op : UnaryOp} {operand operand' : Expr}
      (inner : ParensAdded operand operand') :
      ParensAdded (.unary id op operand) (.unary id' op operand')
  | binary {id id' : NodeId} {op : BinaryOp} {lhs lhs' rhs rhs' : Expr}
      (left : ParensAdded lhs lhs') (right : ParensAdded rhs rhs') :
      ParensAdded (.binary id op lhs rhs) (.binary id' op lhs' rhs')
  | assign {id id' : NodeId} {op : AssignOp} {target target' value value' : Expr}
      (written : ParensAdded target target') (read : ParensAdded value value') :
      ParensAdded (.assign id op target value) (.assign id' op target' value')
  | ternary {id id' : NodeId} {cond cond' whenTrue whenTrue' whenFalse whenFalse' : Expr}
      (tested : ParensAdded cond cond') (first : ParensAdded whenTrue whenTrue')
      (second : ParensAdded whenFalse whenFalse') :
      ParensAdded (.ternary id cond whenTrue whenFalse) (.ternary id' cond' whenTrue' whenFalse')
  | call {id id' : NodeId} {callee : String} {args args' : List Expr}
      (passed : List.Forall₂ ParensAdded args args') :
      ParensAdded (.call id callee args) (.call id' callee args')
  | member {id id' : NodeId} {base base' : Expr} {field : String}
      (inner : ParensAdded base base') :
      ParensAdded (.member id base field) (.member id' base' field)
  | index {id id' : NodeId} {base base' position position' : Expr}
      (inner : ParensAdded base base') (at? : ParensAdded position position') :
      ParensAdded (.index id base position) (.index id' base' position')
  | paren {id id' : NodeId} {inner inner' : Expr} (enclosed : ParensAdded inner inner') :
      ParensAdded (.paren id inner) (.paren id' inner')
  | added {id' : NodeId} {e e' : Expr} (enclosed : ParensAdded e e') :
      ParensAdded e (.paren id' e')

theorem ParensAdded.placedAt {least : Nat} {e place read : Expr} (added : e.ParensAdded read) :
    e.ParensAdded (place.placedAt least read) := by
  rw [Expr.placedAt]
  split
  · exact .added added
  · exact added

theorem ParensAdded.keptApart {op : UnaryOp} {e operand : Expr} (added : e.ParensAdded operand) :
    e.ParensAdded (keptApart op operand) := by
  rw [Expr.keptApart]
  split
  · exact .added added
  · exact added

/-- Without the literal of infinity, an expression is read as itself with
parentheses. -/
theorem parensAdded_asRead {e : Expr} (finite : ∀ part ∈ e.subexprs, part.isInfinity = false) :
    e.ParensAdded e.asRead := by
  induction e using children_induction with
  | step e inductionHypothesis =>
      have parts : ∀ child ∈ e.children, child.ParensAdded child.asRead := fun child listed =>
        inductionHypothesis child listed fun part within =>
          finite part (mem_subexprs_trans within (mem_subexprs_of_mem_children listed))
      have itself := finite e e.self_mem_subexprs
      cases e with
      | int id value => exact .int
      | float id value =>
          have notInfinity : ¬value.isInfinity = true := ne_true_of_eq_false itself
          rw [asRead, if_neg notInfinity]
          exact .float
      | bool id value => exact .bool
      | var id name => exact .var
      | unary id op operand =>
          have inner := parts operand (List.mem_singleton.mpr rfl)
          rw [asRead]
          split
          · exact .unary inner.placedAt
          · exact .unary inner.placedAt.keptApart
      | binary id op lhs rhs =>
          exact .binary (parts lhs (by simp [children])).placedAt
            (parts rhs (by simp [children])).placedAt
      | assign id op target value =>
          exact .assign (parts target (by simp [children])).placedAt
            (parts value (by simp [children]))
      | ternary id cond whenTrue whenFalse =>
          exact .ternary (parts cond (by simp [children])).placedAt
            (parts whenTrue (by simp [children])) (parts whenFalse (by simp [children])).placedAt
      | call id callee args =>
          rw [asRead, asReadList_eq_map]
          exact .call (List.forall₂_map_right_iff.mpr (List.forall₂_same.mpr parts))
      | member id base field => exact .member (parts base (List.mem_singleton.mpr rfl)).placedAt
      | index id base position =>
          exact .index (parts base (by simp [children])).placedAt
            (parts position (by simp [children]))
      | paren id inner => exact .paren (parts inner (List.mem_singleton.mpr rfl))

end Expr
end Whittle
