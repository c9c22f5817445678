import Whittle.Proofs.Scoping.Sole
import Whittle.Proofs.Scoping.Writes

namespace Whittle

/-!
# Every write has a name

What a valid shader writes is a variable or a part of one.  The check makes sure of this where it
asks whether a location may be written, and a search for written names comes to the same variable,
since both go through members, indices and parentheses.  So the name that is found stands for
something that may be written, and the write is seen in every piece of program around it.
-/

namespace Check
namespace Context

variable {ctx : Context}

/-- What may be written is a variable that may be, or a part of one. -/
theorem exists_binding_of_mayWrite {location : Expr} (writable : ctx.mayWrite location = true) :
    ∃ name binding, location.writtenVar? = some name ∧ ctx.lookup? name = some binding ∧
      binding.writable = true := by
  induction location using Expr.children_induction with
  | step location inductionHypothesis =>
      cases location with
      | var id name =>
          rw [mayWrite, Option.any_eq_true] at writable
          rcases writable with ⟨binding, isBinding, mayChange⟩
          exact ⟨name, binding, rfl, isBinding, mayChange⟩
      | member id base field =>
          rw [mayWrite, Bool.and_eq_true] at writable
          exact inductionHypothesis base List.mem_cons_self writable.2
      | index id base position => exact inductionHypothesis base List.mem_cons_self writable
      | paren id inner => exact inductionHypothesis inner List.mem_cons_self writable
      | _ => cases writable

/-- An expression that has a type writes only what may be written. -/
theorem mayWrite_of_writes {e location : Expr} (typed : (ctx.typeOf e).isSome)
    (writes : e.Writes location) : ctx.mayWrite location = true := by
  rcases Option.isSome_iff_exists.mp typed with ⟨ty, isTy⟩
  cases writes with
  | assign => exact (typeOf_assign_eq_some_iff.mp isTy).1
  | unary isStep => exact (typeOf_unary_eq_some_iff.mp isTy).1 isStep

end Context
end Check

namespace Shader

variable {shader : Shader} {version : Version}

/-- Where a valid shader writes, the name that is written stands for something writable. -/
theorem exists_binding_of_writes (valid : shader.IsValid version) {one : Check.Context.Placed}
    (listed : one ∈ shader.placed version) {e location : Expr} (isPart : e ∈ one.e.subexprs)
    (writes : e.Writes location) :
    ∃ name binding, location.writtenVar? = some name ∧ one.ctx.lookup? name = some binding ∧
      binding.writable = true := by
  rcases valid with ⟨types, checked⟩
  have typed := (types_eq_typeOf checked listed isPart).1
  exact Check.Context.exists_binding_of_mayWrite (Check.Context.mayWrite_of_writes typed writes)

/-- Every location that a valid shader writes is a variable or a part of one. -/
theorem exists_writtenVar?_of_writes (valid : shader.IsValid version) {e location : Expr}
    (listed : e ∈ shader.exprs) (writes : e.Writes location) :
    ∃ name, location.writtenVar? = some name := by
  rcases mem_exprs_iff.mp listed with ⟨one, isPlaced, isPart⟩
  rcases exists_binding_of_writes valid isPlaced isPart writes with ⟨name, _, isName, _⟩
  exact ⟨name, isName⟩

end Shader

namespace Reduction

/-- A piece of program whose names are collected. -/
inductive Piece where
  | expr (root : Expr)
  | list (stmts : List Stmt)
  | function (f : Function)
  | whole (shader : Shader)

namespace Piece

def exprs : Piece → List Expr
  | .expr root => root.subexprs
  | .list stmts => stmts.flatMap Stmt.exprs
  | .function f => f.exprs
  | .whole shader => shader.exprs

def names : Piece → Names
  | .expr root => .ofExpr root
  | .list stmts => .ofStmts stmts
  | .function f => .ofFunction f
  | .whole shader => .ofShader shader

theorem assigned_names (piece : Piece) :
    piece.names.assigned = piece.exprs.filterMap fun e => e.written?.bind Expr.writtenVar? := by
  cases piece with
  | expr root =>
      rw [exprs, ← List.flatMap_singleton Expr.subexprs root]
      rfl
  | list stmts =>
      show (((stmts.flatMap Stmt.roots).flatMap Expr.subexprs).filterMap _) = _
      rw [List.flatMap_assoc]
      rfl
  | function f => rfl
  | whole shader => exact Names.assigned_ofShader shader

/-- A name is among the assigned ones of a piece if an expression there writes its variable. -/
theorem assigns_names_iff (piece : Piece) (name : String) :
    piece.names.assigns name = true ↔
      ∃ e ∈ piece.exprs, ∃ location, e.Writes location ∧ location.writtenVar? = some name := by
  rw [Names.assigns, assigned_names, List.contains_iff_mem, List.mem_filterMap]
  refine exists_congr fun e => and_congr_right fun _ => ?_
  rw [Option.bind_eq_some_iff]
  exact exists_congr fun location => and_congr_left fun _ => Expr.writes_iff.symm

end Piece
end Reduction

namespace Scoping

open Reduction (Piece)

variable {shader : Shader} {version : Version}

/-- What is declared may be written: it is no constant, it is not supplied from outside, and it is
not the coordinate of the fragment. -/
structure Declared.MayChange (declared : Declared) : Prop where
  writable : declared.writable = true
  qualifier (var : VarDecl) (isVar : declared = .ofVar var) :
    var.qualifier ≠ some .const ∧ var.qualifier ≠ some .uniform ∧ var.qualifier ≠ some .input
  name : declared.name ≠ "gl_FragCoord"

/-- Of the variables of a valid shader, the writable ones are not qualified otherwise, and the
coordinate of the fragment is none of them. -/
theorem Declared.mayChange (follows : shader.FollowsRules version) {declared : Declared}
    (listed : declared ∈ allDeclared shader version) (writable : declared.writable = true) :
    declared.MayChange where
  writable := writable
  qualifier := by
    rintro var rfl
    have isWritable : Check.isWritable var.qualifier = true := writable
    refine ⟨?_, ?_, ?_⟩ <;>
      · intro isQualifier
        rw [isQualifier] at isWritable
        cases isWritable
  name := by
    intro isCoord
    have coord : Declared.predefined "gl_FragCoord" (.vector .float .four) false ∈
        Scoping.predefined version :=
      List.mem_cons_self
    rcases List.mem_append.mp listed with isPredefined | isOwn
    · rw [eq_of_mem_predefined isPredefined coord isCoord] at writable
      cases writable
    · have isOpen := isOpen_of_acceptsDecls follows.decls declared isOwn
      rw [isCoord] at isOpen
      exact not_isOpen_of_mem_predefined coord isOpen

/-- Wherever a write of a valid shader stands, the name that it writes selects a declaration in the
scopes around it that may be written. -/
theorem StandsInShader.exists_mayChange (valid : shader.IsValid version) {e location : Expr}
    {scopes : List Scope} (stands : StandsInShader shader version e scopes)
    (writes : e.Writes location) {name : String} (isName : location.writtenVar? = some name) :
    ∃ declared, select? scopes name = some declared ∧ declared.MayChange := by
  have follows := (Shader.isValid_iff.mp valid).2
  rcases stands.exists_placed follows with ⟨one, isPlaced, isPart, mirrors⟩
  rcases Shader.exists_binding_of_writes valid isPlaced isPart writes with
    ⟨other, binding, isOther, isBinding, mayChange⟩
  have same : other = name := Option.some.inj (isOther.symm.trans isName)
  subst same
  rw [mirrors other, Option.map_eq_some_iff] at isBinding
  rcases isBinding with ⟨declared, selected, rfl⟩
  rcases (exists_mem_of_select? selected).1 with ⟨scope, isScope, isMember⟩
  exact ⟨declared, selected, Declared.mayChange follows (stands.subset scope isScope isMember) mayChange⟩

/-- No write of a valid shader escapes the search for written names.  Each write has a name, this
selects something that may be written wherever the write stands, and every piece of program with the
write in it assigns the name; a piece assigns no other names than those of the writes in it. -/
theorem writes_are_named (valid : shader.IsValid version) :
    (∀ e ∈ shader.exprs, ∀ location, e.Writes location →
      ∃ name, location.writtenVar? = some name ∧
        (∃ scopes, StandsInShader shader version e scopes) ∧
        (∀ scopes, StandsInShader shader version e scopes →
          ∃ declared, select? scopes name = some declared ∧ declared.MayChange) ∧
        ∀ piece : Piece, e ∈ piece.exprs → piece.names.assigns name = true) ∧
      ∀ (piece : Piece) (name : String), piece.names.assigns name = true →
        ∃ e ∈ piece.exprs, ∃ location, e.Writes location ∧ location.writtenVar? = some name := by
  constructor
  · intro e listed location writes
    rcases Shader.exists_writtenVar?_of_writes valid listed writes with ⟨name, isName⟩
    refine ⟨name, isName, exists_standsInShader version listed, ?_, ?_⟩
    · intro scopes stands
      exact stands.exists_mayChange valid writes isName
    · intro piece within
      exact (piece.assigns_names_iff name).mpr ⟨e, within, location, writes, isName⟩
  · intro piece name assigned
    exact (piece.assigns_names_iff name).mp assigned

/-- The expression `(v)[i++] += 1.0`, which writes in its target as well. -/
def steppingWrite : Expr :=
  .assign 9 .add (.index 10 (.paren 11 (.var 12 "v")) (.unary 13 .postIncrement (.var 14 "i")))
    (.float 15 .one)

/-- The shader `void main() { vec4 v = gl_FragCoord; int i = 0; (v)[i++] += 1.0; }`. -/
def stepping : Shader :=
  ⟨.essl100, [.function ⟨0, .void, "main", [], ⟨1,
    [.decl 2 ⟨3, none, .vector .float .four, "v", some (.var 4 "gl_FragCoord")⟩,
     .decl 5 ⟨6, none, .int, "i", some (.int 7 0)⟩,
     .expr 8 steppingWrite]⟩⟩], 16⟩

/-- The assignment writes `v` and the increment in it writes `i`.  Both names select what `main`
declares, and the assignment alone is enough to find them. -/
theorem writes_are_named_stepping :
    stepping.IsValid .essl100 ∧
      (∃ scopes declared, StandsInShader stepping .essl100 steppingWrite scopes ∧
        select? scopes "v" = some declared ∧ declared.MayChange) ∧
      (Piece.expr steppingWrite).names.assigns "v" = true ∧
      ∃ e ∈ (Piece.expr steppingWrite).exprs, ∃ location, e.Writes location ∧
        location.writtenVar? = some "i" := by
  have valid : stepping.IsValid .essl100 := by decide
  have listed : steppingWrite ∈ stepping.exprs :=
    List.mem_cons_of_mem _ (List.mem_cons_of_mem _ List.mem_cons_self)
  rcases (writes_are_named valid).1 steppingWrite listed _ .assign with
    ⟨name, isName, ⟨scopes, stands⟩, selects, assigned⟩
  cases isName
  rcases selects scopes stands with ⟨declared, selected, mayChange⟩
  exact ⟨valid, ⟨scopes, declared, stands, selected, mayChange⟩,
    assigned (.expr steppingWrite) steppingWrite.self_mem_subexprs,
    (writes_are_named valid).2 (.expr steppingWrite) "i" (by decide)⟩

end Scoping
end Whittle
