import Whittle.Proofs.Parse.Yields
import Whittle.Proofs.RoundTrip.Shapes
import Whittle.Proofs.Syntax.Renumbering

namespace Whittle

/-!
# Statements that are read can be written

An `else` belongs to the nearest branch, so the reader leaves none behind a statement that
ends in a branch without one.  Nothing else keeps a statement that was read from being
written and read again, as far as the expressions in it can be.
-/

namespace Parse

/-- No `else` follows. -/
def NoElse (input : List Char) : Prop :=
  ∀ ⦃next : List Char⦄, Shows input next → behindKeyword? "else" next = none

/-- Whatever statement the reader reads can be written, and where an `else` behind it would
belong to it, none follows. -/
def YieldsStmts (reader : Reader Stmt) : Prop :=
  ∀ ⦃input rest : List Char⦄ ⦃s : Stmt⦄, reader input = .ok (s, rest) →
    s.isPrintable Expr.isLegible = true ∧ (s.endsOpen = true → NoElse rest)

namespace YieldsStmts

variable {α : Type} {P : α → Prop} {reader : Reader Stmt}

theorem bind {first : Reader α} {second : α → Reader Stmt} (yields : Yields first P)
    (behind : ∀ a, P a → YieldsStmts (second a)) : YieldsStmts (first >>= second) := by
  intro input rest s isRead
  rcases Reader.bind_eq_ok_iff.mp isRead with ⟨a, between, isFirst, isSecond⟩
  exact behind a (yields isFirst) isSecond

theorem after {first : Reader α} {second : α → Reader Stmt}
    (behind : ∀ a, YieldsStmts (second a)) : YieldsStmts (first >>= second) := by
  intro input rest s isRead
  rcases Reader.bind_eq_ok_iff.mp isRead with ⟨a, between, _, isSecond⟩
  exact behind a isSecond

theorem ofYields (yields : Yields reader fun s =>
    s.isPrintable Expr.isLegible = true ∧ s.endsOpen = false) : YieldsStmts reader := by
  intro input rest s isRead
  rcases yields isRead with ⟨printable, closed⟩
  exact ⟨printable, fun isOpen => absurd (isOpen.symm.trans closed) (by decide)⟩

theorem isPrintable (yields : YieldsStmts reader) :
    Yields reader fun s => s.isPrintable Expr.isLegible = true :=
  fun _ _ _ isRead => (yields isRead).1

/-- A statement that ends like one in it. -/
theorem around {outer : Stmt → Stmt} (yields : YieldsStmts reader)
    (printable : ∀ s, s.isPrintable Expr.isLegible = true →
      (outer s).isPrintable Expr.isLegible = true)
    (ends : ∀ s, (outer s).endsOpen = s.endsOpen) :
    YieldsStmts (reader >>= fun s => pure (outer s)) := by
  intro input rest s isRead
  rcases Reader.bind_eq_ok_iff.mp isRead with ⟨inner, between, isInner, isPure⟩
  rcases Reader.pure_eq_ok_iff.mp isPure with ⟨rfl, rfl⟩
  rcases yields isInner with ⟨legible, noElse⟩
  exact ⟨printable inner legible, fun isOpen => noElse (ends inner ▸ isOpen)⟩

end YieldsStmts

theorem yields_expressionUnless (closing : String) (fuel : Nat) :
    Yields (expressionUnless closing fuel) fun e? => e?.all Expr.isLegible = true := by
  refine .after fun closed => ?_
  split
  · exact .pure rfl
  · exact (yields_expression fuel).bind fun e legible => .pure legible

theorem yields_variableRest (fuel : Nat) (qualifier : Option Qualifier) {ty : Ty} {name : String}
    (typed : ty.isPrintable = true) (named : isName name = true) :
    Yields (variableRest fuel qualifier ty name) fun var =>
      var.isPrintable Expr.isLegible = true ∧ var.qualifier = qualifier := by
  have behind : ∀ init : Option Expr, init.all Expr.isLegible = true →
      Yields (do
        token ";"
        return ⟨.unnumbered, qualifier, ty, name, init⟩ : Reader VarDecl) fun var =>
          var.isPrintable Expr.isLegible = true ∧ var.qualifier = qualifier := by
    intro init legible
    refine .after fun _ => .pure ⟨?_, rfl⟩
    rw [VarDecl.isPrintable, typed, named, legible]
    rfl
  refine .after fun isSet => ?_
  extract_lets jump
  split
  · exact .after fun _ => (yields_expression fuel).bind fun init legible =>
      .bind (P := fun init => init.all Expr.isLegible = true) (.pure legible) behind
  · exact .bind (P := fun init => init.all Expr.isLegible = true) (.pure rfl) behind

theorem yields_declStmt (fuel : Nat) :
    Yields (declStmt fuel) fun s => Stmt.isPrintableInit Expr.isLegible (some s) = true := by
  have behind : ∀ qualifier : Option Qualifier, qualifier = none ∨ qualifier = some .const →
      Yields (do
        let ty ← typeName
        let name ← identifier
        let var ← variableRest fuel qualifier ty name
        return Stmt.decl .unnumbered var) fun s =>
          Stmt.isPrintableInit Expr.isLegible (some s) = true := by
    intro qualifier isLocal
    refine yields_typeName.bind fun ty typed => yields_identifier.bind fun name named =>
      (yields_variableRest fuel qualifier typed named).bind fun var written => .pure ?_
    rw [Stmt.isPrintableInit, VarDecl.isPrintableLocal, written.1, written.2]
    rcases isLocal with rfl | rfl <;> rfl
  refine .after fun _ => .after fun isConst => ?_
  split
  · exact .after fun _ => behind _ (.inr rfl)
  · exact behind _ (.inl rfl)

theorem yields_simpleStmt (fuel : Nat) :
    Yields (simpleStmt fuel) fun s => Stmt.isPrintableInit Expr.isLegible (some s) = true :=
  .either (yields_declStmt fuel)
    ((yields_expression fuel).bind fun _ legible => .after fun _ => .pure legible)

theorem yields_loopInit (fuel : Nat) :
    Yields (loopInit fuel) fun init => Stmt.isPrintableInit Expr.isLegible init = true := by
  refine .after fun closed => ?_
  split
  · exact .after fun _ => .pure rfl
  · exact (yields_simpleStmt fuel).bind fun s written => .pure written

theorem yields_labelNumber : Yields labelNumber fun number => number.natAbs ≤ largestInt := by
  refine .after fun negative => .after fun _ => .after fun chars => ?_
  split
  · refine .after fun _ => ?_
    extract_lets value
    split
    · rename_i fits
      refine .pure ?_
      split
      · simpa using fits
      · simpa using fits
    · exact .fail _
  · exact .fail _

theorem yields_caseLabel : Yields caseLabel fun label => label.isPrintable = true := by
  have behind : ∀ label : Label, label.isPrintable = true →
      Yields (do
        token ":"
        return label) fun label => label.isPrintable = true :=
    fun label printable => .after fun _ => .pure printable
  refine .after fun _ => .after fun isDefault => ?_
  split
  · exact .after fun _ => .bind (.pure (rfl : Label.isPrintable .otherwise = true)) behind
  · exact .after fun _ => yields_labelNumber.bind fun number fits =>
      .bind (.pure (decide_eq_true fits : (Label.value number).isPrintable = true)) behind

section

variable {inner : Reader Stmt} (yields : YieldsStmts inner) (fuel : Nat)
include yields

theorem yields_stmts (closed : Reader Bool) :
    Yields (Reader.manyUntil closed inner fuel) fun stmts =>
      Stmt.isPrintableList Expr.isLegible stmts = true :=
  (Yields.manyUntil yields.isPrintable fuel).mono fun _ => Stmt.isPrintableList_iff.mpr

theorem yields_braced : Yields (braced inner fuel) fun stmts =>
    Stmt.isPrintableList Expr.isLegible stmts = true :=
  .after fun _ => (yields_stmts yields fuel _).bind fun _ printable => .after fun _ =>
    .pure printable

theorem yields_switchCase : Yields (switchCase inner fuel) fun one =>
    one.label.isPrintable = true ∧ Stmt.isPrintableList Expr.isLegible one.body = true :=
  yields_caseLabel.bind fun _ labelled => (yields_stmts yields fuel _).bind fun _ printable =>
    .pure ⟨labelled, printable⟩

/-- The `else` that a branch leaves behind is none. -/
theorem yieldsStmts_branchStmt : YieldsStmts (branchStmt inner fuel) := by
  refine .after fun _ => .after fun _ => .bind (yields_expression fuel) fun cond legible =>
    .after fun _ => ?_
  intro input rest s isRead
  rcases Reader.bind_eq_ok_iff.mp isRead with ⟨whenTrue, left, isTrue, isRead⟩
  rcases yields isTrue with ⟨printable, noElse⟩
  rcases Reader.bind_eq_ok_iff.mp isRead with ⟨_, next, isGap, isRead⟩
  have shown : Shows left next := by
    rw [gap] at isGap
    cases isBehind : afterGap .open left with
    | error stop => simp [isBehind, Except.map] at isGap
    | ok chars =>
        rw [isBehind] at isGap
        cases isGap
        exact isBehind
  rcases Reader.bind_eq_ok_iff.mp isRead with ⟨isElse, next', isAt, isRead⟩
  rw [atKeyword_eq] at isAt
  cases isAt
  split at isRead
  · rename_i isElse
    -- An `else` that follows is not one that the first branch would have taken.
    have closed : whenTrue.endsOpen = false := by
      by_contra isOpen
      rw [noElse (by simpa using isOpen) shown] at isElse
      cases isElse
    rcases Reader.bind_eq_ok_iff.mp isRead with ⟨_, _, _, isRead⟩
    let outer : Stmt → Stmt := fun whenFalse => .branch .unnumbered cond whenTrue (some whenFalse)
    have written : ∀ whenFalse : Stmt, whenFalse.isPrintable Expr.isLegible = true →
        (outer whenFalse).isPrintable Expr.isLegible = true := by
      intro whenFalse printable'
      simp [outer, Stmt.isPrintable, legible, printable, printable', closed]
    have yieldsOuter : YieldsStmts (inner >>= fun s => pure (outer s)) :=
      yields.around written fun _ => rfl
    exact yieldsOuter isRead
  · rename_i notElse
    rcases Reader.pure_eq_ok_iff.mp isRead with ⟨rfl, rfl⟩
    refine ⟨by simp [Stmt.isPrintable, legible, printable], fun _ next' shown' => ?_⟩
    rw [shown'.unique shown.self]
    simpa using notElse

theorem yieldsStmts_forStmt : YieldsStmts (forStmt inner fuel) := by
  refine .after fun _ => .after fun _ => .bind (yields_loopInit fuel) fun init isInit =>
    .bind (yields_expressionUnless _ fuel) fun cond isCond => .after fun _ =>
      .bind (yields_expressionUnless _ fuel) fun step isStep => .after fun _ => ?_
  refine yields.around (fun body printable => ?_) fun _ => rfl
  simp [Stmt.isPrintable, isInit, isCond, isStep, printable]

theorem yieldsStmts_whileStmt : YieldsStmts (whileStmt inner fuel) := by
  refine .after fun _ => .after fun _ => .bind (yields_expression fuel) fun cond legible =>
    .after fun _ => yields.around (fun body printable => ?_) fun _ => rfl
  simp [Stmt.isPrintable, legible, printable]

theorem yields_switchStmt : Yields (switchStmt inner fuel) fun s =>
    s.isPrintable Expr.isLegible = true ∧ s.endsOpen = false := by
  refine .after fun _ => .after fun _ => (yields_expression fuel).bind fun selector legible =>
    .after fun _ => .after fun _ => (Yields.manyUntil (yields_switchCase yields fuel) fuel).bind
      fun cases printable => .after fun _ => .pure ⟨?_, rfl⟩
  rw [Stmt.isPrintable, legible, Stmt.isPrintableCases_iff.mpr printable]
  rfl

omit yields in
theorem yields_returnStmt : Yields (returnStmt fuel) fun s =>
    s.isPrintable Expr.isLegible = true ∧ s.endsOpen = false :=
  .after fun _ => (yields_expressionUnless _ fuel).bind fun _ legible => .after fun _ =>
    .pure ⟨by rwa [Stmt.isPrintable], rfl⟩

omit yields in
theorem yields_wordStmt (name : String) {s : Stmt}
    (printable : s.isPrintable Expr.isLegible = true ∧ s.endsOpen = false) :
    Yields (wordStmt name s) fun s => s.isPrintable Expr.isLegible = true ∧ s.endsOpen = false :=
  .after fun _ => .after fun _ => .pure printable

theorem yieldsStmts_wordedStmt : YieldsStmts (wordedStmt inner fuel) := by
  refine .after fun isIf => ?_
  split
  · exact yieldsStmts_branchStmt yields fuel
  refine .after fun isFor => ?_
  split
  · exact yieldsStmts_forStmt yields fuel
  refine .after fun isWhile => ?_
  split
  · exact yieldsStmts_whileStmt yields fuel
  refine .after fun isSwitch => ?_
  split
  · exact .ofYields (yields_switchStmt yields fuel)
  refine .after fun isReturn => ?_
  split
  · exact .ofYields (yields_returnStmt fuel)
  refine .after fun isBreak => ?_
  split
  · exact .ofYields (yields_wordStmt _ ⟨rfl, rfl⟩)
  refine .after fun isContinue => ?_
  split
  · exact .ofYields (yields_wordStmt _ ⟨rfl, rfl⟩)
  refine .after fun isDiscard => ?_
  split
  · exact .ofYields (yields_wordStmt _ ⟨rfl, rfl⟩)
  · exact .ofYields ((yields_simpleStmt fuel).mono fun _ => Stmt.isPrintable_of_isPrintableInit)

theorem yieldsStmts_statementWith : YieldsStmts (statementWith inner fuel) := by
  refine .after fun _ => .after fun chars => ?_
  split
  · exact .ofYields ((yields_braced yields fuel).bind fun stmts printable =>
      .pure ⟨by rwa [Stmt.isPrintable], rfl⟩)
  · exact .ofYields (.after fun _ => .pure ⟨rfl, rfl⟩)
  · exact yieldsStmts_wordedStmt yields fuel

end

/-- A statement that is read can be written. -/
theorem yieldsStmts_statement (fuel : Nat) : YieldsStmts (statement fuel) := by
  induction fuel with
  | zero => exact .ofYields (.fail _)
  | succ fuel inductionHypothesis => exact yieldsStmts_statementWith inductionHypothesis _

/-! ## Declarations -/

/-- Whether the declaration has a body that can be written, or none. -/
def hasPrintableBody : Decl → Bool
  | .function f => Stmt.isPrintableList Expr.isLegible f.body.stmts
  | _ => true

end Parse

/-- Whether a parameter could have come from a text.  Its type may be `void`, as long as a name
follows. -/
def Param.isSpelled (param : Param) : Bool :=
  param.ty.isPrintable && Parse.isName param.name

/-- Whether a declaration could have come from a text, as far as its expressions could. -/
def Decl.isSpelled (fits : Expr → Bool) : Decl → Bool
  | .precision decl => decl.ty.isPrintable
  | .struct decl => Parse.isName decl.name && decl.fields.all Field.isPrintable
  | .global var => var.isPrintable fits
  | .function f =>
      f.returnTy.isPrintable && Parse.isName f.name && f.params.all Param.isSpelled &&
        Stmt.isPrintableList fits f.body.stmts

namespace Parse

theorem hasPrintableBody_of_isSpelled {decl : Decl} (spelled : decl.isSpelled Expr.isLegible = true) :
    hasPrintableBody decl = true := by
  cases decl with
  | function f =>
      rw [Decl.isSpelled, Bool.and_eq_true] at spelled
      exact spelled.2
  | precision | struct | global => rfl

theorem yields_precisionDecl :
    Yields precisionDecl fun decl => decl.isSpelled Expr.isLegible = true := by
  have behind : ∀ precision : Precision, Yields (do
      let ty ← typeName
      token ";"
      return Decl.precision ⟨.unnumbered, precision, ty⟩) fun decl =>
        decl.isSpelled Expr.isLegible = true :=
    fun _ => yields_typeName.bind fun _ typed => .after fun _ => .pure typed
  refine .after fun _ => .after fun _ => .after fun isLow => ?_
  split
  · exact .after fun _ => .after fun _ => .after behind
  refine .after fun isMedium => ?_
  split
  · exact .after fun _ => .after behind
  · exact .after fun _ => .after behind

theorem yields_structField : Yields structField fun field => field.isPrintable = true :=
  yields_typeName.bind fun _ typed => yields_identifier.bind fun _ named => .after fun _ =>
    .pure (by rw [Field.isPrintable, typed, named]; rfl)

theorem yields_structDecl (fuel : Nat) :
    Yields (structDecl fuel) fun decl => decl.isSpelled Expr.isLegible = true :=
  .after fun _ => yields_identifier.bind fun _ named => .after fun _ =>
    (Yields.manyUntil yields_structField fuel).bind fun _ printable => .after fun _ => .after fun _ =>
      .pure (by rw [Decl.isSpelled, named, List.all_eq_true.mpr printable]; rfl)

theorem yields_parameter : Yields parameter fun param => param.isSpelled = true := by
  have typed : Yields (do
      let ty ← typeName
      let name ← identifier
      return (⟨.unnumbered, ty, name⟩ : Param)) fun param => param.isSpelled = true :=
    yields_typeName.bind fun _ typed => yields_identifier.bind fun _ named =>
      .pure (by rw [Param.isSpelled, typed, named]; rfl)
  refine .after fun _ => .after fun isIn => ?_
  split
  · exact .after fun _ => typed
  · exact typed

theorem yields_parameterList (fuel : Nat) :
    Yields (parameterList fuel) fun params => params.all Param.isSpelled = true :=
  yields_parameter.bind fun _ first => (Yields.manyBehind yields_parameter fuel).bind fun _ others =>
    .pure (by rw [List.all_cons, first, List.all_eq_true.mpr others]; rfl)

theorem yields_functionRest (fuel : Nat) {returnTy : Ty} {name : String}
    (typed : returnTy.isPrintable = true) (named : isName name = true) :
    Yields (functionRest fuel returnTy name) fun decl => decl.isSpelled Expr.isLegible = true := by
  have behind : ∀ params : List Param, params.all Param.isSpelled = true → Yields (do
      token ")"
      let stmts ← braced (statement fuel) fuel
      return Decl.function ⟨.unnumbered, returnTy, name, params, ⟨.unnumbered, stmts⟩⟩) fun decl =>
        decl.isSpelled Expr.isLegible = true :=
    fun params spelled => .after fun _ => (yields_braced (yieldsStmts_statement fuel) fuel).bind
      fun _ printable => .pure (by rw [Decl.isSpelled, typed, named, spelled, printable]; rfl)
  have none : Yields (pure [] : Reader (List Param)) fun params => params.all Param.isSpelled = true :=
    .pure rfl
  refine .after fun _ => .after fun _ => .after fun isVoid => ?_
  split
  · exact .after fun _ => none.bind behind
  · exact (Yields.either (yields_parameterList fuel) none).bind behind

/-- A declaration that is read could have come from a text. -/
theorem yields_declaration (fuel : Nat) :
    Yields (declaration fuel) fun decl => decl.isSpelled Expr.isLegible = true := by
  refine .after fun _ => .after fun isPrecision => ?_
  split
  · exact yields_precisionDecl
  refine .after fun isStruct => ?_
  split
  · exact yields_structDecl fuel
  refine .after fun storage => yields_typeName.bind fun ty typed => yields_identifier.bind
    fun name named => ?_
  have behind : ∀ isFunction : Bool, Yields (do
      if isFunction then functionRest fuel ty name
      else
        let var ← variableRest fuel storage ty name
        return Decl.global var) fun decl => decl.isSpelled Expr.isLegible = true := by
    intro isFunction
    split
    · exact yields_functionRest fuel typed named
    · exact (yields_variableRest fuel storage typed named).bind fun _ printable => .pure printable.1
  extract_lets jump
  split
  · exact .after behind
  · exact .after behind

end Parse

namespace Expr

theorem isLegible_eq (e : Expr) : e.isLegible = (e.isSpelled && e.children.all isLegible) := by
  rw [Bool.eq_iff_iff, isLegible_iff, Bool.and_eq_true, List.all_eq_true]

mutual

theorem isLegible_numbered (start : NodeId) (e : Expr) :
    (e.numbered start).isLegible = e.isLegible := by
  rw [isLegible_eq, isLegible_eq]
  cases e with
  | int | float | bool | var => rfl
  | unary _ _ operand | member _ operand _ | paren _ operand =>
      simp only [numbered, isSpelled, children, List.all_cons, List.all_nil,
        isLegible_numbered _ operand]
  | binary _ _ lhs rhs | assign _ _ lhs rhs | index _ lhs rhs =>
      simp only [numbered, isSpelled, children, List.all_cons, List.all_nil,
        isLegible_numbered _ lhs, isLegible_numbered _ rhs]
  | ternary _ cond whenTrue whenFalse =>
      simp only [numbered, isSpelled, children, List.all_cons, List.all_nil,
        isLegible_numbered _ cond, isLegible_numbered _ whenTrue, isLegible_numbered _ whenFalse]
  | call _ callee args =>
      simp only [numbered, isSpelled, children, all_isLegible_numberedList _ args]

theorem all_isLegible_numberedList (start : NodeId) (es : List Expr) :
    (numberedList start es).all isLegible = es.all isLegible := by
  cases es with
  | nil => rfl
  | cons e es =>
      simp only [numberedList, List.all_cons, isLegible_numbered _ e, all_isLegible_numberedList _ es]

end

end Expr

/-- The bodies of a shader that was read can be written. -/
theorem Shader.isPrintable_body_of_parse {source : String} {shader : Shader}
    (isRead : Shader.parse source = .ok shader) {f : Function}
    (listed : .function f ∈ shader.decls) :
    Stmt.isPrintableList Expr.isLegible f.body.stmts = true := by
  have readsDecls : ∀ fuel, Parse.Yields (Parse.shader fuel) fun shader =>
      ∃ version decls, shader = Shader.ofDecls version decls ∧
        ∀ decl ∈ decls, Parse.hasPrintableBody decl = true := fun fuel =>
    .after fun _ => (Parse.Yields.manyUntil (Parse.yields_declaration fuel) fuel).bind
      fun _ spelled => .pure ⟨_, _, rfl, fun decl listed =>
        Parse.hasPrintableBody_of_isSpelled (spelled decl listed)⟩
  unfold parse at isRead
  extract_lets text at isRead
  split at isRead
  · rename_i read rest isShader
    cases isRead
    rcases readsDecls _ isShader with ⟨version, decls, rfl, printable⟩
    have alike : List.Forall₂ (Decl.Alike fun e e' => e'.isLegible = e.isLegible) decls
        (Decl.numberedList 0 decls) := by
      refine Decl.alikeList_numbered (R := Eq) (fun start e e' same => ?_) 0
        (List.forall₂_same.mpr fun decl _ => .of_refl (fun _ => rfl) decl)
      rw [same, Expr.isLegible_numbered]
    rcases exists_of_mem_right alike listed with ⟨decl, isDecl, alikeDecl⟩
    cases alikeDecl with
    | function defined =>
        exact Stmt.isPrintableList_of_alike (fun _ _ same legible => same.trans legible)
          defined.stmts (printable _ isDecl)
  · cases isRead

end Whittle
