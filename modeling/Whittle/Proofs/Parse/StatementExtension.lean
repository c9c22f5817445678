import Whittle.Proofs.Parse.Beginnings
import Whittle.Proofs.RoundTrip.Decl

namespace Whittle
namespace Parse

/-!
# Reading declarations with more text behind

A statement may look for an `else` behind it, but inside a function the closing brace is
still to come.  A declaration ends with a semicolon or a closing brace and looks no further,
so it is read alike whatever follows it.
-/

variable {input chars rest start : List Char}

section

variable {α : Type} {closed closed' : Reader Bool} {item item' : Reader α}

theorem extends_manyUntil (extendsClosed : Extends start Settled closed closed')
    (extendsItem : Extends start Settled item item') {fuel fuel' : Nat} (enough : fuel ≤ fuel') :
    Extends start Settled (Reader.manyUntil closed item fuel) (Reader.manyUntil closed' item' fuel') := by
  induction fuel generalizing fuel' with
  | zero => exact .fail _
  | succ fuel inductionHypothesis =>
      cases fuel' with
      | zero => exact absurd enough (Nat.not_succ_le_zero fuel)
      | succ fuel' =>
          exact extendsClosed.bind fun isClosed => .ite (.pure []) <| extendsItem.bind fun first =>
            (inductionHypothesis (Nat.le_of_succ_le_succ enough)).map _

end

section

variable {fuel fuel' : Nat} (enough : fuel ≤ fuel')
include enough

theorem extends_variableRest (P : List Char → Prop) (qualifier : Option Qualifier) (ty : Ty) (name : String) :
    Extends start P (variableRest fuel qualifier ty name) (variableRest fuel' qualifier ty name) := by
  refine .bind (extends_atToken rfl) fun isInit => .ite ?_ (.pure_bind ((extends_token_ending rfl P).map _))
  exact (extends_token "=").bind fun _ => (extends_expression enough).bind fun e =>
    .pure_bind ((extends_token_ending rfl P).map _)

theorem extends_declStmt (P : List Char → Prop) : Extends start P (declStmt fuel) (declStmt fuel') := by
  have behind : ∀ qualifier, Extends start P (do
        let ty ← typeName
        let name ← identifier
        let var ← variableRest fuel qualifier ty name
        return Stmt.decl .unnumbered var) (do
        let ty ← typeName
        let name ← identifier
        let var ← variableRest fuel' qualifier ty name
        return Stmt.decl .unnumbered var) := fun qualifier =>
    extends_typeName.bind fun ty => extends_identifier.bind fun name =>
      (extends_variableRest enough P qualifier ty name).map _
  exact extends_gap.bind fun _ => .bind (extends_atKeyword rfl) fun isConst =>
    .ite ((extends_keyword rfl).bind fun _ => .pure_bind (behind _)) (.pure_bind (behind _))

theorem extends_exprStmt (P : List Char → Prop) : Extends start P (exprStmt fuel) (exprStmt fuel') :=
  (extends_expression enough).bind fun _ => (extends_token_ending rfl P).map _

/-- What has been read as an expression is not read as a declaration for the text behind
it. -/
theorem extends_simpleStmt (P : List Char → Prop) : Extends start P (simpleStmt fuel) (simpleStmt fuel') := by
  have ofDecl : Extends start P (declStmt fuel) (declStmt fuel') := extends_declStmt enough P
  have ofExpr : Extends start P (exprStmt fuel) (exprStmt fuel') := extends_exprStmt enough P
  refine ofDecl.either ofExpr fun isRead holds more => ?_
  exact exists_declStmt_eq_error_of_exprStmt ((ofExpr.reads isRead holds).2 more) fuel'

theorem extends_expressionUnless {closing : String} {mark : Char} (isMark : closing.toList = [mark]) :
    Extends start Settled (expressionUnless closing fuel) (expressionUnless closing fuel') :=
  (extends_atToken isMark).bind fun _ => .ite (.pure none) ((extends_expression enough).map _)

theorem extends_loopInit : Extends start Settled (loopInit fuel) (loopInit fuel') :=
  (extends_atToken rfl).bind fun _ =>
    .ite ((extends_token ";").map _) ((extends_simpleStmt enough Settled).map _)

theorem extends_returnStmt (P : List Char → Prop) : Extends start P (returnStmt fuel) (returnStmt fuel') :=
  (extends_keyword rfl).bind fun _ => (extends_expressionUnless enough rfl).bind fun _ =>
    (extends_token_ending rfl P).map _

end

theorem minusSign_eq_seek :
    minusSign = gap >>= fun _ => Reader.seek (mark? '-') (pure false) fun _ => pure true := by
  refine bind_congr fun _ => funext fun chars => ?_
  rw [Reader.get_bind, Reader.seek]
  rcases chars with _ | ⟨c, tail⟩
  · rfl
  · by_cases isMinus : c = '-'
    · subst isMinus
      rfl
    · have absent : mark? '-' (c :: tail) = none := if_neg isMinus
      rw [absent]
      refine congrFun (?_ : _ = (pure false : Reader Bool)) _
      split
      · rename_i split
        exact (isMinus (List.cons.inj split).1).elim
      · rfl

theorem extends_minusSign : Extends start Settled minusSign minusSign := by
  rw [minusSign_eq_seek]
  exact (sees_seek (stops_mark? rfl) (ExtendsFrom.pure false).sees fun _ => .pure true).behindGap

theorem labelNumber_eq_seek :
    labelNumber = minusSign >>= fun negative => gap >>= fun _ =>
      Reader.seek digits? (Reader.fail .unexpected) fun digits =>
        if Binary64.digitsValue digits ≤ largestInt then
          pure (if negative then -Int.ofNat (Binary64.digitsValue digits)
            else Binary64.digitsValue digits)
        else Reader.fail .unexpected := by
  refine bind_congr fun negative => bind_congr fun _ => funext fun chars => ?_
  rw [Reader.get_bind, Reader.seek]
  cases digits? chars <;> rfl

theorem extends_labelNumber : Extends start Settled labelNumber labelNumber := by
  rw [labelNumber_eq_seek]
  refine extends_minusSign.bind fun negative =>
    (sees_seek stops_digits? (.fail _) fun digits => ?_).behindGap
  split
  · exact .pure _
  · exact .fail _

theorem extends_caseLabel : Extends start Settled caseLabel caseLabel :=
  extends_gap.bind fun _ => .bind (extends_atKeyword rfl) fun _ => .ite
    ((extends_keyword rfl).bind fun _ => .pure_bind ((extends_token ":").map _))
    ((extends_keyword rfl).bind fun _ => extends_labelNumber.bind fun _ =>
      .pure_bind ((extends_token ":").map _))

theorem atCaseEnd_eq_ifHead :
    atCaseEnd = gap >>= fun _ => fun input => (if input.head?.all (· == '\x7d') then pure true
      else do return (← atKeyword "case") || (← atKeyword "default") : Reader Bool) input := by
  refine bind_congr fun _ => funext fun chars => ?_
  rw [Reader.get_bind]
  refine congrFun ?_ _
  split
  · rfl
  · rfl
  · rename_i notNil noBrace
    rcases chars with _ | ⟨c, tail⟩
    · exact (notNil rfl).elim
    · refine (if_neg fun isBrace => noBrace tail ?_).symm
      rw [beq_iff_eq.mp isBrace]

theorem extends_atCaseEnd : Extends start Settled atCaseEnd atCaseEnd := by
  have ofLabel : Extends start Settled (do return (← atKeyword "case") || (← atKeyword "default"))
      (do return (← atKeyword "case") || (← atKeyword "default")) :=
    .bind (extends_atKeyword rfl) fun _ => (extends_atKeyword rfl).map _
  rw [atCaseEnd_eq_ifHead]
  exact (sees_ifHead (·.all (· == '\x7d')) (ExtendsFrom.pure true).sees ofLabel.sees).behindGap

theorem statementWith_eq_ifHead (inner : Reader Stmt) (fuel : Nat) :
    statementWith inner fuel = gap >>= fun _ => fun input =>
      (if input.head?.any (· == '\x7b') then do
          let stmts ← braced inner fuel
          return Stmt.block .unnumbered .unnumbered stmts
        else fun input => (if input.head?.any (· == ';') then do
            token ";"
            return Stmt.empty .unnumbered
          else wordedStmt inner fuel : Reader Stmt) input : Reader Stmt) input := by
  refine bind_congr fun _ => funext fun chars => ?_
  rw [Reader.get_bind]
  rcases chars with _ | ⟨c, tail⟩
  · rfl
  · by_cases isBrace : c = '\x7b'
    · subst isBrace
      rfl
    · rw [List.head?_cons, Option.any_some, beq_eq_false_iff_ne.mpr isBrace]
      by_cases isSemicolon : c = ';'
      · subst isSemicolon
        have shown : Shows (';' :: tail) (";".toList ++ tail) := shows_cons rfl (by decide)
        have reads : (do token ";"; return Stmt.empty .unnumbered : Reader Stmt) (';' :: tail) =
            .ok (.empty .unnumbered, tail) := Reader.bind_eq_of_ok shown.token_eq
        exact reads.symm
      · rw [if_neg Bool.false_ne_true, List.head?_cons, Option.any_some,
          beq_eq_false_iff_ne.mpr isSemicolon]
        refine congrFun (?_ : _ = wordedStmt inner fuel) _
        split
        · rename_i split
          exact (isBrace (List.cons.inj split).1).elim
        · rename_i split
          exact (isSemicolon (List.cons.inj split).1).elim
        · rfl

section

variable {inner inner' : Reader Stmt} (extendsInner : ∀ {start}, Extends start Settled inner inner')
  {fuel fuel' : Nat} (enough : fuel ≤ fuel')
include extendsInner enough

theorem extends_braced (P : List Char → Prop) : Extends start P (braced inner fuel) (braced inner' fuel') :=
  (extends_token "\x7b").bind fun _ =>
    (extends_manyUntil (extends_atToken rfl) extendsInner enough).bind fun _ =>
      (extends_token_ending rfl P).map _

theorem extends_branchStmt : Extends start Settled (branchStmt inner fuel) (branchStmt inner' fuel') := by
  refine .bind (extends_keyword rfl) fun _ => (extends_token "(").bind fun _ =>
    (extends_expression enough).bind fun cond => (extends_token ")").bind fun _ =>
      extendsInner.bind fun whenTrue => extends_gap.bind fun _ => .bind (extends_atKeyword rfl) fun _ => ?_
  exact .ite ((extends_keyword rfl).bind fun _ => extendsInner.map _) (.pure _)

theorem extends_forStmt : Extends start Settled (forStmt inner fuel) (forStmt inner' fuel') := by
  refine .bind (extends_keyword rfl) fun _ => (extends_token "(").bind fun _ =>
    (extends_loopInit enough).bind fun init => (extends_expressionUnless enough rfl).bind fun cond => ?_
  exact (extends_token ";").bind fun _ => (extends_expressionUnless enough rfl).bind fun step =>
    (extends_token ")").bind fun _ => extendsInner.map _

theorem extends_whileStmt : Extends start Settled (whileStmt inner fuel) (whileStmt inner' fuel') :=
  .bind (extends_keyword rfl) fun _ => (extends_token "(").bind fun _ =>
    (extends_expression enough).bind fun _ => (extends_token ")").bind fun _ => extendsInner.map _

theorem extends_switchStmt : Extends start Settled (switchStmt inner fuel) (switchStmt inner' fuel') := by
  refine .bind (extends_keyword rfl) fun _ => (extends_token "(").bind fun _ =>
    (extends_expression enough).bind fun selector => (extends_token ")").bind fun _ =>
      (extends_token "\x7b").bind fun _ => .bind ?_ fun cases => (extends_token_ending rfl _).map _
  refine extends_manyUntil (extends_atToken rfl) ?_ enough
  exact extends_caseLabel.bind fun label =>
    (extends_manyUntil extends_atCaseEnd extendsInner enough).map _

theorem extends_wordedStmt : Extends start Settled (wordedStmt inner fuel) (wordedStmt inner' fuel') := by
  have ofWord : ∀ {name : String} {s : Stmt}, isWord name = true →
      Extends start Settled (wordStmt name s) (wordStmt name s) := fun isName =>
    (extends_keyword isName).bind fun _ => (extends_token_ending rfl _).map _
  refine .bind (extends_atKeyword rfl) fun _ => .ite (extends_branchStmt extendsInner enough) ?_
  refine .bind (extends_atKeyword rfl) fun _ => .ite (extends_forStmt extendsInner enough) ?_
  refine .bind (extends_atKeyword rfl) fun _ => .ite (extends_whileStmt extendsInner enough) ?_
  refine .bind (extends_atKeyword rfl) fun _ => .ite (extends_switchStmt extendsInner enough) ?_
  refine .bind (extends_atKeyword rfl) fun _ => .ite (extends_returnStmt enough _) ?_
  refine .bind (extends_atKeyword rfl) fun _ => .ite (ofWord rfl) ?_
  refine .bind (extends_atKeyword rfl) fun _ => .ite (ofWord rfl) ?_
  exact .bind (extends_atKeyword rfl) fun _ => .ite (ofWord rfl) (extends_simpleStmt enough _)

theorem extends_statementWith :
    Extends start Settled (statementWith inner fuel) (statementWith inner' fuel') := by
  rw [statementWith_eq_ifHead, statementWith_eq_ifHead]
  refine (sees_ifHead (·.any (· == '\x7b')) ?_ (sees_ifHead (·.any (· == ';')) ?_ ?_)).behindGap
  · exact ((extends_braced extendsInner enough Settled).map
      (Stmt.block .unnumbered .unnumbered)).sees
  · exact ((extends_token_ending rfl Settled).map fun _ => Stmt.empty .unnumbered).sees
  · exact (extends_wordedStmt extendsInner enough).sees

end

theorem extends_statement {fuel fuel' : Nat} (enough : fuel ≤ fuel') :
    Extends start Settled (statement fuel) (statement fuel') := by
  induction fuel generalizing fuel' start with
  | zero => exact .fail _
  | succ fuel inductionHypothesis =>
      cases fuel' with
      | zero => exact absurd enough (Nat.not_succ_le_zero fuel)
      | succ fuel' =>
          exact extends_statementWith (inductionHypothesis (Nat.le_of_succ_le_succ enough)) enough

theorem extends_precisionDecl (P : List Char → Prop) : Extends start P precisionDecl precisionDecl := by
  have behind : ∀ precision, Extends start P (do
        let ty ← typeName
        token ";"
        return Decl.precision ⟨.unnumbered, precision, ty⟩) (do
        let ty ← typeName
        token ";"
        return Decl.precision ⟨.unnumbered, precision, ty⟩) := fun precision =>
    extends_typeName.bind fun ty => (extends_token_ending rfl P).map _
  have ofWord : ∀ {name : String} (precision), isWord name = true → _ := fun precision isName =>
    (extends_keyword isName).bind fun _ => .pure_bind (behind precision)
  exact .bind (extends_keyword rfl) fun _ => extends_gap.bind fun _ => .bind (extends_atKeyword rfl) fun _ =>
    .bind (extends_atKeyword rfl) fun _ => .ite (ofWord _ rfl) (.ite (ofWord _ rfl) (ofWord _ rfl))

theorem extends_qualifier : Extends start Settled qualifier qualifier := by
  refine extends_gap.bind fun _ => .bind (extends_atKeyword rfl) fun _ => .ite ((extends_keyword rfl).map _) ?_
  refine .bind (extends_atKeyword rfl) fun _ => .ite ((extends_keyword rfl).map _) ?_
  refine .bind (extends_atKeyword rfl) fun _ => .ite ((extends_keyword rfl).map _) ?_
  exact .bind (extends_atKeyword rfl) fun _ => .ite ((extends_keyword rfl).map _) (.pure none)

theorem extends_parameter : Extends start Settled parameter parameter := by
  have behind : Extends start Settled (do
        let ty ← typeName
        let name ← identifier
        return (⟨.unnumbered, ty, name⟩ : Param)) (do
        let ty ← typeName
        let name ← identifier
        return (⟨.unnumbered, ty, name⟩ : Param)) :=
    extends_typeName.bind fun _ => extends_identifier.map _
  exact extends_gap.bind fun _ => .bind (extends_atKeyword rfl) fun _ =>
    .ite ((extends_keyword rfl).bind fun _ => behind) behind

section

variable {fuel fuel' : Nat} (enough : fuel ≤ fuel')
include enough

theorem extends_structDecl (P : List Char → Prop) : Extends start P (structDecl fuel) (structDecl fuel') := by
  have ofField : Extends start Settled structField structField :=
    extends_typeName.bind fun _ => extends_identifier.bind fun _ => (extends_token ";").map _
  exact .bind (extends_keyword rfl) fun _ => extends_identifier.bind fun name =>
    (extends_token "\x7b").bind fun _ =>
      (extends_manyUntil (extends_atToken rfl) ofField enough).bind fun fields =>
        (extends_token "\x7d").bind fun _ => (extends_token_ending rfl P).map _

theorem extends_parameterList : Extends start BeforeParen (Reader.either (parameterList fuel) (pure []))
    (Reader.either (parameterList fuel') (pure [])) := by
  have ofList : Extends start BeforeParen (parameterList fuel) (parameterList fuel') :=
    extends_parameter.bind fun first => (extends_manyBehind extends_parameter enough).map _
  refine ofList.either ((ExtendsFrom.pure []).weaken fun _ => BeforeParen.settled) ?_
  intro input rest tail params isRead before more
  obtain ⟨-, same⟩ := Reader.pure_eq_ok_iff.mp isRead
  obtain rfl : input = rest := List.append_cancel_right same
  rcases before with ⟨behind, shown, hasEnding⟩
  exact exists_parameterList_eq_error fuel' (shown.append hasEnding.cons)

theorem extends_functionRest (P : List Char → Prop) (returnTy : Ty) (name : String) :
    Extends start P (functionRest fuel returnTy name) (functionRest fuel' returnTy name) := by
  have behind : ∀ params, ExtendsFrom start BeforeParen P (do
        token ")"
        let stmts ← braced (statement fuel) fuel
        return Decl.function ⟨.unnumbered, returnTy, name, params, ⟨.unnumbered, stmts⟩⟩) (do
        token ")"
        let stmts ← braced (statement fuel') fuel'
        return Decl.function ⟨.unnumbered, returnTy, name, params, ⟨.unnumbered, stmts⟩⟩) :=
    fun params => extends_closingParen.bind fun _ =>
      (extends_braced (extends_statement enough) enough P).map _
  refine (extends_token "(").bind fun _ => extends_gap.bind fun _ => .bind (extends_atKeyword rfl) fun _ =>
    .ite ?_ ((extends_parameterList enough).bind behind)
  exact (extends_keyword rfl).bind fun _ => .pure_bind ((behind []).weaken fun _ => BeforeParen.settled)

theorem extends_declaration (P : List Char → Prop) : Extends start P (declaration fuel) (declaration fuel') := by
  refine extends_gap.bind fun _ => .bind (extends_atKeyword rfl) fun _ =>
    .ite (extends_precisionDecl P) ?_
  refine .bind (extends_atKeyword rfl) fun _ => .ite (extends_structDecl enough P) ?_
  refine extends_qualifier.bind fun storage => extends_typeName.bind fun ty =>
    extends_identifier.bind fun name => ?_
  have behind : ∀ isFunction : Bool, Extends start P (do
        if isFunction then functionRest fuel ty name
        else
          let var ← variableRest fuel storage ty name
          return .global var) (do
        if isFunction then functionRest fuel' ty name
        else
          let var ← variableRest fuel' storage ty name
          return .global var) := fun isFunction =>
    .ite (extends_functionRest enough P ty name) ((extends_variableRest enough P storage ty name).map _)
  exact .ite (.bind (extends_atToken rfl) behind) (.pure_bind (behind false))

/-- A declaration is read with any text behind it. -/
theorem declaration_append {decl : Decl} (isRead : declaration fuel input = .ok (decl, rest)) :
    Settled input ∧ ∀ more, declaration fuel' (input ++ more) = .ok (decl, rest ++ more) :=
  (extends_declaration enough fun _ => True : Extends [] _ _ _).append isRead trivial

end

end Parse
end Whittle
