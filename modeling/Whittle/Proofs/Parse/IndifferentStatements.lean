import Whittle.Proofs.Parse.IndifferentExpressions

namespace Whittle
namespace Parse

/-!
# Reading statements and declarations of different layout

A statement is told by the word or the mark that its gap leaves in front, and so is a
declaration.  Both are put together from readers of tokens and expressions, none of which sees
the layout.
-/

variable {input input' chars chars' : List Char} {limit limit' : Nat}

section

variable {fuel fuel' : Nat} (enough : limit ≤ fuel) (enough' : limit' ≤ fuel')
include enough enough'

theorem indifferent_variableRest (qualifier : Option Qualifier) (ty : Ty) (name : String) :
    Indifferent 0 limit limit' (variableRest fuel qualifier ty name)
      (variableRest fuel' qualifier ty name) := by
  refine (indifferent_atToken rfl rfl).bind fun isInit => .ite ?_ (.pure_bind ?_)
  · exact (indifferent_token rfl rfl).keeps.bind fun _ =>
      (indifferent_expression enough enough').keeps.bind fun e =>
        .pure_bind ((indifferent_token rfl rfl).keeps.map _)
  · exact (indifferent_token rfl rfl).keeps.map _

theorem indifferent_declStmt : Indifferent 1 limit limit' (declStmt fuel) (declStmt fuel') := by
  have behind : ∀ qualifier, Indifferent 1 limit limit' (do
        let ty ← typeName
        let name ← identifier
        let var ← variableRest fuel qualifier ty name
        return Stmt.decl .unnumbered var) (do
        let ty ← typeName
        let name ← identifier
        let var ← variableRest fuel' qualifier ty name
        return Stmt.decl .unnumbered var) := fun qualifier =>
    indifferent_typeName.bind fun ty => indifferent_identifier.keeps.bind fun name =>
      (indifferent_variableRest enough enough' qualifier ty name).map _
  exact indifferent_gap.after fun _ => (indifferent_atKeyword rfl).after fun isConst =>
    .ite ((indifferent_keyword rfl).bind fun _ => .pure_bind (behind _).keeps) (.pure_bind (behind _))

theorem indifferent_exprStmt : Indifferent 1 limit limit' (exprStmt fuel) (exprStmt fuel') :=
  (indifferent_expression enough enough').bind fun _ => (indifferent_token rfl rfl).keeps.map _

theorem indifferent_simpleStmt : Indifferent 1 limit limit' (simpleStmt fuel) (simpleStmt fuel') :=
  (indifferent_declStmt enough enough').either (indifferent_exprStmt enough enough')

theorem indifferent_expressionUnless {closing : String} {mark : Char} (isMark : closing.toList = [mark])
    (solid : Text.isTokenBlank mark = false) :
    Indifferent 0 limit limit' (expressionUnless closing fuel) (expressionUnless closing fuel') :=
  (indifferent_atToken isMark solid).bind fun _ =>
    .ite (.pure none) ((indifferent_expression enough enough').keeps.map _)

theorem indifferent_loopInit : Indifferent 1 limit limit' (loopInit fuel) (loopInit fuel') :=
  (indifferent_atToken rfl rfl).after fun _ =>
    .ite ((indifferent_token rfl rfl).map _) ((indifferent_simpleStmt enough enough').map _)

theorem indifferent_returnStmt : Indifferent 1 limit limit' (returnStmt fuel) (returnStmt fuel') :=
  (indifferent_keyword rfl).bind fun _ =>
    (indifferent_expressionUnless enough enough' rfl rfl).bind fun _ =>
      (indifferent_token rfl rfl).keeps.map _

end

theorem indifferent_minusSign : Indifferent 0 limit limit' minusSign minusSign := by
  refine .behindGap fun chars chars' ready short short' => ?_
  have noSign : Indifferent 0 limit limit' (pure false : Reader Bool) (pure false) := .pure false
  rcases ready.exists_cons with ⟨rfl, rfl⟩ | ⟨c, tail, tail', rfl, rfl, relaid⟩
  · exact noSign ready.relaid short short'
  · by_cases isMinus : c = '-'
    · subst isMinus
      exact .ok rfl rfl (relaid (by decide)) (Nat.le_succ _) (Nat.le_succ _)
    · refine (noSign ready.relaid short short').of_eq (congrFun ?_ _) (congrFun ?_ _)
      all_goals
        split
        · rename_i isCons
          exact absurd (List.cons.inj isCons).1 isMinus
        · rfl

theorem indifferent_labelNumber : Indifferent 1 limit limit' labelNumber labelNumber := by
  refine indifferent_minusSign.after fun negative => .behindGap ?_
  intro chars chars' ready short short'
  rcases stops_digits?.blank.foundAlike ready with
    ⟨isNone, isNone'⟩ | @⟨digits, left, left', isSome, isSome', relaid, shorter, shorter'⟩
  · rw [isNone, isNone']
    exact .fail rfl rfl
  · rw [isSome, isSome']
    dsimp only
    rw [Reader.set_bind, Reader.set_bind]
    split
    · exact .ok rfl rfl relaid shorter shorter'
    · exact .fail rfl rfl

theorem indifferent_caseLabel : Indifferent 1 limit limit' caseLabel caseLabel :=
  indifferent_gap.after fun _ => (indifferent_atKeyword rfl).after fun _ => .ite
    ((indifferent_keyword rfl).bind fun _ => .pure_bind ((indifferent_token rfl rfl).keeps.map _))
    ((indifferent_keyword rfl).bind fun _ => indifferent_labelNumber.keeps.bind fun _ =>
      .pure_bind ((indifferent_token rfl rfl).keeps.map _))

theorem indifferent_atCaseEnd : Indifferent 0 limit limit' atCaseEnd atCaseEnd := by
  refine .behindGap fun chars chars' ready short short' => ?_
  have ends : Indifferent 0 limit limit' (pure true : Reader Bool) (pure true) := .pure true
  have ofLabel : Indifferent 0 limit limit' (do return (← atKeyword "case") || (← atKeyword "default"))
      (do return (← atKeyword "case") || (← atKeyword "default")) :=
    (indifferent_atKeyword rfl).bind fun _ => (indifferent_atKeyword rfl).map _
  rcases ready.exists_cons with ⟨rfl, rfl⟩ | ⟨c, tail, tail', rfl, rfl, _⟩
  · exact ends ready.relaid short short'
  · by_cases isBrace : c = '\x7d'
    · subst isBrace
      exact ends ready.relaid short short'
    · refine (ofLabel ready.relaid short short').of_eq (congrFun ?_ _) (congrFun ?_ _)
      all_goals
        split
        · rename_i isNil
          cases isNil
        · rename_i isCons
          exact absurd (List.cons.inj isCons).1 isBrace
        · rfl

section

variable {inner inner' : Reader Stmt} (ofInner : Indifferent 1 (limit - 1) (limit' - 1) inner inner')
  {fuel fuel' : Nat} (enough : limit ≤ fuel) (enough' : limit' ≤ fuel')
include ofInner enough enough'

theorem indifferent_braced : Indifferent 1 limit limit' (braced inner fuel) (braced inner' fuel') :=
  (indifferent_token rfl rfl).step fun _ =>
    (Indifferent.manyUntil (indifferent_atToken rfl rfl) ofInner (by omega) (by omega)).bind fun _ =>
      (indifferent_token rfl rfl).keeps.map _

theorem indifferent_branchStmt :
    Indifferent 1 limit limit' (branchStmt inner fuel) (branchStmt inner' fuel') := by
  refine (indifferent_keyword rfl).step fun _ => (indifferent_token rfl rfl).keeps.bind fun _ =>
    (indifferent_expression (by omega) (by omega)).keeps.bind fun cond =>
      (indifferent_token rfl rfl).keeps.bind fun _ => ofInner.keeps.bind fun whenTrue => ?_
  exact indifferent_gap.bind fun _ => (indifferent_atKeyword rfl).bind fun _ =>
    .ite ((indifferent_keyword rfl).keeps.bind fun _ => ofInner.keeps.map _) (.pure _)

theorem indifferent_forStmt :
    Indifferent 1 limit limit' (forStmt inner fuel) (forStmt inner' fuel') := by
  have within : limit - 1 ≤ fuel := by omega
  have within' : limit' - 1 ≤ fuel' := by omega
  refine (indifferent_keyword rfl).step fun _ => (indifferent_token rfl rfl).keeps.bind fun _ =>
    (indifferent_loopInit within within').keeps.bind fun init =>
      (indifferent_expressionUnless within within' rfl rfl).bind fun cond => ?_
  exact (indifferent_token rfl rfl).keeps.bind fun _ =>
    (indifferent_expressionUnless within within' rfl rfl).bind fun step =>
      (indifferent_token rfl rfl).keeps.bind fun _ => ofInner.keeps.map _

theorem indifferent_whileStmt :
    Indifferent 1 limit limit' (whileStmt inner fuel) (whileStmt inner' fuel') :=
  (indifferent_keyword rfl).step fun _ => (indifferent_token rfl rfl).keeps.bind fun _ =>
    (indifferent_expression (by omega) (by omega)).keeps.bind fun _ =>
      (indifferent_token rfl rfl).keeps.bind fun _ => ofInner.keeps.map _

theorem indifferent_switchCase :
    Indifferent 1 limit limit' (switchCase inner fuel) (switchCase inner' fuel') :=
  indifferent_caseLabel.step fun label =>
    (Indifferent.manyUntil indifferent_atCaseEnd ofInner (by omega) (by omega)).map _

theorem indifferent_switchStmt :
    Indifferent 1 limit limit' (switchStmt inner fuel) (switchStmt inner' fuel') := by
  have ofCase := indifferent_switchCase ofInner enough enough'
  refine (indifferent_keyword rfl).bind fun _ => (indifferent_token rfl rfl).keeps.bind fun _ =>
    (indifferent_expression enough enough').keeps.bind fun selector =>
      (indifferent_token rfl rfl).keeps.bind fun _ => (indifferent_token rfl rfl).keeps.bind fun _ => ?_
  exact (Indifferent.manyUntil (indifferent_atToken rfl rfl) ofCase enough enough').bind fun cases =>
    (indifferent_token rfl rfl).keeps.map _

theorem indifferent_wordedStmt :
    Indifferent 1 limit limit' (wordedStmt inner fuel) (wordedStmt inner' fuel') := by
  have ofWord : ∀ {name : String} {s : Stmt}, isWord name = true →
      Indifferent 1 limit limit' (wordStmt name s) (wordStmt name s) := fun isName =>
    (indifferent_keyword isName).bind fun _ => (indifferent_token rfl rfl).keeps.map _
  refine (indifferent_atKeyword rfl).after fun _ =>
    .ite (indifferent_branchStmt ofInner enough enough') ?_
  refine (indifferent_atKeyword rfl).after fun _ => .ite (indifferent_forStmt ofInner enough enough') ?_
  refine (indifferent_atKeyword rfl).after fun _ =>
    .ite (indifferent_whileStmt ofInner enough enough') ?_
  refine (indifferent_atKeyword rfl).after fun _ =>
    .ite (indifferent_switchStmt ofInner enough enough') ?_
  refine (indifferent_atKeyword rfl).after fun _ => .ite (indifferent_returnStmt enough enough') ?_
  refine (indifferent_atKeyword rfl).after fun _ => .ite (ofWord rfl) ?_
  refine (indifferent_atKeyword rfl).after fun _ => .ite (ofWord rfl) ?_
  exact (indifferent_atKeyword rfl).after fun _ => .ite (ofWord rfl)
    (indifferent_simpleStmt enough enough')

theorem indifferent_statementWith :
    Indifferent 1 limit limit' (statementWith inner fuel) (statementWith inner' fuel') := by
  refine .behindGap fun chars chars' ready short short' => ?_
  have ofWord := indifferent_wordedStmt ofInner enough enough' ready.relaid short short'
  have ofBlock := (indifferent_braced ofInner enough enough').map (Stmt.block .unnumbered .unnumbered)
    ready.relaid short short'
  rcases ready.exists_cons with ⟨rfl, rfl⟩ | ⟨c, tail, tail', rfl, rfl, relaid⟩
  · exact ofWord
  · by_cases isBrace : c = '\x7b'
    · subst isBrace
      exact ofBlock
    by_cases isSemicolon : c = ';'
    · subst isSemicolon
      exact .ok rfl rfl (relaid (by decide)) (Nat.le_refl _) (Nat.le_refl _)
    · refine ofWord.of_eq (congrFun ?_ _) (congrFun ?_ _)
      all_goals
        split
        · rename_i isCons
          exact absurd (List.cons.inj isCons).1 isBrace
        · rename_i isCons
          exact absurd (List.cons.inj isCons).1 isSemicolon
        · rfl

end

theorem indifferent_statement {fuel fuel' : Nat} (enough : limit ≤ fuel) (enough' : limit' ≤ fuel') :
    Indifferent 1 limit limit' (statement fuel) (statement fuel') := by
  refine .countdown (fun fuel (_ : Unit) => statement fuel) (fun fuel _ => statement fuel)
    ?_ enough enough' ()
  intro fuel fuel' bound bound' _ _ enough enough' again _
  exact indifferent_statementWith (again ()) enough enough'

theorem indifferent_precisionDecl : Indifferent 1 limit limit' precisionDecl precisionDecl := by
  have behind : ∀ precision, Indifferent 0 limit limit' (do
        let ty ← typeName
        token ";"
        return Decl.precision ⟨.unnumbered, precision, ty⟩) (do
        let ty ← typeName
        token ";"
        return Decl.precision ⟨.unnumbered, precision, ty⟩) := fun precision =>
    indifferent_typeName.keeps.bind fun ty => (indifferent_token rfl rfl).keeps.map _
  have ofWord : ∀ {name : String} (precision), isWord name = true → _ := fun precision isName =>
    (indifferent_keyword isName).keeps.bind fun _ => .pure_bind (behind precision)
  exact (indifferent_keyword rfl).bind fun _ => indifferent_gap.bind fun _ =>
    (indifferent_atKeyword rfl).bind fun _ => (indifferent_atKeyword rfl).bind fun _ =>
      .ite (ofWord _ rfl) (.ite (ofWord _ rfl) (ofWord _ rfl))

theorem indifferent_qualifier : Indifferent 0 limit limit' qualifier qualifier := by
  have ofWord : ∀ {name : String} (qualifier : Qualifier), isWord name = true →
      Indifferent 0 limit limit' (do keyword name; return some qualifier)
        (do keyword name; return some qualifier) :=
    fun _ isName => (indifferent_keyword isName).keeps.map _
  refine indifferent_gap.bind fun _ => (indifferent_atKeyword rfl).bind fun _ => .ite (ofWord _ rfl) ?_
  refine (indifferent_atKeyword rfl).bind fun _ => .ite (ofWord _ rfl) ?_
  refine (indifferent_atKeyword rfl).bind fun _ => .ite (ofWord _ rfl) ?_
  exact (indifferent_atKeyword rfl).bind fun _ => .ite (ofWord _ rfl) (.pure none)

theorem indifferent_parameter : Indifferent 1 limit limit' parameter parameter := by
  have behind : Indifferent 1 limit limit' (do
        let ty ← typeName
        let name ← identifier
        return (⟨.unnumbered, ty, name⟩ : Param)) (do
        let ty ← typeName
        let name ← identifier
        return (⟨.unnumbered, ty, name⟩ : Param)) :=
    indifferent_typeName.bind fun _ => indifferent_identifier.keeps.map _
  exact indifferent_gap.after fun _ => (indifferent_atKeyword rfl).after fun _ =>
    .ite ((indifferent_keyword rfl).bind fun _ => behind.keeps) behind

theorem indifferent_structField : Indifferent 1 limit limit' structField structField :=
  indifferent_typeName.bind fun _ => indifferent_identifier.keeps.bind fun _ =>
    (indifferent_token rfl rfl).keeps.map _

section

variable {fuel fuel' : Nat} (enough : limit ≤ fuel) (enough' : limit' ≤ fuel')
include enough enough'

theorem indifferent_structDecl : Indifferent 1 limit limit' (structDecl fuel) (structDecl fuel') :=
  (indifferent_keyword rfl).bind fun _ => indifferent_identifier.keeps.bind fun _ =>
    (indifferent_token rfl rfl).keeps.bind fun _ =>
      (Indifferent.manyUntil (indifferent_atToken rfl rfl) indifferent_structField enough enough').bind
        fun _ => (indifferent_token rfl rfl).keeps.bind fun _ => (indifferent_token rfl rfl).keeps.map _

theorem indifferent_parameterList :
    Indifferent 1 limit limit' (parameterList fuel) (parameterList fuel') :=
  indifferent_parameter.bind fun _ =>
    (Indifferent.manyBehind (indifferent_token rfl rfl) indifferent_parameter enough enough').map _

theorem indifferent_functionRest (returnTy : Ty) (name : String) :
    Indifferent 1 limit limit' (functionRest fuel returnTy name) (functionRest fuel' returnTy name) := by
  have ofBody : Indifferent 1 limit limit' (braced (statement fuel) fuel)
      (braced (statement fuel') fuel') :=
    indifferent_braced (indifferent_statement (by omega) (by omega)) enough enough'
  have behind : ∀ params, Indifferent 0 limit limit' (do
        token ")"
        let stmts ← braced (statement fuel) fuel
        return Decl.function ⟨.unnumbered, returnTy, name, params, ⟨.unnumbered, stmts⟩⟩) (do
        token ")"
        let stmts ← braced (statement fuel') fuel'
        return Decl.function ⟨.unnumbered, returnTy, name, params, ⟨.unnumbered, stmts⟩⟩) :=
    fun params => (indifferent_token rfl rfl).keeps.bind fun _ => ofBody.keeps.map _
  have ofParams := (indifferent_parameterList enough enough').keeps.either (.pure [])
  exact (indifferent_token rfl rfl).bind fun _ => indifferent_gap.bind fun _ =>
    (indifferent_atKeyword rfl).bind fun _ =>
      .ite ((indifferent_keyword rfl).keeps.bind fun _ => .pure_bind (behind _)) (ofParams.bind behind)

theorem indifferent_declaration : Indifferent 1 limit limit' (declaration fuel) (declaration fuel') := by
  refine indifferent_gap.after fun _ => (indifferent_atKeyword rfl).after fun _ =>
    .ite indifferent_precisionDecl ?_
  refine (indifferent_atKeyword rfl).after fun _ => .ite (indifferent_structDecl enough enough') ?_
  refine indifferent_qualifier.after fun storage => indifferent_typeName.bind fun ty =>
    indifferent_identifier.keeps.bind fun name => ?_
  have behind : ∀ isFunction : Bool, Indifferent 0 limit limit' (do
        if isFunction then functionRest fuel ty name
        else
          let var ← variableRest fuel storage ty name
          return .global var) (do
        if isFunction then functionRest fuel' ty name
        else
          let var ← variableRest fuel' storage ty name
          return .global var) := fun isFunction =>
    .ite (indifferent_functionRest enough enough' ty name).keeps
      ((indifferent_variableRest enough enough' storage ty name).map _)
  exact .ite ((indifferent_atToken rfl rfl).bind behind) (.pure_bind (behind false))

end

theorem indifferent_atEnd : Indifferent 0 limit limit' atEnd atEnd := by
  refine .behindGap fun chars chars' ready short short' => ?_
  have goesOn : Indifferent 0 limit limit' (pure false : Reader Bool) (pure false) := .pure false
  rcases ready.exists_cons with ⟨rfl, rfl⟩ | ⟨c, tail, tail', rfl, rfl, _⟩
  · exact .ok rfl rfl ready.relaid (Nat.le_refl _) (Nat.le_refl _)
  · by_cases isHash : c = '#'
    · subst isHash
      exact .fail rfl rfl
    · refine (goesOn ready.relaid short short').of_eq (congrFun ?_ _) (congrFun ?_ _)
      all_goals
        split
        · rename_i isNil
          cases isNil
        · rename_i isCons
          exact absurd (List.cons.inj isCons).1 isHash
        · rfl

end Parse
end Whittle
