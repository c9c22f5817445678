import Whittle.Proofs.Parse.Indifference

namespace Whittle
namespace Parse

/-!
# Reading expressions of different layout

Whatever an expression is made of, it is looked for behind a gap.  A reader that finds
nothing goes back to where the gap began, and there the texts differ in their layout as well.
Every nested expression stands behind a character, so the count of nesting may be smaller by
one there.
-/

variable {input input' chars chars' : List Char}

theorem alike_number (ready : Ready chars chars') :
    Alike 1 chars chars' (number chars) (number chars') := by
  unfold number
  rw [Reader.get_bind, Reader.get_bind]
  rcases stops_floatText?.blank.foundAlike ready with
    ⟨isNone, isNone'⟩ | @⟨text, left, left', isSome, isSome', relaid, shorter, shorter'⟩
  · rw [isNone, isNone']
    dsimp only
    rw [Reader.get_bind, Reader.get_bind]
    rcases stops_digits?.blank.foundAlike ready with
      ⟨isNone, isNone'⟩ | @⟨digits, left, left', isSome, isSome', relaid, shorter, shorter'⟩
    · rw [isNone, isNone']
      exact .fail rfl rfl
    · rw [isSome, isSome']
      dsimp only
      rw [Reader.set_bind, Reader.set_bind]
      split
      · exact .ok rfl rfl relaid shorter shorter'
      · exact .fail rfl rfl
  · rw [isSome, isSome']
    dsimp only
    rw [Reader.set_bind, Reader.set_bind]
    cases Binary64.ofText? text with
    | none => exact .fail rfl rfl
    | some value => exact .ok rfl rfl relaid shorter shorter'

theorem indifferent_arguments {inner inner' : Reader Expr} {limit limit' fuel fuel' : Nat}
    (ofInner : Indifferent 1 limit limit' inner inner') (enough : limit ≤ fuel)
    (enough' : limit' ≤ fuel') :
    Indifferent 0 limit limit' (arguments inner fuel) (arguments inner' fuel') := by
  refine indifferent_gap.bind fun _ => (indifferent_atToken rfl rfl).bind fun _ => .ite (.pure []) ?_
  refine (indifferent_atKeyword rfl).bind fun _ => .ite ?_ ?_
  · exact (indifferent_keyword rfl).keeps.map _
  · exact ofInner.keeps.bind fun first =>
      (Indifferent.manyBehind (indifferent_token rfl rfl) ofInner enough enough').map _

section

variable {inner inner' : Reader Expr} {limit limit' : Nat}
  (ofInner : Indifferent 1 (limit - 1) (limit' - 1) inner inner') {fuel fuel' : Nat}
  (enough : limit ≤ fuel) (enough' : limit' ≤ fuel')
include ofInner enough enough'

theorem indifferent_named : Indifferent 1 limit limit' (named inner fuel) (named inner' fuel') := by
  refine .get fun _ _ => indifferent_word.step fun name => (indifferent_atToken rfl rfl).bind fun _ =>
    .ite (.ite (.failAt _ _) ?_) (.ite (.failAt _ _) (.pure _))
  have within : limit - 1 ≤ fuel := by omega
  have within' : limit' - 1 ≤ fuel' := by omega
  exact (indifferent_token rfl rfl).keeps.bind fun _ =>
    (indifferent_arguments ofInner within within').bind fun args =>
      (indifferent_token rfl rfl).keeps.map _

theorem indifferent_unenclosed :
    Indifferent 1 limit limit' (do
        if ← atKeyword "true" then
          keyword "true"
          return Expr.bool .unnumbered true
        else if ← atKeyword "false" then
          keyword "false"
          return Expr.bool .unnumbered false
        else named inner fuel) (do
        if ← atKeyword "true" then
          keyword "true"
          return Expr.bool .unnumbered true
        else if ← atKeyword "false" then
          keyword "false"
          return Expr.bool .unnumbered false
        else named inner' fuel') := by
  refine (indifferent_atKeyword rfl).after fun _ => .ite ((indifferent_keyword rfl).map _) ?_
  refine (indifferent_atKeyword rfl).after fun _ => .ite ((indifferent_keyword rfl).map _) ?_
  exact indifferent_named ofInner enough enough'

theorem indifferent_primary :
    Indifferent 1 limit limit' (primary inner fuel) (primary inner' fuel') := by
  refine .behindGap fun chars chars' ready short short' => ?_
  have behind := fun isNumber => Alike.ite isNumber (alike_number ready)
    (indifferent_unenclosed ofInner enough enough' ready.relaid short short')
  rcases ready.exists_cons with ⟨rfl, rfl⟩ | ⟨c, tail, tail', rfl, rfl, relaid⟩
  · exact behind false
  · by_cases isParen : c = '('
    · subst isParen
      have shorter : ∀ rest : List Char, rest.length < ('(' :: rest).length := fun rest =>
        Nat.lt_succ_self rest.length
      have enclosed := ofInner.keeps.bind fun e =>
        (@indifferent_token _ _ ")" _ rfl rfl).keeps.map fun _ => Expr.paren .unnumbered e
      exact enclosed.behind (relaid (by decide)) (shorter tail) (shorter tail') short short'
    · refine (behind (c.isDigit || c == '.')).of_eq (congrFun ?_ _) (congrFun ?_ _)
      all_goals
        split
        · rename_i isCons
          exact absurd (List.cons.inj isCons).1 isParen
        · rfl

/-- A suffix is told by the characters that a gap leaves in front. -/
theorem indifferent_suffixes (e : Expr) :
    Indifferent 0 limit limit' (suffixes inner fuel e) (suffixes inner' fuel' e) := by
  refine .countdown (suffixes inner) (suffixes inner') ?_ enough enough' e
  intro fuel fuel' bound bound' within within' _ _ again e
  have ofInner : Indifferent 1 (bound - 1) (bound' - 1) inner inner' :=
    ofInner.anti (by omega) (by omega)
  rw [suffixes_succ, suffixes_succ]
  refine .startGap fun input input' chars chars' relaid ready _ _ short short' => ?_
  rcases stops_suffix?.blank.foundAlike ready with
    ⟨isNone, isNone'⟩ | @⟨suffix, left, left', isSome, isSome', relaidLeft, shorter, shorter'⟩
  · rw [isNone, isNone']
    exact .ok rfl rfl relaid (Nat.le_refl _) (Nat.le_refl _)
  · rw [isSome, isSome']
    have shorter : left.length < input.length := by omega
    have shorter' : left'.length < input'.length := by omega
    cases suffix with
    | member =>
        have behind := indifferent_word.keeps.bind fun field => again (.member .unnumbered e field)
        exact (behind.behind relaidLeft shorter shorter' short short').keeps
    | index =>
        have behind := ofInner.keeps.bind fun position =>
          (@indifferent_token _ _ "]" _ rfl rfl).keeps.bind fun _ => again (.index .unnumbered e position)
        exact (behind.behind relaidLeft shorter shorter' short short').keeps
    | step op =>
        have behind := again (.unary .unnumbered op e)
        exact (behind.behind relaidLeft shorter shorter' short short').keeps

theorem indifferent_prefixed :
    Indifferent 1 limit limit' (prefixed inner fuel) (prefixed inner' fuel') := by
  refine .countdown (fun fuel (_ : Unit) => prefixed inner fuel) (fun fuel _ => prefixed inner' fuel) ?_
    enough enough' ()
  intro fuel fuel' bound bound' within within' enough enough' again _
  have ofInner : Indifferent 1 (bound - 1) (bound' - 1) inner inner' :=
    ofInner.anti (by omega) (by omega)
  rw [prefixed, prefixed]
  refine .behindGap fun chars chars' ready short short' => ?_
  rcases stops_prefixOp?.blank.foundAlike ready with
    ⟨isNone, isNone'⟩ | @⟨op?, left, left', isSome, isSome', relaidLeft, shorter, shorter'⟩
  · rw [isNone, isNone']
    have behind := (indifferent_primary ofInner enough enough').bind fun e =>
      indifferent_suffixes ofInner enough enough' e
    exact behind ready.relaid short short'
  · rw [isSome, isSome']
    cases op? with
    | none => exact ((again ()).map fun e => e).behind relaidLeft shorter shorter' short short'
    | some op =>
        exact ((again ()).map (Expr.unary .unnumbered op)).behind relaidLeft shorter shorter' short short'

end

theorem indifferent_climb {operand operand' : Reader Expr} {limit limit' : Nat}
    (ofOperand : Indifferent 1 limit limit' operand operand') {fuel fuel' : Nat} (enough : limit ≤ fuel)
    (enough' : limit' ≤ fuel') (least : Nat) (lhs : Expr) :
    Indifferent 0 limit limit' (climb operand fuel least lhs) (climb operand' fuel' least lhs) := by
  refine .countdown (fun fuel (c : Nat × Expr) => climb operand fuel c.1 c.2)
    (fun fuel c => climb operand' fuel c.1 c.2) ?_ enough enough' (least, lhs)
  rintro fuel fuel' bound bound' within within' _ _ again ⟨least, lhs⟩
  have ofOperand : Indifferent 1 (bound - 1) (bound' - 1) operand operand' :=
    ofOperand.anti (by omega) (by omega)
  have again : ∀ least lhs, Indifferent 0 (bound - 1) (bound' - 1) (climb operand fuel least lhs)
      (climb operand' fuel' least lhs) := fun least lhs => again (least, lhs)
  dsimp only
  rw [climb, climb]
  refine .startGap fun input input' chars chars' relaid ready _ _ short short' => ?_
  rcases stops_binaryOp?.blank.foundAlike ready with
    ⟨isNone, isNone'⟩ | @⟨op, left, left', isSome, isSome', relaidLeft, shorter, shorter'⟩
  · rw [isNone, isNone']
    exact .ok rfl rfl relaid (Nat.le_refl _) (Nat.le_refl _)
  · rw [isSome, isSome']
    have shorter : left.length < input.length := by omega
    have shorter' : left'.length < input'.length := by omega
    dsimp only
    split
    · have behind := ofOperand.keeps.bind fun first => (again (op.precedence + 1) first).bind fun rhs =>
        again least (.binary .unnumbered op lhs rhs)
      exact (behind.behind relaidLeft shorter shorter' short short').keeps
    · exact .ok rfl rfl relaid (Nat.le_refl _) (Nat.le_refl _)

section

variable {inner inner' : Reader Expr} {limit limit' : Nat}
  (ofInner : Indifferent 1 (limit - 1) (limit' - 1) inner inner') {fuel fuel' : Nat}
  (enough : limit ≤ fuel) (enough' : limit' ≤ fuel')
include ofInner enough enough'

theorem indifferent_binary : Indifferent 1 limit limit' (binary inner fuel) (binary inner' fuel') :=
  (indifferent_prefixed ofInner enough enough').bind fun first =>
    indifferent_climb (indifferent_prefixed ofInner enough enough') enough enough' 0 first

theorem indifferent_ternary :
    Indifferent 1 limit limit' (ternary inner fuel) (ternary inner' fuel') := by
  refine (indifferent_binary ofInner enough enough').step fun cond =>
    (indifferent_atToken rfl rfl).bind fun isChoice => .ite ?_ (.pure cond)
  exact (indifferent_token rfl rfl).keeps.bind fun _ => ofInner.keeps.bind fun whenTrue =>
    (indifferent_token rfl rfl).keeps.bind fun _ => ofInner.keeps.map _

theorem indifferent_assignment :
    Indifferent 1 limit limit' (assignment inner fuel) (assignment inner' fuel') := by
  refine (indifferent_ternary ofInner enough enough').step fun target => .behindGap ?_
  intro chars chars' ready short short'
  rcases stops_assignOp?.blank.foundAlike ready with
    ⟨isNone, isNone'⟩ | @⟨op, left, left', isSome, isSome', relaidLeft, shorter, shorter'⟩
  · rw [isNone, isNone']
    exact .ok rfl rfl ready.relaid (Nat.le_refl _) (Nat.le_refl _)
  · rw [isSome, isSome']
    have behind := (ofInner.anti (Nat.sub_le _ 1) (Nat.sub_le _ 1)).map
      (Expr.assign .unnumbered op target)
    exact (behind.behind relaidLeft shorter shorter' short short').keeps

end

theorem indifferent_expression {limit limit' fuel fuel' : Nat} (enough : limit ≤ fuel)
    (enough' : limit' ≤ fuel') :
    Indifferent 1 limit limit' (expression fuel) (expression fuel') := by
  refine .countdown (fun fuel (_ : Unit) => expression fuel) (fun fuel _ => expression fuel) ?_
    enough enough' ()
  intro fuel fuel' bound bound' _ _ enough enough' again _
  exact indifferent_assignment (again ()) enough enough'

end Parse
end Whittle
