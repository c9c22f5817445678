import Whittle.Proofs.Identifiers.NodeIds
import Whittle.Proofs.Syntax.Inside

namespace Whittle

/-!
# Identifiers that an edit drops and adds

An edit takes some identifiers out of a shader and puts others in.  Which ones
is a matter of the changed node alone, and is counted: every identifier stands
in the tree as often as before, less often by what is dropped, more often by
what is added.  A numbered shader stays numbered if what is added was dropped or
is new.
-/

/-- The identifiers `after` are those `before`, without those `dropped` and with
those `added`, each counted as often as it stands there. -/
def Exchange (before after dropped added : List NodeId) : Prop :=
  ∀ id, after.count id + dropped.count id = before.count id + added.count id

theorem Exchange.whole (before after : List NodeId) : Exchange before after before after :=
  fun _ => Nat.add_comm _ _

/-- What is exchanged in a part is exchanged in the whole. -/
theorem Exchange.trans {before after dropped added dropped' added' : List NodeId}
    (outer : Exchange before after dropped added)
    (inner : Exchange dropped added dropped' added') : Exchange before after dropped' added' := by
  intro id
  have := outer id
  have := inner id
  omega

theorem Exchange.around {before after dropped added : List NodeId} (front behind : List NodeId)
    (inner : Exchange before after dropped added) :
    Exchange (front ++ (before ++ behind)) (front ++ (after ++ behind)) dropped added := by
  intro id
  have := inner id
  simp only [List.count_append]
  omega

theorem Exchange.behind {before after dropped added : List NodeId} (front : List NodeId)
    (inner : Exchange before after dropped added) :
    Exchange (front ++ before) (front ++ after) dropped added := by
  simpa only [List.append_nil] using inner.around front []

theorem Exchange.cons {before after dropped added : List NodeId} (id : NodeId)
    (inner : Exchange before after dropped added) :
    Exchange (id :: before) (id :: after) dropped added :=
  inner.behind [id]

theorem Exchange.before {before after dropped added : List NodeId} (behind : List NodeId)
    (inner : Exchange before after dropped added) :
    Exchange (before ++ behind) (after ++ behind) dropped added :=
  inner.around [] behind

/-- The changed part accounts for all identifiers that a change inside an
expression exchanges. -/
theorem Expr.Inside.exchange {R : Expr → Expr → Prop} {e e' : Expr} (differ : Inside R e e') :
    ∃ part part', R part part' ∧ part ∈ e.subexprs ∧
      Exchange e.ids e'.ids part.ids part'.ids := by
  induction differ with
  | @here e e' changed =>
      exact ⟨e, e', changed, e.self_mem_subexprs, .whole e.ids e'.ids⟩
  | unary _ inductionHypothesis | memberBase _ inductionHypothesis
  | paren _ inductionHypothesis =>
      rcases inductionHypothesis with ⟨part, part', changed, listed, exchange⟩
      exact ⟨part, part', changed, List.mem_cons_of_mem _ listed, exchange.cons _⟩
  | binaryLeft _ inductionHypothesis | assignTarget _ inductionHypothesis
  | indexBase _ inductionHypothesis =>
      rcases inductionHypothesis with ⟨part, part', changed, listed, exchange⟩
      exact ⟨part, part', changed, List.mem_cons_of_mem _ (List.mem_append_left _ listed),
        (exchange.before _).cons _⟩
  | binaryRight _ inductionHypothesis | assignValue _ inductionHypothesis
  | indexPosition _ inductionHypothesis =>
      rcases inductionHypothesis with ⟨part, part', changed, listed, exchange⟩
      exact ⟨part, part', changed, List.mem_cons_of_mem _ (List.mem_append_right _ listed),
        (exchange.behind _).cons _⟩
  | ternaryCond _ inductionHypothesis =>
      rcases inductionHypothesis with ⟨part, part', changed, listed, exchange⟩
      exact ⟨part, part', changed,
        List.mem_cons_of_mem _ (List.mem_append_left _ (List.mem_append_left _ listed)),
        (exchange.before _).cons _⟩
  | ternaryTrue _ inductionHypothesis =>
      rcases inductionHypothesis with ⟨part, part', changed, listed, exchange⟩
      exact ⟨part, part', changed,
        List.mem_cons_of_mem _ (List.mem_append_left _ (List.mem_append_right _ listed)),
        (exchange.around _ _).cons _⟩
  | ternaryFalse _ inductionHypothesis =>
      rcases inductionHypothesis with ⟨part, part', changed, listed, exchange⟩
      exact ⟨part, part', changed, List.mem_cons_of_mem _ (List.mem_append_right _ listed),
        ((exchange.behind _).behind _).cons _⟩
  | @callArg id callee before arg arg' behind _ inductionHypothesis =>
      rcases inductionHypothesis with ⟨part, part', changed, listed, exchange⟩
      refine ⟨part, part', changed, List.mem_cons_of_mem _ ?_, ?_⟩
      · rw [subexprsOfList_eq_flatMap]
        exact List.mem_flatMap.mpr ⟨arg, List.mem_append_right _ List.mem_cons_self, listed⟩
      · rw [ids, ids, idsOfList_append, idsOfList_append]
        exact (exchange.around _ _).cons id

/-- The changed expression accounts for all identifiers that a change of an
expression in a statement exchanges. -/
theorem Stmt.AtExpr.exchange {R : Expr → Expr → Prop} {s s' : Stmt} (differ : AtExpr R s s') :
    ∃ root root', R root root' ∧ root ∈ s.roots ∧ Exchange s.ids s'.ids root.ids root'.ids := by
  cases differ with
  | @declInit _ _ _ _ _ init init' changed =>
      exact ⟨init, init', changed, List.mem_cons_self, ((Exchange.whole _ _).cons _).cons _⟩
  | @expr _ e e' changed => exact ⟨e, e', changed, List.mem_cons_self, (Exchange.whole _ _).cons _⟩
  | @branchCond _ cond cond' _ _ changed =>
      exact ⟨cond, cond', changed, List.mem_cons_self, ((Exchange.whole _ _).before _).cons _⟩
  | @forCond _ init cond cond' step body changed =>
      refine ⟨cond, cond', changed, ?_, ((Exchange.whole _ _).around _ _).cons _⟩
      simp only [roots, Option.toList_some, List.mem_append, List.mem_singleton, true_or, or_true]
  | @forStep _ init cond step step' body changed =>
      refine ⟨step, step', changed, ?_, (((Exchange.whole _ _).around _ _).behind _).cons _⟩
      simp only [roots, Option.toList_some, List.mem_append, List.mem_singleton, true_or, or_true]
  | @whileCond _ cond cond' _ changed =>
      exact ⟨cond, cond', changed, List.mem_cons_self, ((Exchange.whole _ _).before _).cons _⟩
  | @selector _ selector selector' _ changed =>
      exact ⟨selector, selector', changed, List.mem_cons_self,
        ((Exchange.whole _ _).before _).cons _⟩
  | @retValue _ value value' changed =>
      exact ⟨value, value', changed, List.mem_cons_self, (Exchange.whole _ _).cons _⟩

/-- The changed list accounts for all identifiers that a change of a list in a
statement exchanges. -/
theorem Stmt.AtList.exchange {R : List Stmt → List Stmt → Prop} {s s' : Stmt}
    (differ : AtList R s s') :
    ∃ stmts stmts', R stmts stmts' ∧ (∀ member ∈ stmts, member ∈ s.substmts) ∧
      Exchange s.ids s'.ids (idsOfList stmts) (idsOfList stmts') := by
  cases differ with
  | @block _ _ stmts stmts' changed =>
      refine ⟨stmts, stmts', changed, fun member listed => List.mem_cons_of_mem _ ?_,
        ((Exchange.whole _ _).cons _).cons _⟩
      rw [substmtsOfList_eq_flatMap]
      exact List.mem_flatMap.mpr ⟨member, listed, member.self_mem_substmts⟩
  | @case _ _ casesBefore caseId label body body' casesBehind changed =>
      refine ⟨body, body', changed, fun member listed => List.mem_cons_of_mem _ ?_, ?_⟩
      · rw [substmtsOfCases_eq_flatMap]
        exact List.mem_flatMap.mpr ⟨.mk caseId label body,
          List.mem_append_right _ List.mem_cons_self,
          List.mem_flatMap.mpr ⟨member, listed, member.self_mem_substmts⟩⟩
      · rw [ids, ids, idsOfCases_append, idsOfCases_append]
        exact ((((Exchange.whole _ _).before _).cons _).behind _ |>.behind _).cons _

/-- What a change within a statement does is what it does where it happens.
The statements and expressions of that place are among those of the whole. -/
theorem Stmt.Inside.exchange {R : Stmt → Stmt → Prop} {s s' : Stmt} (differ : Inside R s s') :
    ∃ part part', R part part' ∧ (∀ t ∈ part.substmts, t ∈ s.substmts) ∧
      (∀ e ∈ part.roots, e ∈ s.roots) ∧
      Exchange s.ids s'.ids part.ids part'.ids := by
  induction differ with
  | @here s s' changed =>
      exact ⟨s, s', changed, fun _ listed => listed, fun _ listed => listed,
        .whole s.ids s'.ids⟩
  | @block id scope before s s' behind _ inductionHypothesis =>
      rcases inductionHypothesis with ⟨part, part', changed, listed, roots, exchange⟩
      have member : s ∈ before ++ s :: behind := List.mem_append_right _ List.mem_cons_self
      refine ⟨part, part', changed, fun t within => List.mem_cons_of_mem _ ?_,
        fun e root => ?_, ?_⟩
      · rw [substmtsOfList_eq_flatMap]
        exact List.mem_flatMap.mpr ⟨s, member, listed t within⟩
      · rw [Stmt.roots, rootsOfList_eq_flatMap]
        exact List.mem_flatMap.mpr ⟨s, member, roots e root⟩
      · rw [ids, ids, idsOfList_append, idsOfList_append]
        exact ((exchange.around _ _).cons _).cons _
  | branchTrue _ inductionHypothesis =>
      rcases inductionHypothesis with ⟨part, part', changed, listed, roots, exchange⟩
      exact ⟨part, part', changed,
        fun t within => List.mem_cons_of_mem _ (List.mem_append_left _ (listed t within)),
        fun e root => List.mem_cons_of_mem _ (List.mem_append_left _ (roots e root)),
        (exchange.around _ _).cons _⟩
  | branchFalse _ inductionHypothesis =>
      rcases inductionHypothesis with ⟨part, part', changed, listed, roots, exchange⟩
      exact ⟨part, part', changed,
        fun t within => List.mem_cons_of_mem _ (List.mem_append_right _ (listed t within)),
        fun e root => List.mem_cons_of_mem _ (List.mem_append_right _ (roots e root)),
        ((exchange.behind _).behind _).cons _⟩
  | forInit _ inductionHypothesis =>
      rcases inductionHypothesis with ⟨part, part', changed, listed, roots, exchange⟩
      refine ⟨part, part', changed,
        fun t within => List.mem_cons_of_mem _ (List.mem_append_left _ (listed t within)),
        fun e root => ?_, (exchange.before _).cons _⟩
      exact List.mem_append_left _ (List.mem_append_left _ (List.mem_append_left _ (roots e root)))
  | forBody _ inductionHypothesis =>
      rcases inductionHypothesis with ⟨part, part', changed, listed, roots, exchange⟩
      exact ⟨part, part', changed,
        fun t within => List.mem_cons_of_mem _ (List.mem_append_right _ (listed t within)),
        fun e root => List.mem_append_right _ (roots e root),
        (((exchange.behind _).behind _).behind _).cons _⟩
  | whileBody _ inductionHypothesis =>
      rcases inductionHypothesis with ⟨part, part', changed, listed, roots, exchange⟩
      exact ⟨part, part', changed, fun t within => List.mem_cons_of_mem _ (listed t within),
        fun e root => List.mem_cons_of_mem _ (roots e root), (exchange.behind _).cons _⟩
  | @case id selector casesBefore caseId label before s s' behind casesBehind _
      inductionHypothesis =>
      rcases inductionHypothesis with ⟨part, part', changed, listed, roots, exchange⟩
      have member : s ∈ before ++ s :: behind := List.mem_append_right _ List.mem_cons_self
      have inCase : Case.mk caseId label (before ++ s :: behind) ∈
          casesBefore ++ .mk caseId label (before ++ s :: behind) :: casesBehind :=
        List.mem_append_right _ List.mem_cons_self
      refine ⟨part, part', changed, fun t within => List.mem_cons_of_mem _ ?_,
        fun e root => List.mem_cons_of_mem _ ?_, ?_⟩
      · rw [substmtsOfCases_eq_flatMap]
        exact List.mem_flatMap.mpr ⟨_, inCase, List.mem_flatMap.mpr ⟨s, member, listed t within⟩⟩
      · rw [rootsOfCases_eq_flatMap]
        exact List.mem_flatMap.mpr ⟨_, inCase, List.mem_flatMap.mpr ⟨s, member, roots e root⟩⟩
      · rw [ids, ids, idsOfCases_append, idsOfCases_append, idsOfCases, idsOfCases,
          idsOfList_append, idsOfList_append]
        exact (((((exchange.around _ _).before _).cons _).behind _).behind _).cons _

/-- A change of one member of a list does what it does to the member. -/
theorem Stmt.AtMember.exchange {R : Stmt → Stmt → Prop} {stmts stmts' : List Stmt}
    (differ : AtMember R stmts stmts') :
    ∃ s s', R s s' ∧ s ∈ stmts ∧
      Exchange (idsOfList stmts) (idsOfList stmts') s.ids s'.ids := by
  rcases differ with ⟨before, s, s', behind, rfl, rfl, changed⟩
  refine ⟨s, s', changed, List.mem_append_right _ List.mem_cons_self, ?_⟩
  rw [idsOfList_append, idsOfList_append]
  exact (Exchange.whole _ _).around _ _

/-- A splice drops the identifiers of one statement and adds those of its
replacement. -/
theorem Stmt.SpliceOf.exchange {target : NodeId} {replacement stmts stmts' : List Stmt}
    (differ : SpliceOf target replacement stmts stmts') :
    ∃ s, s.id = target ∧ s ∈ stmts ∧
      Exchange (idsOfList stmts) (idsOfList stmts') s.ids (idsOfList replacement) := by
  rcases differ with ⟨before, s, behind, rfl, same, rfl⟩
  refine ⟨s, same, List.mem_append_right _ List.mem_cons_self, ?_⟩
  rw [idsOfList_append, idsOfList_append, idsOfList_append]
  exact (Exchange.whole _ _).around _ _

theorem Stmt.mem_flatMap_substmts {s t : Stmt} {stmts : List Stmt} (listed : s ∈ stmts)
    (within : t ∈ s.substmts) : t ∈ stmts.flatMap substmts :=
  List.mem_flatMap.mpr ⟨s, listed, within⟩

/-- A splice into some list drops the identifiers of one statement and adds
those of its replacement. -/
theorem Stmt.AtSomeList.exchange {target : NodeId} {replacement stmts stmts' : List Stmt}
    (differ : AtSomeList (SpliceOf target replacement) stmts stmts') :
    ∃ s, s.id = target ∧ s ∈ stmts.flatMap substmts ∧
      Exchange (idsOfList stmts) (idsOfList stmts') s.ids (idsOfList replacement) := by
  rcases differ with here | within
  · rcases here.exchange with ⟨s, same, listed, exchange⟩
    exact ⟨s, same, mem_flatMap_substmts listed s.self_mem_substmts, exchange⟩
  · rcases within.exchange with ⟨member, member', inside, listed, outer⟩
    rcases inside.exchange with ⟨part, part', atList, substmts, _, middle⟩
    rcases atList.exchange with ⟨inner, inner', splice, members, deeper⟩
    rcases splice.exchange with ⟨s, same, spliced, exchange⟩
    exact ⟨s, same, mem_flatMap_substmts listed (substmts s (members s spliced)),
      ((outer.trans middle).trans deeper).trans exchange⟩

/-! ## Edits of a shader -/

theorem Decl.AtBody.exchange {R : List Stmt → List Stmt → Prop} {decl decl' : Decl}
    (differ : AtBody R decl decl') :
    ∃ f stmts', decl = .function f ∧ R f.body.stmts stmts' ∧
      Exchange decl.ids decl'.ids (Stmt.idsOfList f.body.stmts) (Stmt.idsOfList stmts') := by
  cases differ with
  | @function f stmts' changed =>
      exact ⟨f, stmts', rfl, changed, (((Exchange.whole _ _).cons _).behind _).cons _⟩

theorem Decl.AtExpr.exchange {R : Expr → Expr → Prop} {decl decl' : Decl}
    (differ : AtExpr R decl decl') :
    ∃ root root', R root root' ∧ root ∈ decl.roots ∧
      Exchange decl.ids decl'.ids root.ids root'.ids := by
  cases differ with
  | @globalInit _ _ _ _ init init' changed =>
      exact ⟨init, init', changed, List.mem_cons_self, (Exchange.whole _ _).cons _⟩
  | body changed =>
      rcases changed.exchange with ⟨f, stmts', rfl, atMember, outer⟩
      rcases atMember.exchange with ⟨s, s', inside, listed, middle⟩
      rcases inside.exchange with ⟨part, part', atExpr, _, roots, inner⟩
      rcases atExpr.exchange with ⟨root, root', changed, isRoot, exchange⟩
      exact ⟨root, root', changed, List.mem_flatMap.mpr ⟨s, listed, roots root isRoot⟩,
        ((outer.trans middle).trans inner).trans exchange⟩

namespace Shader

theorem AtDecl.exchange {R : Decl → Decl → Prop} {shader shader' : Shader}
    (differ : AtDecl R shader shader') :
    ∃ decl decl', R decl decl' ∧ decl ∈ shader.decls ∧ shader'.nextId = shader.nextId ∧
      Exchange shader.ids shader'.ids decl.ids decl'.ids := by
  rcases differ with ⟨before, decl, decl', behind, split, rfl, changed⟩
  refine ⟨decl, decl', changed, ?_, rfl, ?_⟩
  · rw [split]
    exact List.mem_append_right _ List.mem_cons_self
  · rw [ids, ids, split, List.flatMap_append, List.flatMap_append]
    exact (Exchange.whole _ _).around _ _

/-- Changing an expression drops its identifiers and adds those of what it is
changed to. -/
theorem exchange_of_modifyExpr? {target : NodeId} {change : Expr → Expr}
    {shader shader' : Shader} (found : shader.modifyExpr? target change = some shader') :
    ∃ part ∈ shader.exprs, part.id = target ∧ shader'.nextId = shader.nextId ∧
      Exchange shader.ids shader'.ids part.ids (change part).ids := by
  rcases (atExpr_of_modifyExpr? found).exchange with ⟨decl, decl', atExpr, listed, next, outer⟩
  rcases atExpr.exchange with ⟨root, root', inside, isRoot, middle⟩
  rcases inside.exchange with ⟨part, part', ⟨same, rfl⟩, within, exchange⟩
  have isRoot : root ∈ shader.roots := List.mem_flatMap.mpr ⟨decl, listed, isRoot⟩
  exact ⟨part, List.mem_flatMap.mpr ⟨root, isRoot, within⟩, same, next,
    (outer.trans middle).trans exchange⟩

/-- Changing a statement drops its identifiers and adds those of what it is
changed to. -/
theorem exchange_of_modifyStmt? {target : NodeId} {change : Stmt → Stmt}
    {shader shader' : Shader} (found : shader.modifyStmt? target change = some shader') :
    ∃ part ∈ shader.stmts, part.id = target ∧ shader'.nextId = shader.nextId ∧
      Exchange shader.ids shader'.ids part.ids (change part).ids := by
  rcases (atBody_of_modifyStmt? found).exchange with ⟨decl, decl', atBody, listed, next, outer⟩
  rcases atBody.exchange with ⟨f, stmts', rfl, atMember, body⟩
  rcases atMember.exchange with ⟨s, s', inside, member, middle⟩
  rcases inside.exchange with ⟨part, part', ⟨same, rfl⟩, within, _, exchange⟩
  exact ⟨part, List.mem_flatMap.mpr ⟨.function f, listed, Stmt.mem_flatMap_substmts member
    (within part part.self_mem_substmts)⟩, same, next, ((outer.trans body).trans middle).trans exchange⟩

/-- Putting statements in the place of one drops the identifiers of that one and
adds those of the others. -/
theorem exchange_of_splice? {target : NodeId} {replacement : List Stmt} {shader shader' : Shader}
    (found : shader.splice? target replacement = some shader') :
    ∃ part ∈ shader.stmts, part.id = target ∧ shader'.nextId = shader.nextId ∧
      Exchange shader.ids shader'.ids part.ids (Stmt.idsOfList replacement) := by
  rcases (atBody_of_splice? found).exchange with ⟨decl, decl', atBody, listed, next, outer⟩
  rcases atBody.exchange with ⟨f, stmts', rfl, atList, body⟩
  rcases atList.exchange with ⟨part, same, within, exchange⟩
  exact ⟨part, List.mem_flatMap.mpr ⟨.function f, listed, within⟩, same, next,
    (outer.trans body).trans exchange⟩

end Shader

/-- Each identifier of `added` is one of `dropped`, or one that is drawn between
`first` and `next`. -/
def Renews (first next : Nat) (dropped added : List NodeId) : Prop :=
  ∀ id : Nat, added.count id ≤ dropped.count id + if first ≤ id ∧ id < next then 1 else 0

namespace Renews

variable {first next : Nat} {dropped added : List NodeId}

theorem of_sublist (kept : added.Sublist dropped) : Renews first next dropped added :=
  fun id => Nat.le_add_right_of_le (kept.count_le id)

/-- What is made of a part is made of the whole. -/
theorem trans_sublist {whole : List NodeId} (renews : Renews first next dropped added)
    (within : dropped.Sublist whole) : Renews first next whole added :=
  fun id => Nat.le_trans (renews id) (Nat.add_le_add_right (within.count_le id) _)

theorem sublist_trans {fewer : List NodeId} (kept : fewer.Sublist added)
    (renews : Renews first next dropped added) : Renews first next dropped fewer :=
  fun id => Nat.le_trans (kept.count_le id) (renews id)

theorem perm {added' : List NodeId} (same : added'.Perm added)
    (renews : Renews first next dropped added) : Renews first next dropped added' :=
  fun id => Nat.le_trans (Nat.le_of_eq (same.count_eq id)) (renews id)

theorem cons (kept : NodeId) (renews : Renews first next dropped added) :
    Renews first next (kept :: dropped) (kept :: added) := by
  intro id
  have := renews id
  simp only [List.count_cons]
  omega

/-- Two pieces that draw one after the other make up one that draws what both
do. -/
theorem append {next' : Nat} {dropped' added' : List NodeId}
    (renews : Renews first next dropped added) (renews' : Renews next next' dropped' added')
    (forward : first ≤ next) (forward' : next ≤ next') :
    Renews first next' (dropped ++ dropped') (added ++ added') := by
  intro id
  have before := renews id
  have behind := renews' id
  simp only [List.count_append]
  split_ifs at before behind ⊢ <;> omega

/-- What is made of things that were themselves made is made of their sources. -/
theorem bind {last : Nat} {others made : List NodeId} (renews : Renews first next dropped added)
    (renews' : Renews next last (added ++ others) made) (forward : first ≤ next)
    (forward' : next ≤ last) : Renews first last (dropped ++ others) made := by
  intro id
  have before := renews id
  have behind := renews' id
  simp only [List.count_append] at behind ⊢
  split_ifs at before behind ⊢ <;> omega

/-- Identifiers that are drawn later are drawn. -/
theorem earlier {first' : Nat} (renews : Renews first next dropped added) (forward : first' ≤ first) :
    Renews first' next dropped added := by
  intro id
  have later := renews id
  split_ifs at later ⊢ <;> omega

/-- What is new can stand anywhere among what is kept. -/
theorem insert {front behind : List NodeId} (renews : Renews first next [] added)
    (kept : (front ++ behind).Sublist dropped) :
    Renews first next dropped (front ++ added ++ behind) := by
  intro id
  have new := renews id
  have same := kept.count_le id
  simp only [List.count_append, List.count_nil] at new same ⊢
  omega

/-- All identifiers of a numbered tree are new. -/
theorem range' (first count : Nat) : Renews first (first + count) [] (List.range' first count) := by
  intro id
  have once := List.nodup_iff_count_le_one.mp (List.nodup_range' (s := first) (n := count)) id
  split
  · exact Nat.le_add_left_of_le once
  · rename_i outside
    refine Nat.le_of_eq (List.count_eq_zero.mpr fun listed => outside ?_)
    exact List.mem_range'_1.mp listed

/-- One more identifier is drawn. -/
theorem draw (renews : Renews first next dropped added) (forward : first ≤ next) :
    Renews first (next + 1) dropped (next :: added) := by
  have drawn := renews.append (range' next 1) forward (Nat.le_succ next)
  rw [List.append_nil] at drawn
  exact drawn.perm (List.perm_append_singleton next added).symm

end Renews

theorem Shader.isNumbered_iff_count {shader : Shader} :
    shader.IsNumbered ↔ ∀ id : Nat, shader.ids.count id ≤ if id < shader.nextId then 1 else 0 := by
  constructor
  · intro numbered id
    split
    · exact List.nodup_iff_count_le_one.mp numbered.1 id
    · rename_i notBelow
      exact Nat.le_of_eq (List.count_eq_zero.mpr fun listed => notBelow (numbered.2 id listed))
  · intro counts
    refine ⟨List.nodup_iff_count_le_one.mpr fun id => ?_, fun id listed => ?_⟩
    · exact Nat.le_trans (counts id) (by split <;> omega)
    · have least := List.count_pos_iff.mpr listed
      have most := counts id
      by_contra notBelow
      rw [if_neg notBelow] at most
      omega

/-- A numbered shader stays numbered if an edit adds only identifiers that it
drops or draws. -/
theorem Shader.IsNumbered.exchange {shader shader' : Shader} {dropped added : List NodeId}
    (numbered : shader.IsNumbered) (drawn : shader.nextId ≤ shader'.nextId)
    (exchange : Exchange shader.ids shader'.ids dropped added)
    (renews : Renews shader.nextId shader'.nextId dropped added) : shader'.IsNumbered := by
  rw [isNumbered_iff_count] at numbered ⊢
  intro id
  unfold NodeId at drawn
  have before := numbered id
  have moved := exchange id
  have new := renews id
  split_ifs at before new ⊢ <;> omega

end Whittle
