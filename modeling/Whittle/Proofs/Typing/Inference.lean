import Whittle.Proofs.Identifiers.NodeIds
import Whittle.Proofs.Typing.Judgement
import Whittle.Proofs.Typing.Rules

namespace Whittle
namespace Check

/-!
# Inference finds the types that the rules give

Where the identifiers of an expression are new, inference answers with the type
that the rules give it and records the types of all its parts.  Where they are
not, or where the expression has no type, a problem is reported.
-/

namespace Context

variable {ctx : Context}

theorem isSome_of_mem_of_typesOf {es : List Expr} {tys : List Ty}
    (areTypes : ctx.typesOf es = some tys) : ∀ e ∈ es, (ctx.typeOf e).isSome := by
  induction es generalizing tys with
  | nil => exact List.forall_mem_nil _
  | cons e rest inductionHypothesis =>
      rcases typesOf_cons_eq_some_iff.mp areTypes with ⟨ty, others, isTy, areOthers, _⟩
      exact List.forall_mem_cons.mpr
        ⟨Option.isSome_of_eq_some isTy, inductionHypothesis areOthers⟩

/-- The operands of a typed expression have types. -/
theorem isSome_of_mem_children {e child : Expr} (typed : (ctx.typeOf e).isSome)
    (listed : child ∈ e.children) : (ctx.typeOf child).isSome := by
  rcases Option.isSome_iff_exists.mp typed with ⟨ty, isTy⟩
  cases e with
  | int | float | bool | var => cases listed
  | paren =>
      rw [List.mem_singleton.mp listed]
      exact Option.isSome_of_eq_some isTy
  | unary =>
      rcases typeOf_unary_eq_some_iff.mp isTy with ⟨_, operandTy, isOperand, _⟩
      rw [List.mem_singleton.mp listed]
      exact Option.isSome_of_eq_some isOperand
  | binary =>
      rcases typeOf_binary_eq_some_iff.mp isTy with ⟨lhsTy, rhsTy, isLhs, isRhs, _⟩
      rcases List.mem_pair.mp listed with rfl | rfl
      · exact Option.isSome_of_eq_some isLhs
      · exact Option.isSome_of_eq_some isRhs
  | assign =>
      rcases typeOf_assign_eq_some_iff.mp isTy with ⟨_, targetTy, valueTy, isTarget, isValue, _⟩
      rcases List.mem_pair.mp listed with rfl | rfl
      · exact Option.isSome_of_eq_some isTarget
      · exact Option.isSome_of_eq_some isValue
  | ternary =>
      rcases typeOf_ternary_eq_some_iff.mp isTy with ⟨isCond, isTrue, isFalse⟩
      rcases List.mem_cons.mp listed with rfl | listed
      · exact Option.isSome_of_eq_some isCond
      · rcases List.mem_pair.mp listed with rfl | rfl
        · exact Option.isSome_of_eq_some isTrue
        · exact Option.isSome_of_eq_some isFalse
  | call =>
      rcases typeOf_call_eq_some_iff.mp isTy with ⟨tys, areTypes, _⟩
      exact isSome_of_mem_of_typesOf areTypes child listed
  | member =>
      rcases typeOf_member_eq_some_iff.mp isTy with ⟨baseTy, isBase, _⟩
      rw [List.mem_singleton.mp listed]
      exact Option.isSome_of_eq_some isBase
  | index =>
      rcases typeOf_index_eq_some_iff.mp isTy with ⟨isPosition, component, width, isBase, _⟩
      rcases List.mem_pair.mp listed with rfl | rfl
      · exact Option.isSome_of_eq_some isBase
      · exact Option.isSome_of_eq_some isPosition

/-- All parts of a typed expression have types. -/
theorem isSome_of_mem_subexprs {e part : Expr} (typed : (ctx.typeOf e).isSome)
    (listed : part ∈ e.subexprs) : (ctx.typeOf part).isSome := by
  induction e using Expr.children_induction with
  | step e inductionHypothesis =>
      rw [Expr.subexprs_eq_cons] at listed
      rcases List.mem_cons.mp listed with rfl | within
      · exact typed
      · rcases List.mem_flatMap.mp within with ⟨child, isChild, listed⟩
        exact inductionHypothesis child isChild (isSome_of_mem_children typed isChild) listed

/-- An expression comes before its parts in the list of types. -/
theorem entries_eq (ctx : Context) (e : Expr) :
    ctx.entries e = ((ctx.typeOf e).map fun ty => (e.id, ty)).toList ++
      e.children.flatMap ctx.entries := by
  rw [entries, Expr.subexprs_eq_cons, List.filterMap_cons, List.filterMap_flatMap]
  cases ctx.typeOf e <;> rfl

end Context

/-- Where the table has the types of a location and its parts, the location is
found writable if the rules allow it. -/
theorem unwritable?_eq_none_iff {ctx : Context} {types : TypeTable} {e : Expr}
    (known : ∀ part ∈ e.subexprs, types[part.id]? = ctx.typeOf part) :
    unwritable? ctx types e = none ↔ ctx.mayWrite e = true := by
  induction e using Expr.children_induction with
  | step e inductionHypothesis =>
      have knownIn : ∀ child ∈ e.children, ∀ part ∈ child.subexprs,
          types[part.id]? = ctx.typeOf part := fun child isChild part listed =>
        known part (by
          rw [Expr.subexprs_eq_cons]
          exact List.mem_cons_of_mem _ (List.mem_flatMap.mpr ⟨child, isChild, listed⟩))
      cases e with
      | int | float | bool | unary | binary | assign | ternary | call =>
          simp only [unwritable?, Context.mayWrite, reduceCtorEq, Bool.false_eq_true]
      | var id name =>
          simp only [unwritable?, Context.mayWrite, ite_eq_left_iff, reduceCtorEq, imp_false,
            Bool.not_eq_true, Bool.not_eq_false]
      | paren id inner =>
          exact inductionHypothesis inner List.mem_cons_self (knownIn inner List.mem_cons_self)
      | index id base position =>
          exact inductionHypothesis base List.mem_cons_self (knownIn base List.mem_cons_self)
      | member id base field =>
          have isKnown := knownIn base List.mem_cons_self base base.self_mem_subexprs
          have inner := inductionHypothesis base List.mem_cons_self
            (knownIn base List.mem_cons_self)
          rw [unwritable?, Context.mayWrite, isKnown]
          split
          · rename_i repeats
            simp only [repeats, Bool.not_true, Bool.false_and, reduceCtorEq, Bool.false_eq_true]
          · rename_i repeats
            rw [inner, Bool.not_eq_true _ |>.mp repeats, Bool.not_false, Bool.true_and]

/-- Whether a location is writable is told from the types so far. -/
theorem run_writable (ctx : Context) (log : Log) (e : Expr) : (writable ctx e).run log =
    (match unwritable? ctx log.types e with
      | none => (pure true : Checker Bool)
      | some node => report node .notAssignable >>= fun _ => pure false).run log :=
  rfl

theorem grows_writable (ctx : Context) (e : Expr) : Grows (writable ctx e) := by
  intro log
  rw [run_writable]
  split
  · exact Nat.le_refl _
  · exact ((grows_report _ _).bind fun _ => .pure _) log

theorem judges_writable {ctx : Context} {log : Log} {e : Expr}
    (known : ∀ part ∈ e.subexprs, log.types[part.id]? = ctx.typeOf part) :
    Judges log (writable ctx e) [] [] (ctx.mayWrite e = true) true := by
  refine Judges.of_run_eq (run_writable ctx log e) ?_
  rw [← unwritable?_eq_none_iff known]
  cases unwritable? ctx log.types e with
  | none => exact (Judges.pure log true).congr (.refl _) rfl (by simp only)
  | some node =>
      exact (judges_report log node .notAssignable [] [] (pure false) (.pure _) true).congr
        (.refl _) rfl (by simp only [reduceCtorEq])

/-- The table has the types of the parts of an expression that was inferred. -/
theorem Log.Adds.types_eq {ctx : Context} {log after : Log} {ids : List NodeId}
    {entries : List (NodeId × Ty)} {e part : Expr} (adds : log.Adds ids entries after)
    (within : ∀ entry ∈ ctx.entries e, entry ∈ entries) (typed : (ctx.typeOf e).isSome)
    (listed : part ∈ e.subexprs) : after.types[part.id]? = ctx.typeOf part := by
  rcases Option.isSome_iff_exists.mp (Context.isSome_of_mem_subexprs typed listed) with ⟨ty, isTy⟩
  rw [isTy]
  refine adds.recorded (part.id, ty) (within _ ?_)
  exact List.mem_filterMap.mpr ⟨part, listed, by rw [isTy]; rfl⟩

/-! ## Inference -/

theorem grows_choice (id condId : NodeId) (cond whenTrue whenFalse : Ty) :
    Grows (choice id condId cond whenTrue whenFalse) := by
  unfold choice
  split
  · exact grows_settle _ _
  · split
    · exact grows_settle _ _
    · exact .pure _

theorem grows_indexed (id positionId : NodeId) (base position : Ty) :
    Grows (indexed id positionId base position) := by
  unfold indexed
  split
  · exact grows_settle _ _
  · split
    · exact .pure _
    · exact grows_settle _ _

theorem grows_ifWritable (ctx : Context) (e : Expr) {next : Checker (Option Ty)}
    (grows : Grows next) : Grows (do if ← writable ctx e then next else pure none) := by
  refine (grows_writable ctx e).bind fun isWritable => ?_
  cases isWritable
  · exact .pure _
  · exact grows

theorem grows_settleUnary (ctx : Context) (id : NodeId) (op : UnaryOp) (operand : Expr)
    (operandTy : Ty) : Grows (settleUnary ctx id op operand operandTy) := by
  refine (grows_settle _ _).whenSome fun ty => ?_
  split
  · exact grows_ifWritable ctx operand (.pure _)
  · exact .pure _

theorem grows_settleAssign (ctx : Context) (id : NodeId) (op : AssignOp) (target : Expr)
    (targetTy valueTy : Ty) : Grows (settleAssign ctx id op target targetTy valueTy) :=
  grows_ifWritable ctx target (grows_settle _ _)

theorem judges_pure_some {α : Type} (log : Log) (a : α) {a? : Option α} (isSome : a? = some a) :
    Judges log (pure (some a)) [] [] a?.isSome a? := by
  subst isSome
  exact (Judges.pure log (some a)).congr (.refl _) rfl (by simp only [Option.isSome_some])

theorem judges_choice {ctx : Context} {id : NodeId} {cond whenTrue whenFalse : Expr}
    {condTy trueTy falseTy : Ty} (isCond : ctx.typeOf cond = some condTy)
    (isTrue : ctx.typeOf whenTrue = some trueTy) (isFalse : ctx.typeOf whenFalse = some falseTy)
    (log : Log) :
    Judges log (choice id cond.id condTy trueTy falseTy) [] []
      (ctx.typeOf (.ternary id cond whenTrue whenFalse)).isSome
      (ctx.typeOf (.ternary id cond whenTrue whenFalse)) := by
  unfold choice
  rw [Context.typeOf, isCond, isTrue, isFalse]
  split
  · rename_i wrong
    refine (judges_report log cond.id _ [] [] (pure none) (.pure _) _).congr (.refl _) rfl ?_
    simp [bne_iff_ne.mp wrong]
  · rename_i isBool
    split
    · rename_i differ
      refine (judges_report log id _ [] [] (pure none) (.pure _) _).congr (.refl _) rfl ?_
      simp [bne_iff_ne.mp differ]
    · rename_i same
      simp only [bne_iff_ne, ne_eq, Decidable.not_not] at isBool same
      exact judges_pure_some log trueTy (by simp [isBool, same])

theorem judges_indexed {ctx : Context} {id : NodeId} {base position : Expr} {baseTy positionTy : Ty}
    (isBase : ctx.typeOf base = some baseTy) (isPosition : ctx.typeOf position = some positionTy)
    (log : Log) :
    Judges log (indexed id position.id baseTy positionTy) [] []
      (ctx.typeOf (.index id base position)).isSome (ctx.typeOf (.index id base position)) := by
  unfold indexed
  rw [Context.typeOf, isBase, isPosition]
  split
  · rename_i wrong
    refine (judges_report log position.id _ [] [] (pure none) (.pure _) _).congr (.refl _) rfl ?_
    simp [bne_iff_ne.mp wrong]
  · rename_i isInt
    simp only [bne_iff_ne, ne_eq, Decidable.not_not] at isInt
    cases baseTy with
    | vector component width => exact judges_pure_some log (Ty.scalar component) (by simp [isInt])
    | void | scalar | struct =>
        exact (judges_report log id _ [] [] (pure none) (.pure _) _).congr (.refl _) rfl (by simp)

/-- What is settled behind a check that a location is writable. -/
theorem judges_ifWritable {ctx : Context} {log : Log} {e : Expr} {next : Checker (Option Ty)}
    {ty? : Option Ty} (known : ∀ part ∈ e.subexprs, log.types[part.id]? = ctx.typeOf part)
    (needed : ty?.isSome → ctx.mayWrite e = true)
    (judges : ∀ after, ctx.mayWrite e = true → Judges after next [] [] ty?.isSome ty?)
    (grows : Grows next) :
    Judges log (do if ← writable ctx e then next else pure none) [] [] ty?.isSome ty? := by
  refine ((judges_writable known).bind (fun after _ _ mayWrite => judges after mayWrite) ?_).congr
    (.refl _) rfl ⟨fun isSome => ⟨needed isSome, isSome⟩, And.right⟩
  intro isWritable
  cases isWritable
  · exact .pure _
  · exact grows

theorem judges_settleUnary {ctx : Context} {id : NodeId} {op : UnaryOp} {operand : Expr}
    {operandTy : Ty} (isOperand : ctx.typeOf operand = some operandTy) {log : Log}
    (known : ∀ part ∈ operand.subexprs, log.types[part.id]? = ctx.typeOf part) :
    Judges log (settleUnary ctx id op operand operandTy) [] []
      (ctx.typeOf (.unary id op operand)).isSome (ctx.typeOf (.unary id op operand)) := by
  refine (judges_settle log id (unary op operandTy)).whenSome ?_ (fun after ty adds isTy => ?_) ?_
  · intro typed
    rcases Option.isSome_iff_exists.mp typed with ⟨ty, isTy⟩
    rcases Context.typeOf_unary_eq_some_iff.mp isTy with ⟨_, other, isOther, isTy⟩
    rw [Option.some.inj (isOperand.symm.trans isOther), isTy]
    rfl
  · have isSettled : unary op operandTy = .ok ty := Context.toOption_eq_some_iff.mp isTy
    split
    · rename_i writes
      refine judges_ifWritable (fun part listed => ?_) (fun typed => ?_) (fun after mayWrite => ?_)
        (.pure _)
      · rw [adds.kept part.id List.not_mem_nil, known part listed]
      · rcases Option.isSome_iff_exists.mp typed with ⟨ty, isTy⟩
        exact (Context.typeOf_unary_eq_some_iff.mp isTy).1 writes
      · exact judges_pure_some after ty (Context.typeOf_unary_eq_some_iff.mpr
          ⟨fun _ => mayWrite, operandTy, isOperand, isSettled⟩)
    · rename_i writesNot
      exact judges_pure_some after ty (Context.typeOf_unary_eq_some_iff.mpr
        ⟨fun writes => absurd writes writesNot, operandTy, isOperand, isSettled⟩)
  · intro ty
    split
    · exact grows_ifWritable ctx operand (.pure _)
    · exact .pure _

theorem judges_settleAssign {ctx : Context} {id : NodeId} {op : AssignOp} {target value : Expr}
    {targetTy valueTy : Ty} (isTarget : ctx.typeOf target = some targetTy)
    (isValue : ctx.typeOf value = some valueTy) {log : Log}
    (known : ∀ part ∈ target.subexprs, log.types[part.id]? = ctx.typeOf part) :
    Judges log (settleAssign ctx id op target targetTy valueTy) [] []
      (ctx.typeOf (.assign id op target value)).isSome
      (ctx.typeOf (.assign id op target value)) := by
  refine judges_ifWritable known (fun typed => ?_) (fun after mayWrite => ?_) (grows_settle _ _)
  · rcases Option.isSome_iff_exists.mp typed with ⟨ty, isTy⟩
    exact (Context.typeOf_assign_eq_some_iff.mp isTy).1
  · have same : ctx.typeOf (.assign id op target value) = (assign op targetTy valueTy).toOption := by
      rw [Context.typeOf, mayWrite, isTarget, isValue]
      rfl
    rw [same]
    exact judges_settle after id _

theorem toOption_binary (op : BinaryOp) (lhs rhs : Ty) :
    (binary op lhs rhs).toOption = binary? op lhs rhs := by
  unfold binary
  split <;> rename_i found <;> rw [found] <;> rfl

mutual

/-- Inference answers with the type that the rules give, and records those of
all parts. -/
theorem judges_infer (ctx : Context) (e : Expr) (log : Log) :
    Judges log (infer ctx e) e.ids (ctx.entries e) (ctx.typeOf e).isSome (ctx.typeOf e) := by
  have needed : ∀ child ∈ e.children, (ctx.typeOf e).isSome → (ctx.typeOf child).isSome :=
    fun child listed typed => Context.isSome_of_mem_children typed listed
  rw [Context.entries_eq]
  cases e with
  | int | float | bool =>
      exact judges_recorded log _ fun between => judges_pure_some between _ rfl
  | var id name =>
      rw [Expr.children, List.flatMap_nil]
      refine judges_recorded log id fun between => ?_
      rw [Context.typeOf]
      cases ctx.lookup? name with
      | some binding => exact judges_pure_some between _ rfl
      | none => exact judges_settle between id _
  | paren id inner =>
      rw [Expr.children, List.flatMap_singleton]
      exact judges_recorded log id (judges_infer ctx inner)
  | unary id op operand =>
      rw [Expr.children, List.flatMap_singleton]
      refine judges_recorded log id fun between => ?_
      refine (judges_infer ctx operand between).whenSome (needed operand List.mem_cons_self)
        (fun after ty adds isOperand => ?_) (grows_settleUnary ctx id op operand)
      exact judges_settleUnary isOperand fun part listed =>
        adds.types_eq (fun _ listed => listed) (Option.isSome_of_eq_some isOperand) listed
  | binary id op lhs rhs =>
      rw [Expr.children, List.flatMap_cons, List.flatMap_singleton]
      refine judges_recorded log id fun between => ?_
      refine (judges_infer ctx lhs between).whenBoth (judges_infer ctx rhs)
        (fun typed => ⟨needed lhs List.mem_cons_self typed,
          needed rhs (List.mem_cons_of_mem _ List.mem_cons_self) typed⟩)
        (fun after lhsTy rhsTy _ isLhs isRhs => ?_) fun _ _ => grows_settle _ _
      have same : ctx.typeOf (.binary id op lhs rhs) = (binary op lhsTy rhsTy).toOption := by
        rw [toOption_binary, Context.typeOf, isLhs, isRhs]
        rfl
      rw [same]
      exact judges_settle after id _
  | assign id op target value =>
      rw [Expr.children, List.flatMap_cons, List.flatMap_singleton]
      refine judges_recorded log id fun between => ?_
      refine (judges_infer ctx target between).whenBoth (judges_infer ctx value)
        (fun typed => ⟨needed target List.mem_cons_self typed,
          needed value (List.mem_cons_of_mem _ List.mem_cons_self) typed⟩)
        (fun after targetTy valueTy adds isTarget isValue => ?_)
        (grows_settleAssign ctx id op target)
      exact judges_settleAssign isTarget isValue fun part listed =>
        adds.types_eq (fun _ listed => List.mem_append_left _ listed)
          (Option.isSome_of_eq_some isTarget) listed
  | ternary id cond whenTrue whenFalse =>
      rw [Expr.children, List.flatMap_cons, List.flatMap_cons, List.flatMap_singleton]
      refine judges_recorded log id fun between => ?_
      refine (judges_infer ctx cond between).whenBoth
        (fun between' => (judges_infer ctx whenTrue between').both (judges_infer ctx whenFalse))
        (fun typed => ?_) (fun after condTy values _ isCond areValues => ?_)
        fun _ _ => grows_choice _ _ _ _ _
      · rcases Option.isSome_iff_exists.mp typed with ⟨ty, isTy⟩
        rcases Context.typeOf_ternary_eq_some_iff.mp isTy with ⟨isCond, isTrue, isFalse⟩
        rw [isCond, isTrue, isFalse]
        exact ⟨rfl, rfl⟩
      · rcases Option.bind_eq_some_iff.mp areValues with ⟨trueTy, isTrue, areValues⟩
        rcases Option.map_eq_some_iff.mp areValues with ⟨falseTy, isFalse, rfl⟩
        exact judges_choice isCond isTrue isFalse after
  | call id callee args =>
      rw [Expr.children]
      refine judges_recorded log id fun between => ?_
      refine (judges_inferList ctx args between).whenSome (fun typed => ?_)
        (fun after tys _ areTypes => ?_) fun _ => grows_settle _ _
      · rcases Option.isSome_iff_exists.mp typed with ⟨ty, isTy⟩
        rcases Context.typeOf_call_eq_some_iff.mp isTy with ⟨tys, areTypes, _⟩
        exact Option.isSome_of_eq_some areTypes
      · have same : ctx.typeOf (.call id callee args) = (ctx.call callee tys).toOption := by
          rw [Context.typeOf, areTypes]
          rfl
        rw [same]
        exact judges_settle after id _
  | member id base field =>
      rw [Expr.children, List.flatMap_singleton]
      refine judges_recorded log id fun between => ?_
      refine (judges_infer ctx base between).whenSome (needed base List.mem_cons_self)
        (fun after baseTy _ isBase => ?_) fun _ => grows_settle _ _
      have same : ctx.typeOf (.member id base field) = (ctx.member baseTy field).toOption := by
        rw [Context.typeOf, isBase]
        rfl
      rw [same]
      exact judges_settle after id _
  | index id base position =>
      rw [Expr.children, List.flatMap_cons, List.flatMap_singleton]
      refine judges_recorded log id fun between => ?_
      exact (judges_infer ctx base between).whenBoth (judges_infer ctx position)
        (fun typed => ⟨needed base List.mem_cons_self typed,
          needed position (List.mem_cons_of_mem _ List.mem_cons_self) typed⟩)
        (fun after _ _ _ isBase isPosition => judges_indexed isBase isPosition after)
        (grows_indexed id position.id)

/-- The same for the arguments of a call. -/
theorem judges_inferList (ctx : Context) (es : List Expr) (log : Log) :
    Judges log (inferList ctx es) (Expr.idsOfList es) (es.flatMap ctx.entries)
      (ctx.typesOf es).isSome (ctx.typesOf es) := by
  match es with
  | [] => exact judges_pure_some log [] rfl
  | e :: rest =>
      refine (judges_infer ctx e log).whenBoth (judges_inferList ctx rest) (fun typed => ?_)
        (fun after ty tys _ isTy areTypes => ?_) fun _ _ => .pure _
      · rcases Option.isSome_iff_exists.mp typed with ⟨tys, areTypes⟩
        rcases Context.typesOf_cons_eq_some_iff.mp areTypes with ⟨ty, others, isTy, areOthers, _⟩
        exact ⟨Option.isSome_of_eq_some isTy, Option.isSome_of_eq_some areOthers⟩
      · exact judges_pure_some after (ty :: tys) (Context.typesOf_cons_eq_some_iff.mpr
          ⟨ty, tys, isTy, areTypes, rfl⟩)

end

end Check
end Whittle
