import Whittle.Proofs.Identifiers.SwitchChain
import Whittle.Reduction.Edit

namespace Whittle

/-!
# Edits keep identifiers apart

An edit of any kind keeps a shader numbered.  This does not depend on where the
edit was found: it names its targets by identifier, and on whatever it hits it
moves, copies and numbers nodes in the same way.  So an edit of an earlier state
does no harm either, and neither does one that no search returned.
-/

namespace Reduction

variable {shader : Shader}

theorem ids_oneLiteral (id : NodeId) (component : Scalar) : (oneLiteral id component).ids = [id] := by
  cases component <;> rfl

theorem ConstantReplacement.isNumbered_apply (edit : ConstantReplacement)
    (numbered : shader.IsNumbered) : (edit.apply shader).IsNumbered := by
  unfold apply
  split
  · refine numbered.replaceExpr (.refl shader) fun e _ isTarget => .of_sublist ?_
    rw [ids_oneLiteral, ← isTarget, e.ids_eq_cons]
    exact List.cons_sublist_cons.mpr (List.nil_sublist _)
  · refine numbered.replaceExpr shader.draws_freshId fun e _ isTarget => ?_
    rw [Expr.ids, Expr.idsOfList, Expr.idsOfList, ids_oneLiteral, ← isTarget, e.ids_eq_cons]
    have literal := Renews.range' shader.nextId 1
    exact (literal.trans_sublist (List.nil_sublist _)).cons e.id
  · exact numbered
  · exact numbered

theorem OperandPromotion.isNumbered_apply (edit : OperandPromotion)
    (numbered : shader.IsNumbered) : (edit.apply shader).IsNumbered :=
  numbered.promoteExpr edit.expr edit.operand

theorem IdentityRemoval.isNumbered_apply (edit : IdentityRemoval)
    (numbered : shader.IsNumbered) : (edit.apply shader).IsNumbered :=
  numbered.promoteExpr edit.expr edit.kept

theorem StmtRemoval.isNumbered_apply (edit : StmtRemoval) (numbered : shader.IsNumbered) :
    (edit.apply shader).IsNumbered :=
  numbered.removeStmt edit.stmt

theorem ColourWrite.isNumbered_apply (edit : ColourWrite) (numbered : shader.IsNumbered) :
    (edit.apply shader).IsNumbered := by
  refine numbered.replaceStmt (.refl shader) fun s _ isTarget => .of_sublist ?_
  rw [← isTarget]
  exact List.singleton_sublist.mpr s.id_mem_ids

/-- With its bound raised, and the second loop still there. -/
theorem LoopMerge.isNumbered_raised (edit : LoopMerge) (numbered : shader.IsNumbered) :
    (shader.freshId.2.replaceExpr edit.bound (.int shader.nextId edit.newBound)).1.IsNumbered :=
  numbered.replaceExpr shader.draws_freshId fun e _ _ =>
    (Renews.range' shader.nextId 1).trans_sublist (List.nil_sublist e.ids)

theorem LoopMerge.isNumbered_apply (edit : LoopMerge) (numbered : shader.IsNumbered) :
    (edit.apply shader).IsNumbered := by
  unfold apply
  split
  · exact numbered
  · exact (edit.isNumbered_raised numbered).removeStmt edit.second

/-- The body that a part of a statement is has identifiers of the statement. -/
theorem ids_sublist_of_bodyIn? {part : Part} {s body : Stmt} (found : bodyIn? part s = some body) :
    (s.id :: body.ids).Sublist s.ids := by
  unfold bodyIn? at found
  split at found
  · cases found
    exact ((List.sublist_append_left _ _).trans (List.sublist_append_right _ _)).cons_cons _
  · cases found
    exact ((List.sublist_append_right _ _).trans (List.sublist_append_right _ _)).cons_cons _
  · cases found
    exact (List.sublist_append_right _ _).cons_cons _
  · cases found
    exact (((List.sublist_append_right _ _).trans (List.sublist_append_right _ _)).trans
      (List.sublist_append_right _ _)).cons_cons _
  · cases found

theorem BodyPromotion.isNumbered_apply (edit : BodyPromotion) (numbered : shader.IsNumbered) :
    (edit.apply shader).IsNumbered := by
  unfold apply
  split
  · exact numbered
  · rename_i id scope stmts found
    rcases Option.bind_eq_some_iff.mp found with ⟨s, isFound, isBody⟩
    refine numbered.replaceStmt (.refl shader) fun other listed isTarget => .of_sublist ?_
    rw [numbered.eq_of_findStmt? isFound listed isTarget, ← Shader.id_of_findStmt? isFound]
    exact ((List.sublist_cons_self id _).cons_cons s.id).trans (ids_sublist_of_bodyIn? isBody)
  · rename_i kept _ found
    rcases Option.bind_eq_some_iff.mp found with ⟨s, isFound, isBody⟩
    refine numbered.replaceStmt shader.draws_freshId fun other listed isTarget => ?_
    rw [numbered.eq_of_findStmt? isFound listed isTarget, ← Shader.id_of_findStmt? isFound]
    have moved : Renews shader.nextId shader.nextId s.ids (s.id :: kept.ids) :=
      .of_sublist (ids_sublist_of_bodyIn? isBody)
    have inBlock := (moved.draw (Nat.le_refl _)).perm (List.Perm.swap _ _ _)
    rw [Stmt.ids, Stmt.idsOfList, Stmt.idsOfList, List.append_nil]
    exact inBlock

theorem idsOfList_bodyStmts_sublist (body : Stmt) :
    (Stmt.idsOfList (Unwrapping.bodyStmts body)).Sublist body.ids := by
  cases body with
  | block id scope stmts => exact (List.sublist_cons_self _ _).trans (List.sublist_cons_self _ _)
  | _ =>
      simp only [Unwrapping.bodyStmts, Stmt.idsOfList, List.append_nil, List.Sublist.refl]

/-- What a wrapper keeps are the statements of a block, or those of a body. -/
theorem Unwrapping.block_or_body_of_kept? {wrapper : Wrapper} {s : Stmt} {moved : List Stmt}
    (found : kept? wrapper s = some moved) :
    (∃ id scope, s = .block id scope moved) ∨
      ∃ part body, bodyIn? part s = some body ∧ moved = bodyStmts body := by
  unfold kept? at found
  split at found <;> cases found
  · exact Or.inl ⟨_, _, rfl⟩
  · exact Or.inr ⟨.whenTrue, _, rfl, rfl⟩
  · exact Or.inr ⟨.whenFalse, _, rfl, rfl⟩
  · exact Or.inr ⟨.loopBody, _, rfl, rfl⟩
  · exact Or.inr ⟨.loopBody, _, rfl, rfl⟩
  · exact Or.inr ⟨.loopBody, _, rfl, rfl⟩
  · exact Or.inr ⟨.loopBody, _, rfl, rfl⟩

/-- The statements that a wrapper keeps have identifiers of the wrapper, but not
its own. -/
theorem ids_sublist_of_kept? {wrapper : Wrapper} {s : Stmt} {moved : List Stmt}
    (found : Unwrapping.kept? wrapper s = some moved) :
    (s.id :: Stmt.idsOfList moved).Sublist s.ids := by
  rcases Unwrapping.block_or_body_of_kept? found with ⟨id, scope, rfl⟩ | ⟨part, body, isBody, rfl⟩
  · exact (List.sublist_cons_self scope _).cons_cons id
  · exact ((idsOfList_bodyStmts_sublist body).cons_cons s.id).trans (ids_sublist_of_bodyIn? isBody)

theorem Unwrapping.isNumbered_apply (edit : Unwrapping) (numbered : shader.IsNumbered) :
    (edit.apply shader).IsNumbered := by
  unfold apply
  split
  · rename_i moved found
    rcases Option.bind_eq_some_iff.mp found with ⟨s, isFound, isKept⟩
    refine numbered.replaceStmtWith (.refl shader) fun other listed isTarget => .of_sublist ?_
    rw [numbered.eq_of_findStmt? isFound listed isTarget]
    exact ids_sublist_of_kept? isKept
  · exact numbered

theorem VarRemoval.isNumbered_apply (edit : VarRemoval) (numbered : shader.IsNumbered) :
    (edit.apply shader).IsNumbered := by
  unfold apply
  split
  · exact numbered.removeDecl _
  · exact numbered.removeStmt _
  · refine numbered.modifyStmt (.refl shader) fun s _ _ => .of_sublist ?_
    cases s with
    | decl id var =>
        rcases var with ⟨varId, qualifier, ty, name, init⟩
        cases init with
        | none => exact .refl _
        | some init => exact (List.sublist_cons_self varId _).cons_cons id
    | _ => exact .refl _

theorem draws_parenthesized (shader : Shader) (e : Expr) :
    shader.Draws (parenthesized shader e).2 :=
  shader.draws_freshId

theorem draws_parenthesizedList (shader : Shader) (es : List Expr) :
    shader.Draws (parenthesizedList shader es).2 := by
  induction es generalizing shader with
  | nil => exact .refl shader
  | cons e rest inductionHypothesis =>
      exact (draws_parenthesized shader e).trans (inductionHypothesis _)

/-- All of the returned expression is numbered anew, arguments included. -/
theorem OutlinedCall.isNumbered_apply (edit : OutlinedCall) (numbered : shader.IsNumbered) :
    (edit.apply shader).IsNumbered := by
  unfold apply
  dsimp only
  split
  · exact numbered
  · rename_i args f body _
    have passed := draws_parenthesizedList shader (args.take f.params.length)
    have draws := passed.trans (draws_parenthesized _ (substituted
      (binding? f.params (parenthesizedList shader (args.take f.params.length)).1) body))
    refine numbered.replaceExpr (draws.trans (Shader.draws_refreshExpr _ _)) fun e _ _ => ?_
    exact (Shader.renews_refreshExpr _ _ e.ids).earlier draws.forward

theorem InitInlining.isNumbered_replaceByCopy (init : Expr) (target : NodeId)
    (numbered : shader.IsNumbered) : (replaceByCopy init shader target).IsNumbered := by
  have draws := shader.draws_refreshExpr init
  have inParens := draws.trans (draws_parenthesized _ (init.numbered shader.nextId))
  refine numbered.replaceExpr inParens fun e _ _ => ?_
  exact (shader.renews_refreshExpr init e.ids).draw draws.forward

theorem InitInlining.isNumbered_apply (edit : InitInlining) (numbered : shader.IsNumbered) :
    (edit.apply shader).IsNumbered := by
  unfold apply
  split
  · exact numbered
  · exact numbered.foldl (fun _ target isNumbered =>
      isNumbered_replaceByCopy _ target isNumbered) _

theorem CallInlining.isNumbered_apply (edit : CallInlining) (numbered : shader.IsNumbered) :
    (edit.apply shader).IsNumbered := by
  unfold apply
  dsimp only
  split
  · exact numbered
  · rename_i stmts _
    have draws := shader.draws_refreshStmts stmts
    refine numbered.replaceStmt (draws.trans (Shader.draws_freshId _)) fun s _ isTarget => ?_
    have body := (shader.renews_refreshStmts stmts []).draw draws.forward
    have whole : [edit.stmt].Sublist s.ids := by
      rw [← isTarget]
      exact List.singleton_sublist.mpr s.id_mem_ids
    exact (body.cons edit.stmt).trans_sublist whole

/-! ## Declarations -/

theorem FunctionRemoval.isNumbered_apply (edit : FunctionRemoval) (numbered : shader.IsNumbered) :
    (edit.apply shader).IsNumbered :=
  numbered.removeDecl edit.decl

theorem StructRemoval.isNumbered_apply (edit : StructRemoval) (numbered : shader.IsNumbered) :
    (edit.apply shader).IsNumbered :=
  numbered.removeDecl edit.decl

theorem ids_withoutArg_sublist (position : Nat) (e : Expr) :
    (withoutArg position e).ids.Sublist e.ids := by
  cases e with
  | call id callee args =>
      rw [withoutArg, Expr.ids, Expr.ids, Expr.idsOfList_eq_flatMap, Expr.idsOfList_eq_flatMap]
      exact ((List.eraseIdx_sublist args position).flatMap Expr.ids).cons_cons id
  | _ => exact .refl _

theorem ParamRemoval.isNumbered_apply (edit : ParamRemoval) (numbered : shader.IsNumbered) :
    (edit.apply shader).IsNumbered := by
  unfold apply
  split
  · exact numbered
  · rename_i f found
    split
    · exact numbered
    · rename_i position _
      refine Shader.IsNumbered.modifyExprs ?_ _ (ids_withoutArg_sublist position)
      refine numbered.replaceFunction (.refl shader) found (.of_sublist ?_)
      have fewer := (List.eraseIdx_sublist f.params position).map Param.id
      exact (fewer.append (.refl _)).cons_cons f.id

theorem FieldRemoval.isNumbered_apply (edit : FieldRemoval) (numbered : shader.IsNumbered) :
    (edit.apply shader).IsNumbered := by
  unfold apply
  split
  · exact numbered
  · rename_i decl found
    split
    · exact numbered
    · rename_i position _
      refine Shader.IsNumbered.modifyExprs ?_ _ (ids_withoutArg_sublist edit.position)
      refine numbered.replaceStruct (.refl shader) found (.of_sublist ?_)
      exact ((List.eraseIdx_sublist decl.fields position).map Field.id).cons_cons decl.id

theorem ids_spliceArgs_sublist (position : Nat) (e : Expr) :
    (FieldFlattening.spliceArgs position e).ids.Sublist e.ids := by
  cases e with
  | call id callee args =>
      rw [FieldFlattening.spliceArgs]
      split
      · exact .refl _
      · rename_i nestedId nestedCallee nested isNested
        rcases List.getElem?_eq_some_iff.mp isNested with ⟨inRange, isNested⟩
        have around : args = args.take position ++
            (.call nestedId nestedCallee nested :: args.drop (position + 1)) := by
          rw [← isNested, List.getElem_cons_drop, List.take_append_drop]
        refine List.Sublist.cons_cons id ?_
        conv => rhs; rw [around]
        rw [Expr.idsOfList_append, Expr.idsOfList_append, Expr.idsOfList_append,
          List.append_assoc]
        exact (List.Sublist.refl _).append
          ((List.sublist_cons_self nestedId _).append (.refl _))
      · rw [Expr.ids, Expr.ids, Expr.idsOfList_eq_flatMap, Expr.idsOfList_eq_flatMap]
        exact ((List.eraseIdx_sublist args position).flatMap Expr.ids).cons_cons id
  | _ => exact .refl _

theorem ids_flattenAccess_sublist (e : Expr) :
    (FieldFlattening.flattenAccess e).ids.Sublist e.ids := by
  unfold FieldFlattening.flattenAccess
  split
  · rename_i id memberId base field inner
    exact (List.sublist_cons_self memberId _).cons_cons id
  · exact .refl _

theorem FieldFlattening.renews_fields (edit : FieldFlattening) (shader : Shader)
    (inner outer : StructDecl) :
    Renews shader.nextId (shader.nextId + (edit.flattened shader.nextId inner).length)
      (Decl.struct outer).ids
      (Decl.struct { outer with
        fields := outer.fields.take edit.position ++ edit.flattened shader.nextId inner ++
          outer.fields.drop (edit.position + 1) }).ids := by
  have new : Renews shader.nextId
      (shader.nextId + (edit.flattened shader.nextId inner).length) []
      ((edit.flattened shader.nextId inner).map Field.id) := by
    rw [flattened, Field.map_id_numberedList, Field.numberedList, List.length_mapIdx]
    exact .range' _ _
  have kept : (outer.fields.take edit.position ++
      outer.fields.drop (edit.position + 1)).Sublist outer.fields := by
    rw [← List.eraseIdx_eq_take_drop_succ]
    exact List.eraseIdx_sublist _ _
  have keptIds := kept.map Field.id
  rw [List.map_append] at keptIds
  rw [Decl.ids, Decl.ids, List.map_append, List.map_append]
  exact (new.insert keptIds).cons outer.id

theorem FieldFlattening.isNumbered_apply (edit : FieldFlattening) (numbered : shader.IsNumbered) :
    (edit.apply shader).IsNumbered := by
  unfold apply
  split
  · exact numbered
  · rename_i inner _
    have draws : shader.Draws { shader with
        nextId := shader.nextId + (edit.flattened shader.nextId inner).length } :=
      ⟨rfl, Nat.le_add_right _ _⟩
    dsimp only
    split
    · exact numbered.draws draws
    · rename_i outer found
      split
      · exact numbered.draws draws
      · refine Shader.IsNumbered.modifyExprs ?_ _ ids_flattenAccess_sublist
        refine Shader.IsNumbered.modifyExprs ?_ _ (ids_spliceArgs_sublist edit.position)
        exact numbered.replaceStruct draws found (edit.renews_fields shader inner outer)

theorem SoleField.ids_fieldInit (edit : SoleField) (memberId : NodeId) (init : Expr) :
    (edit.fieldInit memberId init).ids.Sublist (memberId :: init.ids) := by
  unfold fieldInit
  split
  · rename_i id callee arg
    split
    · rw [Expr.ids, Expr.idsOfList, Expr.idsOfList, List.append_nil]
      exact ((List.Sublist.refl _).cons id).cons memberId
    · exact .refl _
  · exact .refl _

/-- The declaration of the field may need an identifier for an access to it. -/
theorem SoleField.isNumbered_declare (edit : SoleField) (numbered : shader.IsNumbered) :
    ((shader.freshId.2.modifyStmt? edit.declStmt (edit.fieldDecl shader.freshId.1)).getD
      shader.freshId.2).IsNumbered := by
  refine numbered.modifyStmt shader.draws_freshId fun s _ _ => ?_
  cases s with
  | decl id var =>
      rcases var with ⟨varId, qualifier, ty, name, init⟩
      refine Renews.cons id (Renews.cons varId ?_)
      cases init with
      | none => exact .of_sublist (.refl _)
      | some init =>
          have member := (Renews.of_sublist (.refl init.ids)).draw (Nat.le_refl shader.nextId)
          exact member.sublist_trans (edit.ids_fieldInit shader.nextId init)
  | _ => exact .of_sublist (.refl _)

theorem SoleField.isNumbered_apply (edit : SoleField) (numbered : shader.IsNumbered) :
    (edit.apply shader).IsNumbered := by
  unfold apply
  split
  rename_i memberId drawn isDrawn
  cases isDrawn
  split
  · exact numbered.draws shader.draws_freshId
  · refine Shader.IsNumbered.foldl (fun before access isNumbered => ?_)
      (edit.isNumbered_declare numbered) _
    refine isNumbered.replaceExpr before.draws_freshId fun e _ _ => ?_
    exact (Renews.range' before.nextId 1).trans_sublist (List.nil_sublist e.ids)

theorem VectorSplit.draws_scalarDecls (shader : Shader) (varName : String) (ty : Scalar)
    (component : Nat) (args : List Expr) :
    shader.Draws (scalarDecls varName ty shader component args).2 := by
  induction args generalizing shader component with
  | nil => exact .refl shader
  | cons arg rest inductionHypothesis =>
      exact (shader.draws_freshId.trans (Shader.draws_freshId _)).trans
        (inductionHypothesis _ (component + 1))

/-- The declarations of the scalars have the identifiers of the arguments and
drawn ones. -/
theorem VectorSplit.renews_scalarDecls (shader : Shader) (varName : String) (ty : Scalar)
    (component : Nat) (args : List Expr) :
    Renews shader.nextId (scalarDecls varName ty shader component args).2.nextId
      (Expr.idsOfList args) (Stmt.idsOfList (scalarDecls varName ty shader component args).1) := by
  induction args generalizing shader component with
  | nil => exact .of_sublist (.refl _)
  | cons arg rest inductionHypothesis =>
      have var := (Renews.of_sublist (.refl arg.ids)).draw (Nat.le_refl shader.nextId)
      have decl := var.draw (Nat.le_succ shader.nextId)
      have drawn := shader.draws_freshId.trans (Shader.draws_freshId _)
      have others := draws_scalarDecls shader.freshId.2.freshId.2 varName ty (component + 1) rest
      exact decl.append (inductionHypothesis _ (component + 1)) drawn.forward others.forward

/-- The scalars take the place of the vector whose initialiser they are built from. -/
theorem VectorSplit.isNumbered_declareScalars (edit : VectorSplit) (numbered : shader.IsNumbered)
    {var : VarDecl} (isDeclared : (shader.findStmt? edit.declStmt).bind Stmt.declared? = some var)
    {callee : String} {args : List Expr} (isBuilt : var.init.bind Expr.call? = some (callee, args))
    (ty : Scalar) :
    ((scalarDecls edit.varName ty shader 0 args).2.replaceStmtWith edit.declStmt
      (scalarDecls edit.varName ty shader 0 args).1).1.IsNumbered := by
  refine numbered.replaceStmtWith (draws_scalarDecls shader edit.varName ty 0 args)
    fun other listed isTarget => ?_
  rcases Option.bind_eq_some_iff.mp isDeclared with ⟨s, isFound, declares⟩
  rcases Option.bind_eq_some_iff.mp isBuilt with ⟨init, hasInit, isCall⟩
  rw [numbered.eq_of_findStmt? isFound listed isTarget]
  refine ((renews_scalarDecls shader edit.varName ty 0 args).cons s.id).trans_sublist ?_
  cases s <;> cases declares
  rename_i id
  rcases var with ⟨varId, qualifier, varTy, name, _⟩
  cases hasInit
  cases init <;> cases isCall
  exact ((List.sublist_cons_self _ _).trans (List.sublist_cons_self varId _)).cons_cons id

theorem VectorSplit.isNumbered_replaceAccess (edit : VectorSplit) (access : NodeId × Nat)
    (numbered : shader.IsNumbered) : (edit.replaceAccess shader access).IsNumbered :=
  numbered.replaceExpr shader.draws_freshId fun e _ _ =>
    (Renews.range' shader.nextId 1).trans_sublist (List.nil_sublist e.ids)

theorem VectorSplit.isNumbered_apply (edit : VectorSplit) (numbered : shader.IsNumbered) :
    (edit.apply shader).IsNumbered := by
  unfold apply
  dsimp only
  split
  · exact numbered
  · rename_i ty args found
    simp only [Option.bind_eq_bind, Option.bind_eq_some_iff, Option.some.injEq,
      Prod.mk.injEq] at found
    rcases found with ⟨var, isDeclared, _, _, call, isBuilt, _, rfl⟩
    exact .foldl (fun _ access isNumbered => edit.isNumbered_replaceAccess access isNumbered)
      (edit.isNumbered_declareScalars numbered (Option.bind_eq_some_iff.mpr isDeclared)
        (Option.bind_eq_some_iff.mpr isBuilt) ty) _

/-- Every edit keeps a numbered shader numbered, wherever it was found. -/
theorem Edit.isNumbered_apply (edit : Edit) (numbered : shader.IsNumbered) :
    (edit.apply shader).IsNumbered := by
  cases edit with
  | loopMerge edit => exact edit.isNumbered_apply numbered
  | removeStructField edit => exact edit.isNumbered_apply numbered
  | destructify edit => exact edit.isNumbered_apply numbered
  | unusedStruct edit => exact edit.isNumbered_apply numbered
  | inlineStructField edit => exact edit.isNumbered_apply numbered
  | outlinedStatement edit => exact edit.isNumbered_apply numbered
  | declaration edit => exact edit.isNumbered_apply numbered
  | unwrap edit => exact edit.isNumbered_apply numbered
  | unswitchify edit => exact edit.isNumbered_apply numbered
  | vectorization edit => exact edit.isNumbered_apply numbered
  | function edit => exact edit.isNumbered_apply numbered
  | statement edit => exact edit.isNumbered_apply numbered
  | exprToConstant edit => exact edit.isNumbered_apply numbered
  | compoundExprToSubExpr edit => exact edit.isNumbered_apply numbered
  | mutation edit => exact edit.isNumbered_apply numbered
  | compoundToBlock edit => exact edit.isNumbered_apply numbered
  | inlineInitializer edit => exact edit.isNumbered_apply numbered
  | inlineFunction edit => exact edit.isNumbered_apply numbered
  | liveFragColorWrite edit => exact edit.isNumbered_apply numbered
  | unusedParam edit => exact edit.isNumbered_apply numbered

end Reduction
end Whittle
