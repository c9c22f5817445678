import Whittle.Proofs.Reduction.Places

namespace Whittle

/-!
# Giving a function another body

A change within a function is, to the rest of the shader, a change of its body.
The body is a place like any other, with all of its statements as the run there
and nothing around it.  So a shader still follows the rules if the new body does
in the context of the old one, is not empty, and returns where the old one did.
-/

def Spot.ofBody (before : List Decl) (f : Function) (behind : List Decl) : Spot :=
  ⟨before, f, .here [] [], behind⟩

namespace Spot

variable {before behind : List Decl} {f : Function}

theorem slot_fill_ofBody (stmts : List Stmt) : (ofBody before f behind).slot.fill stmts = stmts := by
  simp only [ofBody, Slot.fill, List.nil_append, List.append_nil]

theorem fill_ofBody (before : List Decl) (f : Function) (behind : List Decl) (stmts : List Stmt) :
    (ofBody before f behind).fill stmts = before ++ .function (f.withStmts stmts) :: behind := by
  rw [fill, slot_fill_ofBody]
  rfl

/-- There is nothing around the whole body. -/
theorem unmentioned_ofBody (names : List String) :
    Reduction.Unmentioned names ((ofBody before f behind).slot.fill []) :=
  fun _ _ => ⟨List.not_mem_nil, List.not_mem_nil⟩

end Spot

namespace Shader

variable {shader edited : Shader} {version : Version} {before behind : List Decl} {f : Function}
  {stmts : List Stmt}

theorem decls_eq_fill_ofBody (isAt : shader.decls = before ++ .function f :: behind) :
    shader.decls = (Spot.ofBody before f behind).fill f.body.stmts := by
  rw [isAt, Spot.fill_ofBody]
  rfl

/-- A shader still follows the rules if a body is replaced by one that is accepted in its
context, is not empty, and returns if the old one did. -/
theorem followsRules_withStmts (follows : shader.FollowsRules version)
    (isAt : shader.decls = before ++ .function f :: behind)
    (isEdited : edited.decls = before ++ .function (f.withStmts stmts) :: behind)
    (notEmpty : stmts ≠ [])
    (accepted : (((Check.Context.initial version).behindDecls before).inFunction f).AcceptsList stmts)
    (returns : f.returnTy ≠ .void → f.body.stmts.any Stmt.holdsReturn = true →
      stmts.any Stmt.holdsReturn = true) :
    edited.FollowsRules version := by
  have isAtBody := decls_eq_fill_ofBody isAt
  have isEditedBody : edited.decls = (Spot.ofBody before f behind).fill stmts := by
    rw [isEdited, Spot.fill_ofBody]
  rcases (followsRules_fill_iff isAtBody (Spot.unmentioned_ofBody _)).mp follows with
    ⟨around, _, _, returned, main⟩
  rw [Spot.slot_fill_ofBody] at returned
  refine (followsRules_fill_iff isEditedBody (Spot.unmentioned_ofBody _)).mpr
    ⟨around, accepted, by rwa [Spot.slot_fill_ofBody], fun notVoid => ?_,
      Check.hasMain_fill isAtBody isEditedBody main⟩
  rw [Spot.slot_fill_ofBody]
  exact returns notVoid (returned notVoid)

/-- A body of a shader that follows the rules is accepted in its context. -/
theorem acceptsList_body (follows : shader.FollowsRules version)
    (isAt : shader.decls = before ++ .function f :: behind) :
    (((Check.Context.initial version).behindDecls before).inFunction f).AcceptsList f.body.stmts := by
  have decls := follows.decls
  rw [isAt, Check.Context.acceptsDecls_append_iff] at decls
  exact decls.2.1.body

/-- A body with fewer references makes a shader with fewer references. -/
theorem references_withStmts_subset (isAt : shader.decls = before ++ .function f :: behind)
    (isEdited : edited.decls = before ++ .function (f.withStmts stmts) :: behind)
    (fewer : ∀ bindings, Stmt.referencesOfList bindings stmts ⊆
      Stmt.referencesOfList bindings f.body.stmts) :
    edited.references ⊆ shader.references := by
  intro r isReference
  rw [mem_references_iff (isEdited.trans (Spot.fill_ofBody before f behind stmts).symm)
    (Spot.unmentioned_ofBody _)] at isReference
  rw [mem_references_iff (decls_eq_fill_ofBody isAt) (Spot.unmentioned_ofBody _)]
  exact isReference.imp_right (fewer _ ·)

/-- Where no two nodes have one identifier, a statement stands in one function. -/
theorem function_eq_of_mem_stmts (distinct : shader.ids.Nodup) {g : Function}
    (listed : f ∈ shader.functions) (listed' : g ∈ shader.functions) {s : Stmt} (inF : s ∈ f.stmts)
    (inG : s ∈ g.stmts) : g = f := by
  have isId : ∀ {h : Function}, s ∈ h.stmts → s.id ∈ (Decl.function h).ids := fun isInner =>
    (Decl.map_id_stmts_sublist (.function _)).subset (List.mem_map_of_mem isInner)
  exact Decl.function.inj (eq_of_mem_flatMap distinct (mem_functions_iff.mp listed')
    (mem_functions_iff.mp listed) (isId inG) (isId inF))

theorem mem_stmts_of_mem_functions (listed : f ∈ shader.functions) {s : Stmt}
    (isStmt : s ∈ f.stmts) : s ∈ shader.stmts :=
  List.mem_flatMap.mpr ⟨_, mem_functions_iff.mp listed, isStmt⟩

/-- A statement is found by its identifier. -/
theorem findStmt?_id (distinct : shader.ids.Nodup) {s : Stmt} (listed : s ∈ shader.stmts) :
    shader.findStmt? s.id = some s := by
  cases found : shader.findStmt? s.id with
  | none => exact absurd (beq_self_eq_true s.id) (List.find?_eq_none.mp found s listed)
  | some other =>
      rw [stmt_eq_of_id_eq distinct (List.mem_of_find?_eq_some found) listed (id_of_findStmt? found)]

theorem followsRules_of_decls_eq (same : edited.decls = shader.decls)
    (follows : shader.FollowsRules version) : edited.FollowsRules version := by
  refine ⟨same ▸ follows.decls, ?_⟩
  have main := follows.main
  rw [Check.HasMain, functions] at main ⊢
  rwa [same]

end Shader
end Whittle
