import Whittle.Proofs.Syntax.Slot
import Whittle.Reduction.Edit

namespace Whittle

/-!
# Edits whose targets are gone

An edit records identifiers of the nodes that it is about.  On a shader that has none of these
nodes it does nothing, whatever else the shader holds: the names, shapes and numbers that an edit
also records count only at the nodes that it finds.  It may have drawn identifiers before it
found out.  The removal of a parameter is the exception, because it goes by names.
-/

theorem Decl.id_mem_ids (decl : Decl) : decl.id ∈ decl.ids := by
  cases decl <;> exact List.mem_cons_self

namespace Shader

variable {shader : Shader} {target : NodeId}

section

variable (absent : target ∉ shader.ids)
include absent

theorem findExpr?_eq_none : shader.findExpr? target = none :=
  List.find?_eq_none.mpr fun _ listed isTarget =>
    absent (beq_iff_eq.mp isTarget ▸ shader.map_id_exprs_sublist.subset (List.mem_map_of_mem listed))

theorem findStmt?_eq_none : shader.findStmt? target = none :=
  List.find?_eq_none.mpr fun _ listed isTarget =>
    absent (beq_iff_eq.mp isTarget ▸ shader.map_id_stmts_sublist.subset (List.mem_map_of_mem listed))

theorem modifyExpr?_eq_none (change : Expr → Expr) : shader.modifyExpr? target change = none := by
  cases found : shader.modifyExpr? target change with
  | none => rfl
  | some edited =>
      rcases exchange_of_modifyExpr? found with ⟨part, listed, isTarget, _⟩
      exact absurd (shader.map_id_exprs_sublist.subset (List.mem_map_of_mem listed))
        (isTarget ▸ absent)

theorem modifyStmt?_eq_none (change : Stmt → Stmt) : shader.modifyStmt? target change = none := by
  cases found : shader.modifyStmt? target change with
  | none => rfl
  | some edited =>
      rcases exchange_of_modifyStmt? found with ⟨part, listed, isTarget, _⟩
      exact absurd (shader.map_id_stmts_sublist.subset (List.mem_map_of_mem listed))
        (isTarget ▸ absent)

theorem splice?_eq_none (replacement : List Stmt) : shader.splice? target replacement = none := by
  cases found : shader.splice? target replacement with
  | none => rfl
  | some edited =>
      rcases exchange_of_splice? found with ⟨part, listed, isTarget, _⟩
      exact absurd (shader.map_id_stmts_sublist.subset (List.mem_map_of_mem listed))
        (isTarget ▸ absent)

theorem replaceExpr_eq_self (replacement : Expr) : (shader.replaceExpr target replacement).1 = shader := by
  rw [replaceExpr, modifyExpr?_eq_none absent]
  rfl

theorem replaceStmt_eq_self (replacement : Stmt) : (shader.replaceStmt target replacement).1 = shader := by
  rw [replaceStmt, modifyStmt?_eq_none absent]
  rfl

theorem removeStmt_eq_self : (shader.removeStmt target).1 = shader := by
  rw [removeStmt, splice?_eq_none absent, modifyStmt?_eq_none absent]
  rfl

theorem promoteExpr_eq_self (sub : NodeId) : shader.promoteExpr target sub = shader := by
  rw [promoteExpr, findExpr?_eq_none absent]
  rfl

theorem removeDecl_eq_self : (shader.removeDecl target).1 = shader := by
  have others : ∀ decl ∈ shader.decls, ¬ (decl.id == target) = true := fun decl listed isTarget =>
    absent (List.mem_flatMap.mpr ⟨decl, listed, beq_iff_eq.mp isTarget ▸ decl.id_mem_ids⟩)
  rw [removeDecl, List.eraseP_of_forall_not others]

/-- No struct has a field with the identifier. -/
theorem field_id_ne {name : String} {decl : StructDecl} (found : shader.struct? name = some decl)
    {field : Field} (isField : field ∈ decl.fields) : field.id ≠ target := by
  rintro rfl
  rcases List.mem_filterMap.mp (List.mem_of_find?_eq_some found) with ⟨other, listed, isStruct⟩
  cases other with
  | struct decl' =>
      cases isStruct
      exact absent (List.mem_flatMap.mpr ⟨.struct decl, listed,
        List.mem_cons_of_mem _ (List.mem_map_of_mem isField)⟩)
  | _ => cases isStruct

end

end Shader

namespace Reduction

variable {shader : Shader}

theorem LoopMerge.apply_eq_self {edit : LoopMerge} (absent : edit.second ∉ shader.ids) :
    edit.apply shader = shader := by
  rw [apply, Shader.findStmt?_eq_none absent]
  rfl

theorem FieldRemoval.apply_eq_self {edit : FieldRemoval} (absent : edit.field ∉ shader.ids) :
    edit.apply shader = shader := by
  unfold apply
  cases found : shader.struct? edit.struct with
  | none => rfl
  | some decl =>
      have nowhere : (decl.fields.findIdx? fun field => field.id == edit.field) = none :=
        List.findIdx?_eq_none_iff.mpr fun field listed =>
          beq_eq_false_iff_ne.mpr (Shader.field_id_ne absent found listed)
      simp only [nowhere]

/-- An identifier is drawn before the declaration is looked for. -/
theorem SoleField.apply_eq_freshId {edit : SoleField} (absent : edit.declStmt ∉ shader.ids) :
    edit.apply shader = shader.freshId.2 := by
  have gone : shader.freshId.2.findStmt? edit.declStmt = none := Shader.findStmt?_eq_none absent
  simp only [apply, gone, Option.bind_none]

/-- Identifiers for the new fields are drawn before the old one is looked for. -/
theorem FieldFlattening.exists_apply_eq {edit : FieldFlattening} (absent : edit.field ∉ shader.ids) :
    ∃ count, edit.apply shader = { shader with nextId := shader.nextId + count } := by
  unfold apply
  cases shader.struct? edit.inner with
  | none => exact ⟨0, rfl⟩
  | some inner =>
      refine ⟨(edit.flattened shader.nextId inner).length, ?_⟩
      cases found : ({ shader with
          nextId := shader.nextId + (edit.flattened shader.nextId inner).length } : Shader).struct?
            edit.outer with
      | none => simp only [found]
      | some outer =>
          have differ : outer.fields[edit.position]?.map Field.id ≠ some edit.field := by
            intro same
            rcases Option.map_eq_some_iff.mp same with ⟨field, isField, isTarget⟩
            have isStruct : shader.struct? edit.outer = some outer := found
            exact Shader.field_id_ne absent isStruct (List.mem_of_getElem? isField) isTarget
          simp only [found, bne_iff_ne, ne_eq, differ, not_false_eq_true, if_true]

theorem OutlinedCall.apply_eq_self {edit : OutlinedCall} (absent : edit.call ∉ shader.ids) :
    edit.apply shader = shader := by
  rw [apply, Shader.findExpr?_eq_none absent]
  rfl

def VarSite.id : VarSite → NodeId
  | .global decl => decl
  | .removedLocal stmt | .keptInit stmt => stmt

theorem VarRemoval.apply_eq_self {edit : VarRemoval} (absent : edit.site.id ∉ shader.ids) :
    edit.apply shader = shader := by
  cases edit with
  | mk site name =>
      cases site with
      | global decl => exact Shader.removeDecl_eq_self absent
      | removedLocal stmt => exact Shader.removeStmt_eq_self absent
      | keptInit stmt =>
          exact congrArg (Option.getD · shader) (Shader.modifyStmt?_eq_none absent initStmt)

theorem Unwrapping.apply_eq_self {edit : Unwrapping} (absent : edit.stmt ∉ shader.ids) :
    edit.apply shader = shader := by
  rw [apply, Shader.findStmt?_eq_none absent, Option.bind_none]

theorem SwitchChain.apply_eq_self {edit : SwitchChain} (absent : edit.stmt ∉ shader.ids) :
    edit.apply shader = shader := by
  rw [apply, Shader.findStmt?_eq_none absent]

theorem VectorSplit.apply_eq_self {edit : VectorSplit} (absent : edit.declStmt ∉ shader.ids) :
    edit.apply shader = shader := by
  rw [apply, Shader.findStmt?_eq_none absent]
  rfl

/-- The literal within the constructor call of a vector is drawn before the expression is
looked for. -/
theorem ConstantReplacement.exists_apply_eq {edit : ConstantReplacement}
    (absent : edit.expr ∉ shader.ids) :
    ∃ count, edit.apply shader = { shader with nextId := shader.nextId + count } := by
  unfold apply
  split
  · exact ⟨0, Shader.replaceExpr_eq_self absent _⟩
  · have absentBehind : edit.expr ∉ shader.freshId.2.ids := absent
    exact ⟨1, Shader.replaceExpr_eq_self absentBehind _⟩
  · exact ⟨0, rfl⟩
  · exact ⟨0, rfl⟩

theorem BodyPromotion.apply_eq_self {edit : BodyPromotion} (absent : edit.stmt ∉ shader.ids) :
    edit.apply shader = shader := by
  rw [apply, Shader.findStmt?_eq_none absent, Option.bind_none]

theorem InitInlining.apply_eq_self {edit : InitInlining} (absent : edit.declStmt ∉ shader.ids) :
    edit.apply shader = shader := by
  rw [apply, Shader.findStmt?_eq_none absent, Option.bind_none]

theorem CallInlining.apply_eq_self {edit : CallInlining} (absent : edit.stmt ∉ shader.ids) :
    edit.apply shader = shader := by
  rw [apply, Shader.findStmt?_eq_none absent]
  rfl

/-- The removal of a parameter goes by the names of the function and of the parameter. -/
theorem ParamRemoval.apply_eq_self {edit : ParamRemoval}
    (unnamed : ∀ f, shader.function? edit.function = some f → f.paramIndex? edit.param = none) :
    edit.apply shader = shader := by
  unfold apply
  cases found : shader.function? edit.function with
  | none => rfl
  | some f => simp only [unnamed f found]

def Edit.recordedIds : Edit → List NodeId
  | .loopMerge edit => [edit.first, edit.bound, edit.second]
  | .removeStructField edit => edit.field :: edit.constructors
  | .destructify edit => edit.declStmt :: edit.accesses
  | .unusedStruct edit => [edit.decl]
  | .inlineStructField edit => edit.field :: (edit.constructors ++ edit.accesses)
  | .outlinedStatement edit => [edit.stmt, edit.call]
  | .declaration edit => [edit.site.id]
  | .unwrap edit => [edit.stmt]
  | .unswitchify edit => [edit.stmt]
  | .vectorization edit => edit.declStmt :: edit.accesses.map Prod.fst
  | .function edit => [edit.decl]
  | .statement edit => [edit.stmt]
  | .exprToConstant edit => [edit.expr]
  | .compoundExprToSubExpr edit => [edit.expr, edit.operand]
  | .mutation edit => [edit.expr, edit.kept]
  | .compoundToBlock edit => [edit.stmt]
  | .inlineInitializer edit => [edit.declStmt]
  | .inlineFunction edit => [edit.stmt]
  | .liveFragColorWrite edit => [edit.block]
  | .unusedParam edit => [edit.id]

/-- An edit is stale on a shader that has none of the nodes that it records. -/
def Edit.IsStale (edit : Edit) (shader : Shader) : Prop :=
  ∀ id ∈ edit.recordedIds, id ∉ shader.ids

instance Edit.decidableIsStale (edit : Edit) (shader : Shader) : Decidable (edit.IsStale shader) :=
  inferInstanceAs (Decidable (∀ id ∈ edit.recordedIds, id ∉ shader.ids))

/-- A stale edit does nothing but draw identifiers, wherever it was found; the removal of a
parameter does so if there is no function with a parameter of these names. -/
theorem Edit.exists_apply_eq_of_isStale {edit : Edit} (stale : edit.IsStale shader)
    (unnamed : ∀ removal, edit = .unusedParam removal →
      ∀ f, shader.function? removal.function = some f → f.paramIndex? removal.param = none) :
    ∃ count, edit.apply shader = { shader with nextId := shader.nextId + count } := by
  have head : ∀ {id : NodeId} {rest : List NodeId}, edit.recordedIds = id :: rest →
      id ∉ shader.ids := fun split => stale _ (split ▸ List.mem_cons_self)
  cases edit with
  | loopMerge edit =>
      exact ⟨0, LoopMerge.apply_eq_self
        (stale edit.second (List.mem_cons_of_mem _ (List.mem_cons_of_mem _ List.mem_cons_self)))⟩
  | removeStructField edit => exact ⟨0, FieldRemoval.apply_eq_self (head rfl)⟩
  | destructify edit => exact ⟨1, SoleField.apply_eq_freshId (head rfl)⟩
  | unusedStruct edit => exact ⟨0, Shader.removeDecl_eq_self (head rfl)⟩
  | inlineStructField edit => exact FieldFlattening.exists_apply_eq (head rfl)
  | outlinedStatement edit =>
      exact ⟨0, OutlinedCall.apply_eq_self
        (stale edit.call (List.mem_cons_of_mem _ List.mem_cons_self))⟩
  | declaration edit => exact ⟨0, VarRemoval.apply_eq_self (head rfl)⟩
  | unwrap edit => exact ⟨0, Unwrapping.apply_eq_self (head rfl)⟩
  | unswitchify edit => exact ⟨0, SwitchChain.apply_eq_self (head rfl)⟩
  | vectorization edit => exact ⟨0, VectorSplit.apply_eq_self (head rfl)⟩
  | function edit => exact ⟨0, Shader.removeDecl_eq_self (head rfl)⟩
  | statement edit => exact ⟨0, Shader.removeStmt_eq_self (head rfl)⟩
  | exprToConstant edit => exact ConstantReplacement.exists_apply_eq (head rfl)
  | compoundExprToSubExpr edit => exact ⟨0, Shader.promoteExpr_eq_self (head rfl) edit.operand⟩
  | mutation edit => exact ⟨0, Shader.promoteExpr_eq_self (head rfl) edit.kept⟩
  | compoundToBlock edit => exact ⟨0, BodyPromotion.apply_eq_self (head rfl)⟩
  | inlineInitializer edit => exact ⟨0, InitInlining.apply_eq_self (head rfl)⟩
  | inlineFunction edit => exact ⟨0, CallInlining.apply_eq_self (head rfl)⟩
  | liveFragColorWrite edit => exact ⟨0, Shader.replaceStmt_eq_self (head rfl) _⟩
  | unusedParam edit => exact ⟨0, ParamRemoval.apply_eq_self (unnamed edit rfl)⟩

/-- `void main() { return; }`, yet to be numbered. -/
def idleMain : Decl :=
  .function ⟨.unnumbered, .void, "main", [], ⟨.unnumbered, [.ret .unnumbered none]⟩⟩

/-- `void f(float p) { return; }` with a name for the parameter, yet to be numbered. -/
def idleFunction (param : String) : Decl :=
  .function ⟨.unnumbered, .void, "f", [⟨.unnumbered, .float, param⟩],
    ⟨.unnumbered, [.ret .unnumbered none]⟩⟩

/-- The shader `float g() { return 1.0; } void main() { return; } void f(float p) { return; }`. -/
def threeFunctions : Shader :=
  .ofDecls .implied
    [.function ⟨.unnumbered, .float, "g", [], ⟨.unnumbered,
      [.ret .unnumbered (some (.float .unnumbered .one))]⟩⟩, idleMain, idleFunction "p"]

/-- Without `g` there is still a function `f`, but the nodes have other identifiers.  So `f`
stays, and so does its parameter if it has another name. -/
theorem exists_apply_eq_renumbered :
    (Kind.find .function ⟨.implied, true⟩ threeFunctions =
        .ok [.function ⟨0, "g"⟩, .function ⟨7, "f"⟩] ∧
      (Edit.function ⟨7, "f"⟩).IsStale (.ofDecls .implied [idleMain, idleFunction "p"]) ∧
      ∃ count, (Edit.function ⟨7, "f"⟩).apply (.ofDecls .implied [idleMain, idleFunction "p"]) =
        ⟨.implied, (Shader.ofDecls .implied [idleMain, idleFunction "p"]).decls, 7 + count⟩) ∧
    Kind.find .unusedParam ⟨.implied, true⟩ threeFunctions = .ok [.unusedParam ⟨"f", "p", 8⟩] ∧
      (Edit.unusedParam ⟨"f", "p", 8⟩).IsStale (.ofDecls .implied [idleMain, idleFunction "q"]) ∧
      ∃ count, (Edit.unusedParam ⟨"f", "p", 8⟩).apply (.ofDecls .implied [idleMain, idleFunction "q"]) =
        ⟨.implied, (Shader.ofDecls .implied [idleMain, idleFunction "q"]).decls, 7 + count⟩ := by
  have staleFunction :
      (Edit.function ⟨7, "f"⟩).IsStale (.ofDecls .implied [idleMain, idleFunction "p"]) := by decide
  have staleParam : (Edit.unusedParam ⟨"f", "p", 8⟩).IsStale
      (.ofDecls .implied [idleMain, idleFunction "q"]) := by decide
  refine ⟨⟨rfl, staleFunction, Edit.exists_apply_eq_of_isStale staleFunction nofun⟩, rfl, staleParam,
    Edit.exists_apply_eq_of_isStale staleParam ?_⟩
  rintro _ ⟨⟩ f isFunction
  cases isFunction
  rfl

/-- Where `f` still has a parameter of the name, it loses it, although the parameter that was
found is gone. -/
theorem decls_apply_renumbered_ne :
    Kind.find .unusedParam ⟨.implied, true⟩ threeFunctions = .ok [.unusedParam ⟨"f", "p", 8⟩] ∧
      (Edit.unusedParam ⟨"f", "p", 8⟩).IsStale (.ofDecls .implied [idleMain, idleFunction "p"]) ∧
      ((Edit.unusedParam ⟨"f", "p", 8⟩).apply (.ofDecls .implied [idleMain, idleFunction "p"])).decls ≠
        (Shader.ofDecls .implied [idleMain, idleFunction "p"]).decls := by
  refine ⟨rfl, by decide, fun same => ?_⟩
  have counts := congrArg (fun decls => (decls.filterMap Decl.function?).map fun f => f.params.length)
    same
  exact absurd counts (by decide)

end Reduction
end Whittle
