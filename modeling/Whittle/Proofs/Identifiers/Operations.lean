import Whittle.Proofs.Identifiers.Exchange
import Whittle.Syntax.Numbering
import Whittle.Syntax.Target

namespace Whittle

/-!
# Operations that keep identifiers apart

Each operation on a shader keeps it numbered: what it puts in the place of a
node has identifiers of that node or newly drawn ones, each of them once.  Often
identifiers are drawn before the operation takes place, so its statement is
about a numbered shader and what was drawn from it.
-/

/-- `drawn` is the shader after some identifiers were drawn. -/
structure Shader.Draws (shader drawn : Shader) : Prop where
  decls : drawn.decls = shader.decls
  forward : (shader.nextId : Nat) ≤ drawn.nextId

namespace Shader

variable {shader drawn drawn' : Shader}

theorem Draws.refl (shader : Shader) : shader.Draws shader :=
  ⟨rfl, Nat.le_refl _⟩

theorem Draws.trans (first : shader.Draws drawn) (second : drawn.Draws drawn') :
    shader.Draws drawn' :=
  ⟨second.decls.trans first.decls, Nat.le_trans first.forward second.forward⟩

theorem draws_freshId (shader : Shader) : shader.Draws shader.freshId.2 :=
  ⟨rfl, Nat.le_succ _⟩

theorem draws_refreshExpr (shader : Shader) (e : Expr) :
    shader.Draws (shader.refreshExpr e).2 :=
  ⟨rfl, Nat.le_add_right _ _⟩

theorem draws_refreshStmt (shader : Shader) (s : Stmt) :
    shader.Draws (shader.refreshStmt s).2 :=
  ⟨rfl, Nat.le_add_right _ _⟩

theorem draws_refreshStmts (shader : Shader) (stmts : List Stmt) :
    shader.Draws (shader.refreshStmts stmts).2 :=
  ⟨rfl, Nat.le_add_right _ _⟩

theorem Draws.ids_eq (draws : shader.Draws drawn) : drawn.ids = shader.ids := by
  rw [ids, ids, draws.decls]

theorem Draws.exprs_eq (draws : shader.Draws drawn) : drawn.exprs = shader.exprs := by
  rw [exprs, exprs, roots, roots, draws.decls]

theorem Draws.stmts_eq (draws : shader.Draws drawn) : drawn.stmts = shader.stmts := by
  rw [stmts, stmts, draws.decls]

theorem IsNumbered.draws (numbered : shader.IsNumbered) (draws : shader.Draws drawn) :
    drawn.IsNumbered := by
  unfold IsNumbered
  rw [draws.ids_eq]
  exact ⟨numbered.1, fun id listed => Nat.lt_of_lt_of_le (numbered.2 id listed) draws.forward⟩

/-- What was just numbered consists of drawn identifiers. -/
theorem renews_refreshExpr (shader : Shader) (e : Expr) (dropped : List NodeId) :
    Renews shader.nextId (shader.refreshExpr e).2.nextId dropped (shader.refreshExpr e).1.ids := by
  have numbered := e.ids_numbered shader.nextId
  rw [refreshExpr, numbered]
  exact (Renews.range' shader.nextId e.size).trans_sublist (List.nil_sublist dropped)

theorem renews_refreshStmt (shader : Shader) (s : Stmt) (dropped : List NodeId) :
    Renews shader.nextId (shader.refreshStmt s).2.nextId dropped (shader.refreshStmt s).1.ids := by
  have numbered := s.ids_numbered shader.nextId
  rw [refreshStmt, numbered]
  exact (Renews.range' shader.nextId s.size).trans_sublist (List.nil_sublist dropped)

theorem renews_refreshStmts (shader : Shader) (stmts : List Stmt) (dropped : List NodeId) :
    Renews shader.nextId (shader.refreshStmts stmts).2.nextId dropped
      (Stmt.idsOfList (shader.refreshStmts stmts).1) := by
  have numbered := Stmt.idsOfList_numberedList shader.nextId stmts
  rw [refreshStmts, numbered]
  exact (Renews.range' shader.nextId (Stmt.sizeOfList stmts)).trans_sublist
    (List.nil_sublist dropped)

/-- Changing an expression keeps a shader numbered if the change keeps
identifiers of the expression or takes drawn ones. -/
theorem IsNumbered.modifyExpr {target : NodeId} {change : Expr → Expr}
    (numbered : shader.IsNumbered) (draws : shader.Draws drawn)
    (renews : ∀ e ∈ shader.exprs, e.id = target →
      Renews shader.nextId drawn.nextId e.ids (change e).ids) :
    ((drawn.modifyExpr? target change).getD drawn).IsNumbered := by
  cases found : drawn.modifyExpr? target change with
  | none => exact numbered.draws draws
  | some edited =>
      rcases exchange_of_modifyExpr? found with ⟨part, listed, isTarget, next, exchange⟩
      rw [draws.exprs_eq] at listed
      rw [draws.ids_eq] at exchange
      rw [Option.getD_some]
      refine numbered.exchange (next ▸ draws.forward) exchange ?_
      rw [next]
      exact renews part listed isTarget

theorem IsNumbered.replaceExpr {target : NodeId} {replacement : Expr}
    (numbered : shader.IsNumbered) (draws : shader.Draws drawn)
    (renews : ∀ e ∈ shader.exprs, e.id = target →
      Renews shader.nextId drawn.nextId e.ids replacement.ids) :
    (drawn.replaceExpr target replacement).1.IsNumbered :=
  numbered.modifyExpr draws renews

/-- Changing a statement keeps a shader numbered if the change keeps identifiers
of the statement or takes drawn ones. -/
theorem IsNumbered.modifyStmt {target : NodeId} {change : Stmt → Stmt}
    (numbered : shader.IsNumbered) (draws : shader.Draws drawn)
    (renews : ∀ s ∈ shader.stmts, s.id = target →
      Renews shader.nextId drawn.nextId s.ids (change s).ids) :
    ((drawn.modifyStmt? target change).getD drawn).IsNumbered := by
  cases found : drawn.modifyStmt? target change with
  | none => exact numbered.draws draws
  | some edited =>
      rcases exchange_of_modifyStmt? found with ⟨part, listed, isTarget, next, exchange⟩
      rw [draws.stmts_eq] at listed
      rw [draws.ids_eq] at exchange
      rw [Option.getD_some]
      refine numbered.exchange (next ▸ draws.forward) exchange ?_
      rw [next]
      exact renews part listed isTarget

theorem IsNumbered.replaceStmt {target : NodeId} {replacement : Stmt}
    (numbered : shader.IsNumbered) (draws : shader.Draws drawn)
    (renews : ∀ s ∈ shader.stmts, s.id = target →
      Renews shader.nextId drawn.nextId s.ids replacement.ids) :
    (drawn.replaceStmt target replacement).1.IsNumbered :=
  numbered.modifyStmt draws renews

/-- Putting statements in the place of one keeps a shader numbered if they keep
identifiers of that one or take drawn ones. -/
theorem IsNumbered.splice {target : NodeId} {replacement : List Stmt} {edited : Shader}
    (numbered : shader.IsNumbered) (draws : shader.Draws drawn)
    (found : drawn.splice? target replacement = some edited)
    (renews : ∀ s ∈ shader.stmts, s.id = target →
      Renews shader.nextId drawn.nextId s.ids (Stmt.idsOfList replacement)) :
    edited.IsNumbered := by
  rcases exchange_of_splice? found with ⟨part, listed, isTarget, next, exchange⟩
  rw [draws.stmts_eq] at listed
  rw [draws.ids_eq] at exchange
  refine numbered.exchange (next ▸ draws.forward) exchange ?_
  rw [next]
  exact renews part listed isTarget

/-- The replacement may end up in a block that keeps the identifier of the
statement, so it has to do without that one. -/
theorem IsNumbered.replaceStmtWith {target : NodeId} {replacement : List Stmt}
    (numbered : shader.IsNumbered) (draws : shader.Draws drawn)
    (renews : ∀ s ∈ shader.stmts, s.id = target →
      Renews shader.nextId drawn.nextId s.ids (s.id :: Stmt.idsOfList replacement)) :
    (drawn.replaceStmtWith target replacement).1.IsNumbered := by
  unfold Shader.replaceStmtWith
  split
  · rename_i edited found
    exact numbered.splice draws found fun s listed isTarget =>
      (renews s listed isTarget).sublist_trans (List.sublist_cons_self _ _)
  · refine numbered.modifyStmt (draws.trans drawn.draws_freshId) fun s listed isTarget => ?_
    have inBlock := (renews s listed isTarget).draw draws.forward
    exact inBlock.perm (List.Perm.swap _ _ _)

theorem IsNumbered.removeStmt (numbered : shader.IsNumbered) (target : NodeId) :
    (shader.removeStmt target).1.IsNumbered := by
  unfold Shader.removeStmt orUnchanged
  cases found : shader.splice? target [] with
  | some edited =>
      exact numbered.splice (.refl shader) found fun s _ _ => .of_sublist (List.nil_sublist _)
  | none =>
      refine numbered.modifyStmt (.refl shader) fun s _ _ => .of_sublist ?_
      rw [Stmt.ids]
      exact List.singleton_sublist.mpr s.id_mem_ids

theorem IsNumbered.removeDecl (numbered : shader.IsNumbered) (target : NodeId) :
    (shader.removeDecl target).1.IsNumbered := by
  have fewer : (shader.removeDecl target).1.ids.Sublist shader.ids :=
    List.eraseP_sublist.flatMap Decl.ids
  exact ⟨numbered.1.sublist fewer, fun id listed => numbered.2 id (fewer.subset listed)⟩

/-- A shader stays numbered under steps that keep it so, one for each member of
a list. -/
theorem IsNumbered.foldl {α : Type} {step : Shader → α → Shader}
    (keeps : ∀ before a, before.IsNumbered → (step before a).IsNumbered)
    (numbered : shader.IsNumbered) (items : List α) : (items.foldl step shader).IsNumbered :=
  List.foldlRecOn items step numbered fun before isNumbered a _ => keeps before a isNumbered

/-- Changing expressions one after the other keeps a shader numbered if each
change only keeps identifiers. -/
theorem IsNumbered.modifyExprs {change : Expr → Expr} (numbered : shader.IsNumbered)
    (targets : List NodeId) (keeps : ∀ e, (change e).ids.Sublist e.ids) :
    (shader.modifyExprs targets change).IsNumbered := by
  refine IsNumbered.foldl (fun before target isNumbered => ?_) numbered targets
  exact isNumbered.modifyExpr (.refl before) fun e _ _ => .of_sublist (keeps e)

theorem id_of_findStmt? {target : NodeId} {s : Stmt} (found : shader.findStmt? target = some s) :
    s.id = target := by
  have fits := List.find?_some found
  exact beq_iff_eq.mp fits

theorem id_of_findExpr? {target : NodeId} {e : Expr} (found : shader.findExpr? target = some e) :
    e.id = target := by
  have fits := List.find?_some found
  exact beq_iff_eq.mp fits

/-- An expression is found by its identifier. -/
theorem findExpr?_id (distinct : shader.ids.Nodup) {e : Expr} (listed : e ∈ shader.exprs) :
    shader.findExpr? e.id = some e := by
  cases found : shader.findExpr? e.id with
  | none => exact absurd (beq_self_eq_true e.id) (List.find?_eq_none.mp found e listed)
  | some other =>
      rw [expr_eq_of_id_eq distinct (List.mem_of_find?_eq_some found) listed (id_of_findExpr? found)]

/-- The statement that is found is the only one of its identifier. -/
theorem IsNumbered.eq_of_findStmt? {target : NodeId} {s other : Stmt}
    (numbered : shader.IsNumbered) (found : shader.findStmt? target = some s)
    (listed : other ∈ shader.stmts) (isTarget : other.id = target) : other = s :=
  stmt_eq_of_id_eq numbered.1 listed (List.mem_of_find?_eq_some found)
    (isTarget.trans (id_of_findStmt? found).symm)

/-- The expression that is found is the only one of its identifier. -/
theorem IsNumbered.eq_of_findExpr? {target : NodeId} {e other : Expr}
    (numbered : shader.IsNumbered) (found : shader.findExpr? target = some e)
    (listed : other ∈ shader.exprs) (isTarget : other.id = target) : other = e :=
  expr_eq_of_id_eq numbered.1 listed (List.mem_of_find?_eq_some found)
    (isTarget.trans (id_of_findExpr? found).symm)

theorem IsNumbered.promoteExpr (numbered : shader.IsNumbered) (target sub : NodeId) :
    (shader.promoteExpr target sub).IsNumbered := by
  unfold Shader.promoteExpr
  split
  · rename_i kept found
    rcases Option.bind_eq_some_iff.mp found with ⟨e, isFound, inside⟩
    refine numbered.replaceExpr (.refl shader) fun other listed isTarget => .of_sublist ?_
    rw [numbered.eq_of_findExpr? isFound listed isTarget]
    exact Expr.ids_sublist_of_mem_subexprs (List.mem_of_find?_eq_some inside)
  · exact numbered

/-- Replacing a declaration keeps a shader numbered if the new one keeps
identifiers of the old one or takes drawn ones. -/
theorem IsNumbered.modifyDecl {change? : Decl → Option Decl} (numbered : shader.IsNumbered)
    (draws : shader.Draws drawn)
    (renews : ∀ before decl decl' behind, shader.decls = before ++ decl :: behind →
      (∀ passed ∈ before, change? passed = none) → change? decl = some decl' →
      Renews shader.nextId drawn.nextId decl.ids decl'.ids) :
    ((drawn.modifyDecl? change?).getD drawn).IsNumbered := by
  cases found : drawn.modifyDecl? change? with
  | none => exact numbered.draws draws
  | some edited =>
      rcases Option.map_eq_some_iff.mp found with ⟨decls, isFound, rfl⟩
      rcases Decl.exists_of_modifyFirst? isFound with
        ⟨before, decl, decl', behind, split, rfl, changed, passed⟩
      rw [draws.decls] at split
      have exchange : Exchange shader.ids ((before ++ decl' :: behind).flatMap Decl.ids) decl.ids
          decl'.ids := by
        rw [ids, split, List.flatMap_append, List.flatMap_append]
        exact (Exchange.whole _ _).around _ _
      exact numbered.exchange draws.forward exchange
        (renews before decl decl' behind split passed changed)

private theorem find?_filterMap_of_split {α β : Type} {view? : α → Option β} {fits : β → Bool}
    {before behind : List α} {a : α} {b : β} (isView : view? a = some b) (isFit : fits b = true)
    (skipped : ∀ passed ∈ before, ∀ c, view? passed = some c → fits c = false) :
    ((before ++ a :: behind).filterMap view?).find? fits = some b := by
  rw [List.filterMap_append, List.find?_append, List.filterMap_cons_some isView,
    List.find?_cons_of_pos isFit]
  have none : (before.filterMap view?).find? fits = none := by
    refine List.find?_eq_none.mpr fun c listed => ?_
    rcases List.mem_filterMap.mp listed with ⟨passed, isBefore, isSeen⟩
    rw [skipped passed isBefore c isSeen]
    exact Bool.false_ne_true
  rw [none, Option.none_or]

theorem IsNumbered.replaceStruct {name : String} {decl replacement : StructDecl}
    (numbered : shader.IsNumbered) (draws : shader.Draws drawn)
    (found : shader.struct? name = some decl)
    (renews : Renews shader.nextId drawn.nextId (Decl.struct decl).ids
      (Decl.struct replacement).ids) :
    (drawn.replaceStruct name replacement).IsNumbered := by
  refine numbered.modifyDecl draws fun before changed _ behind split passed isChanged => ?_
  cases changed with
  | precision | global | function => cases isChanged
  | struct other =>
      simp only [Option.ite_none_right_eq_some] at isChanged
      rcases isChanged with ⟨named, replaced⟩
      cases replaced
      have skipped : ∀ earlier ∈ before, ∀ d, earlier.struct? = some d → (d.name == name) = false := by
        intro earlier isBefore d isStruct
        have refused := passed earlier isBefore
        cases earlier <;> cases isStruct
        simpa only [ite_eq_right_iff, reduceCtorEq, imp_false, Bool.not_eq_true] using refused
      have first : shader.struct? name = some other := by
        rw [struct?, structs, split]
        exact find?_filterMap_of_split (a := Decl.struct other) rfl named skipped
      rw [Option.some.inj (first.symm.trans found)]
      exact renews

theorem IsNumbered.replaceFunction {name : String} {f replacement : Function}
    (numbered : shader.IsNumbered) (draws : shader.Draws drawn)
    (found : shader.function? name = some f)
    (renews : Renews shader.nextId drawn.nextId (Decl.function f).ids
      (Decl.function replacement).ids) :
    (drawn.replaceFunction name replacement).IsNumbered := by
  refine numbered.modifyDecl draws fun before changed _ behind split passed isChanged => ?_
  cases changed with
  | precision | global | struct => cases isChanged
  | function other =>
      simp only [Option.ite_none_right_eq_some] at isChanged
      rcases isChanged with ⟨named, replaced⟩
      cases replaced
      have skipped : ∀ earlier ∈ before, ∀ g, earlier.function? = some g →
          (g.name == name) = false := by
        intro earlier isBefore g isFunction
        have refused := passed earlier isBefore
        cases earlier <;> cases isFunction
        simpa only [ite_eq_right_iff, reduceCtorEq, imp_false, Bool.not_eq_true] using refused
      have first : shader.function? name = some other := by
        rw [function?, functions, split]
        exact find?_filterMap_of_split (a := Decl.function other) rfl named skipped
      rw [Option.some.inj (first.symm.trans found)]
      exact renews

end Shader
end Whittle
