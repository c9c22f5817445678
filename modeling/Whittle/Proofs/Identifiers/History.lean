import Whittle.Proofs.Identifiers.Edits
import Whittle.Proofs.Parse.Reader
import Whittle.Session

namespace Whittle

/-!
# Histories of edited shaders

A history starts with a shader that was read or numbered, and goes on with
edits, removals, and new nodes that are put in under new identifiers.  An edit
may come from a search of any state of the history, so by the time it is applied
its targets may have changed or gone.  No state of a history has an identifier
on two nodes, or on a node before it was handed out.
-/

namespace Shader

/-- The steps from one state to the next.  An edit may be one that was found in
any of the states `earlier`. -/
inductive Step (earlier : List Shader) (shader : Shader) : Shader → Prop
  | edit {state : Shader} {kind : Reduction.Kind} {scan : Reduction.Scan}
      {edits : List Reduction.Edit} {edit : Reduction.Edit} (isEarlier : state ∈ earlier)
      (found : kind.find scan state = .ok edits) (isFound : edit ∈ edits) :
      Step earlier shader (edit.apply shader)
  | removeStmt (target : NodeId) : Step earlier shader (shader.removeStmt target).1
  | removeDecl (target : NodeId) : Step earlier shader (shader.removeDecl target).1
  | freshId : Step earlier shader shader.freshId.2
  | putExpr (target : NodeId) (e : Expr) : Step earlier shader (shader.putExpr target e).1
  | putStmt (target : NodeId) (s : Stmt) : Step earlier shader (shader.putStmt target s).1
  | putStmts (target : NodeId) (stmts : List Stmt) :
      Step earlier shader (shader.putStmts target stmts).1

/-- The states that a shader goes through, the newest first. -/
inductive History : List Shader → Prop
  | read {text : String} {shader : Shader} (isRead : Shader.parse text = .ok shader) :
      History [shader]
  | numbered (version : Version) (decls : List Decl) : History [ofDecls version decls]
  | step {shader next : Shader} {past : List Shader} (history : History (shader :: past))
      (step : Step (shader :: past) shader next) : History (next :: shader :: past)

variable {shader : Shader}

theorem IsNumbered.putExpr (numbered : shader.IsNumbered) (target : NodeId) (e : Expr) :
    (shader.putExpr target e).1.IsNumbered :=
  numbered.replaceExpr (shader.draws_refreshExpr e) fun part _ _ =>
    shader.renews_refreshExpr e part.ids

theorem IsNumbered.putStmt (numbered : shader.IsNumbered) (target : NodeId) (s : Stmt) :
    (shader.putStmt target s).1.IsNumbered :=
  numbered.replaceStmt (shader.draws_refreshStmt s) fun part _ _ =>
    shader.renews_refreshStmt s part.ids

theorem IsNumbered.putStmts (numbered : shader.IsNumbered) (target : NodeId)
    (stmts : List Stmt) : (shader.putStmts target stmts).1.IsNumbered := by
  refine numbered.replaceStmtWith (shader.draws_refreshStmts stmts) fun part _ _ => ?_
  have whole := List.singleton_sublist.mpr part.id_mem_ids
  exact ((shader.renews_refreshStmts stmts []).cons part.id).trans_sublist whole

theorem Step.isNumbered {earlier : List Shader} {next : Shader} (step : Step earlier shader next)
    (numbered : shader.IsNumbered) : next.IsNumbered := by
  cases step with
  | edit _ _ _ => exact Reduction.Edit.isNumbered_apply _ numbered
  | removeStmt target => exact numbered.removeStmt target
  | removeDecl target => exact numbered.removeDecl target
  | freshId => exact numbered.draws shader.draws_freshId
  | putExpr target e => exact numbered.putExpr target e
  | putStmt target s => exact numbered.putStmt target s
  | putStmts target stmts => exact numbered.putStmts target stmts

/-- In every state of a history, all nodes have different identifiers, and the
identifier that is handed out next is larger than all of them. -/
theorem History.ids_nodup_and_lt_freshId {states : List Shader} (history : History states) :
    ∀ state ∈ states, state.ids.Nodup ∧ ∀ id ∈ state.ids, id < state.freshId.1 := by
  induction history with
  | read isRead =>
      rcases eq_ofDecls_of_parse isRead with ⟨version, decls, rfl⟩
      exact List.forall_mem_singleton.mpr (isNumbered_ofDecls version decls)
  | numbered version decls => exact List.forall_mem_singleton.mpr (isNumbered_ofDecls version decls)
  | step _ step inductionHypothesis =>
      refine List.forall_mem_cons.mpr ⟨?_, inductionHypothesis⟩
      exact step.isNumbered (inductionHypothesis _ List.mem_cons_self)

/-- The shader `void main() { int t = 1; int u = t + t; }`. -/
def doubling : Shader :=
  ofDecls .essl300 [.function ⟨.unnumbered, .void, "main", [], ⟨.unnumbered,
    [.decl .unnumbered ⟨.unnumbered, none, .int, "t", some (.int .unnumbered 1)⟩,
      .decl .unnumbered ⟨.unnumbered, none, .int, "u", some (.binary .unnumbered .add
        (.var .unnumbered "t") (.var .unnumbered "t"))⟩]⟩⟩]

/-- The shader in which the initialiser of `t` has taken the place of both
references to it. -/
def doubled : Shader :=
  (Reduction.Edit.inlineInitializer ⟨2, "t"⟩).apply doubling

/-- The second copy of the initialiser has identifiers of its own.  Applied once
more, the edit has lost its targets. -/
theorem history_doubled :
    History [(Reduction.Edit.inlineInitializer ⟨2, "t"⟩).apply doubled, doubled, doubling] ∧
      doubled.ids = [0, 1, 2, 3, 4, 5, 6, 7, 11, 10, 13, 12] ∧
      doubled.ids.Nodup ∧ ∀ id ∈ doubled.ids, id < doubled.freshId.1 := by
  have found : Reduction.Kind.find .inlineInitializer ⟨.essl300, true⟩ doubling =
      .ok [.inlineInitializer ⟨2, "t"⟩] := by
    rfl
  have once : History [doubled, doubling] :=
    .step (.numbered _ _) (.edit List.mem_cons_self found List.mem_cons_self)
  have twice : History [(Reduction.Edit.inlineInitializer ⟨2, "t"⟩).apply doubled, doubled, doubling] :=
    .step once (.edit (List.mem_cons_of_mem _ List.mem_cons_self) found List.mem_cons_self)
  exact ⟨twice, by decide,
    twice.ids_nodup_and_lt_freshId doubled (List.mem_cons_of_mem _ List.mem_cons_self)⟩

end Shader
end Whittle
