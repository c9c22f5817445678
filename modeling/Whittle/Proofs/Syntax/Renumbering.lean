import Whittle.Proofs.Syntax.Alike
import Whittle.Syntax.Numbering

namespace Whittle

/-!
# Numbering keeps the shape

A tree whose nodes are numbered anew is alike to whatever it was alike to
before, as far as its expressions are.
-/

/-- Where `R` holds of an expression, `S` holds of it under new identifiers. -/
def Renumbers (R S : Expr → Expr → Prop) : Prop :=
  ∀ (start : NodeId) {e e' : Expr}, R e e' → S e (e'.numbered start)

variable {R S : Expr → Expr → Prop}

theorem optionRel_numbered (into : Renumbers R S) (start : NodeId) {e? e?' : Option Expr} (related : Option.Rel R e? e?') :
    Option.Rel S e? (e?'.map (Expr.numbered start)) := by
  cases related with
  | none => exact .none
  | some related => exact .some (into start related)

theorem VarDecl.Alike.numbered (into : Renumbers R S) (start : NodeId) {var var' : VarDecl} (alike : var.Alike R var') :
    var.Alike S (var'.numbered start) :=
  ⟨alike.qualifier, alike.ty, alike.name, optionRel_numbered into (start + 1) alike.init⟩

mutual

theorem Stmt.Alike.numbered (into : Renumbers R S) (start : NodeId) {s s' : Stmt} (alike : s.Alike R s') :
    s.Alike S (s'.numbered start) := by
  cases s with
  | decl id var =>
      cases alike with
      | decl declared => exact .decl (declared.numbered into (start + 1))
  | expr id e =>
      cases alike with
      | expr evaluated => exact .expr (into (start + 1) evaluated)
  | block id scope stmts =>
      cases alike with
      | block within => exact .block (alikeList_numbered into (start + 2) within)
  | branch id cond whenTrue whenFalse =>
      cases alike with
      | branch tested first second =>
          refine .branch (into _ tested) (first.numbered into _) ?_
          cases second with
          | none => exact .none
          | some second => exact .some (second.numbered into _)
  | forLoop id init cond step body =>
      cases alike with
      | forLoop before tested behind within =>
          refine .forLoop ?_ (optionRel_numbered into _ tested) (optionRel_numbered into _ behind)
            (within.numbered into _)
          cases before with
          | none => exact .none
          | some before => exact .some (before.numbered into _)
  | whileLoop id cond body =>
      cases alike with
      | whileLoop tested within => exact .whileLoop (into _ tested) (within.numbered into _)
  | switch id selector cases =>
      cases alike with
      | switch selected within => exact .switch (into _ selected) (alikeCases_numbered into _ within)
  | ret id value =>
      cases alike with
      | ret returned => exact .ret (optionRel_numbered into _ returned)
  | breakOut => cases alike; exact .breakOut
  | continueLoop => cases alike; exact .continueLoop
  | discard => cases alike; exact .discard
  | empty => cases alike; exact .empty

theorem Stmt.alikeList_numbered (into : Renumbers R S) (start : NodeId) {stmts stmts' : List Stmt}
    (alike : List.Forall₂ (Stmt.Alike R) stmts stmts') :
    List.Forall₂ (Stmt.Alike S) stmts (Stmt.numberedList start stmts') := by
  match stmts with
  | [] => cases alike; exact .nil
  | s :: rest =>
      cases alike with
      | cons first others =>
          exact .cons (first.numbered into start) (alikeList_numbered into _ others)

theorem Stmt.alikeCases_numbered (into : Renumbers R S) (start : NodeId) {cases cases' : List Case}
    (alike : List.Forall₂ (Case.Alike R) cases cases') :
    List.Forall₂ (Case.Alike S) cases (Stmt.numberedCases start cases') := by
  match cases with
  | [] => cases alike; exact .nil
  | .mk id label body :: rest =>
      cases alike with
      | cons first others =>
          cases first with
          | mk within =>
              exact .cons (.mk (alikeList_numbered into _ within)) (alikeCases_numbered into _ others)

end

theorem Field.map_shape_numberedList (start : NodeId) (fields : List Field) :
    (Field.numberedList start fields).map Field.shape = fields.map Field.shape := by
  apply List.ext_getElem
  · simp only [numberedList, List.length_map, List.length_mapIdx]
  · intro position _ _
    simp only [numberedList, List.getElem_map, List.getElem_mapIdx, shape]

theorem Param.map_shape_numberedList (start : NodeId) (params : List Param) :
    (Param.numberedList start params).map Param.shape = params.map Param.shape := by
  apply List.ext_getElem
  · simp only [numberedList, List.length_map, List.length_mapIdx]
  · intro position _ _
    simp only [numberedList, List.getElem_map, List.getElem_mapIdx, shape]

theorem Decl.Alike.numbered (into : Renumbers R S) (start : NodeId) {decl decl' : Decl} (alike : decl.Alike R decl') :
    decl.Alike S (decl'.numbered start) := by
  cases alike with
  | precision => exact .precision
  | struct same =>
      exact .struct ⟨same.name, (Field.map_shape_numberedList _ _).trans same.fields⟩
  | global declared => exact .global (declared.numbered into start)
  | function defined =>
      exact .function ⟨⟨defined.returnTy, defined.name,
          (Param.map_shape_numberedList _ _).trans defined.params⟩,
        Stmt.alikeList_numbered into _ defined.stmts⟩

theorem Decl.alikeList_numbered (into : Renumbers R S) (start : NodeId) {decls decls' : List Decl}
    (alike : List.Forall₂ (Decl.Alike R) decls decls') :
    List.Forall₂ (Decl.Alike S) decls (Decl.numberedList start decls') := by
  induction alike generalizing start with
  | nil => exact .nil
  | cons first _ inductionHypothesis =>
      exact .cons (first.numbered into start) (inductionHypothesis _)

end Whittle
