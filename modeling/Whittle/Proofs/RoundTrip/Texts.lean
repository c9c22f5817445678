import Whittle.Print.Shader
import Whittle.Proofs.RoundTrip.Layout
import Whittle.Proofs.Syntax.Alike
import Whittle.Syntax.Numbering

namespace Whittle

/-!
# Trees of one shape have one text

The writer looks at the shape of a tree and at the texts of its expressions, and
never at identifiers.
-/

namespace Expr

theorem precedence_numbered (start : NodeId) (e : Expr) :
    (e.numbered start).precedence = e.precedence := by
  cases e <;> rfl

mutual

theorem bareText_numbered (start : NodeId) (e : Expr) :
    (e.numbered start).bareText = e.bareText := by
  cases e with
  | int | float | bool | var => rfl
  | call id callee args => rw [numbered, bareText, bareText, argsText_numberedList]
  | unary | binary | assign | ternary | member | index | paren =>
      simp only [numbered, bareText, enclosed, precedence_numbered, bareText_numbered]

theorem argsText_numberedList (start : NodeId) (es : List Expr) :
    argsText (numberedList start es) = argsText es := by
  match es with
  | [] => rfl
  | [e] => simp only [numberedList, argsText, enclosed, precedence_numbered, bareText_numbered]
  | e :: next :: rest =>
      have behind := argsText_numberedList (start + e.size) (next :: rest)
      rw [numberedList] at behind
      simp only [numberedList, argsText, enclosed, precedence_numbered, bareText_numbered, behind]

end

theorem text_numbered (start : NodeId) (e : Expr) : (e.numbered start).text = e.text := by
  rw [text, text, enclosed, enclosed, precedence_numbered, bareText_numbered]

end Expr

variable {R : Expr → Expr → Prop}

/-- Related expressions have one text. -/
def KeepsText (R : Expr → Expr → Prop) : Prop :=
  ∀ {e e' : Expr}, R e e' → e'.text = e.text

theorem VarDecl.Alike.text_eq (same : KeepsText R) {var var' : VarDecl} (alike : var.Alike R var') :
    var'.text = var.text := by
  rcases var with ⟨id, qualifier, ty, name, init⟩
  rcases var' with ⟨id', qualifier', ty', name', init'⟩
  rcases alike with ⟨rfl, rfl, rfl, init⟩
  cases init with
  | none => rfl
  | some init => simp only [text, same init]

namespace Stmt

theorem initText_of_alike (same : KeepsText R) {init init' : Option Stmt}
    (alike : Option.Rel (Stmt.Alike R) init init') : initText init' = initText init := by
  cases alike with
  | none => rfl
  | some alike =>
      cases alike with
      | decl declared => exact declared.text_eq same
      | expr evaluated => simp only [initText, same evaluated]
      | _ => rfl

theorem headerPart_of_related (same : KeepsText R) {e? e?' : Option Expr}
    (related : Option.Rel R e? e?') : headerPart e?' = headerPart e? := by
  cases related with
  | none => rfl
  | some related => rw [headerPart, headerPart, same related]

theorem Alike.isBlock_eq {s s' : Stmt} (alike : s.Alike R s') : s'.isBlock = s.isBlock := by
  cases alike <;> rfl

theorem Alike.followsElse_eq {s s' : Stmt} (alike : s.Alike R s') :
    s'.followsElse = s.followsElse := by
  cases alike <;> rfl

mutual

theorem Alike.lines_eq (same : KeepsText R) (level : Nat) {s s' : Stmt} (alike : s.Alike R s') :
    s'.lines level = s.lines level := by
  cases s with
  | decl id var =>
      cases alike with
      | decl declared => rw [lines, lines, declared.text_eq same]
  | expr id e =>
      cases alike with
      | expr evaluated => rw [lines, lines, same evaluated]
  | block id scope stmts =>
      cases alike with
      | block within => rw [lines, lines, linesOfList_of_alike same _ within]
  | branch id cond whenTrue whenFalse =>
      cases alike with
      | branch tested first second =>
          have firstLines := fun level => first.lines_eq same level
          cases second with
          | none =>
              rw [lines_branch_none, lines_branch_none, placed, placed, same tested,
                first.isBlock_eq, firstLines]
          | some second =>
              have secondLines := fun level => second.lines_eq same level
              rw [lines_branch_some, lines_branch_some, placed, placed, same tested,
                first.isBlock_eq, chars, firstLines, second.followsElse_eq, secondLines]
              rfl
  | forLoop id init cond step body =>
      cases alike with
      | forLoop before tested behind within =>
          have bodyLines := fun level => within.lines_eq same level
          rw [lines_forLoop, lines_forLoop, placed, placed, initText_of_alike same before,
            headerPart_of_related same tested, headerPart_of_related same behind,
            within.isBlock_eq, bodyLines]
  | whileLoop id cond body =>
      cases alike with
      | whileLoop tested within =>
          have bodyLines := fun level => within.lines_eq same level
          rw [lines_whileLoop, lines_whileLoop, placed, placed, same tested, within.isBlock_eq,
            bodyLines]
  | switch id selector cases =>
      cases alike with
      | switch selected within =>
          rw [lines, lines, same selected, linesOfCases_of_alike same _ within]
  | ret id value =>
      cases alike with
      | ret returned =>
          cases returned with
          | none => rw [lines, lines]
          | some returned => rw [lines, lines, same returned]
  | breakOut => cases alike; rw [lines, lines]
  | continueLoop => cases alike; rw [lines, lines]
  | discard => cases alike; rw [lines, lines]
  | empty => cases alike; rw [lines, lines]

theorem linesOfList_of_alike (same : KeepsText R) (level : Nat) {stmts stmts' : List Stmt}
    (alike : List.Forall₂ (Stmt.Alike R) stmts stmts') :
    linesOfList level stmts' = linesOfList level stmts := by
  match stmts with
  | [] => cases alike; rfl
  | s :: rest =>
      cases alike with
      | cons first others =>
          rw [linesOfList, linesOfList, first.lines_eq same level,
            linesOfList_of_alike same level others]

theorem linesOfCases_of_alike (same : KeepsText R) (level : Nat) {cases cases' : List Case}
    (alike : List.Forall₂ (Case.Alike R) cases cases') :
    linesOfCases level cases' = linesOfCases level cases := by
  match cases with
  | [] => cases alike; rfl
  | .mk id label body :: rest =>
      cases alike with
      | cons first others =>
          cases first with
          | mk within =>
              rw [linesOfCases, linesOfCases, linesOfList_of_alike same _ within,
                linesOfCases_of_alike same level others]

end

end Stmt

theorem Decl.Alike.text_eq (same : KeepsText R) {decl decl' : Decl} (alike : decl.Alike R decl') :
    decl'.text = decl.text := by
  cases alike with
  | precision => rfl
  | @struct decl decl' declared =>
      have lines : ∀ fields : List Field, fields.map Field.line =
          (fields.map Field.shape).map fun (ty, name) => indent 1 ++ ty.text ++ " " ++ name ++ ";\n" :=
        fun fields => by rw [List.map_map]; rfl
      rw [text, text, declared.name, lines, lines, declared.fields]
  | global declared => rw [text, text, declared.text_eq same]
  | @function f f' defined =>
      have params : ∀ params : List Param, params.map Param.text =
          (params.map Param.shape).map fun (ty, name) => ty.text ++ " " ++ name :=
        fun params => by rw [List.map_map]; rfl
      rw [text, text, Function.text, Function.text, defined.returnTy, defined.name, params, params,
        defined.params, Stmt.linesOfList_of_alike same 1 defined.stmts]

theorem Decl.map_text_of_alike (same : KeepsText R) {decls decls' : List Decl}
    (alike : List.Forall₂ (Decl.Alike R) decls decls') :
    decls'.map Decl.text = decls.map Decl.text := by
  induction alike with
  | nil => rfl
  | cons first _ inductionHypothesis =>
      rw [List.map_cons, List.map_cons, first.text_eq same, inductionHypothesis]

/-- Shaders that differ in identifiers, and in expressions that have one text,
have one text. -/
theorem Shader.Alike.text_eq (same : KeepsText R) {shader shader' : Shader}
    (alike : shader.Alike R shader') : shader'.text = shader.text := by
  rw [text, text, alike.version, Decl.map_text_of_alike same alike.decls]

end Whittle
