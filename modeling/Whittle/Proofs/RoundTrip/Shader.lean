import Whittle.Proofs.RoundTrip.Decl
import Whittle.Proofs.RoundTrip.Texts
import Whittle.Proofs.Syntax.Renumbering

namespace Whittle
namespace Parse

/-!
# Reading shaders

Every declaration of a shader takes lines of its own and begins with a word, so
the declarations are read one by one up to the end of the text.  What is read
has the shape of what was written, and its text is the same.
-/

open Stmt (linesOfList)

variable {fits : Expr → Bool} {fuel : Nat} {input rest next chars : List Char}

theorem versionDirective_eq (version : Version) :
    versionDirective ("#version".toList ++ ' ' :: (version.text.toList ++ '\n' :: rest)) =
      .ok (version, '\n' :: rest) := by
  have shown : Shows ("#version".toList ++ ' ' :: (version.text.toList ++ '\n' :: rest))
      ("#version".toList ++ ' ' :: (version.text.toList ++ '\n' :: rest)) :=
    shows_cons rfl (by decide)
  have noBreak : ∀ c ∈ ' ' :: version.text.toList, (c != '\n') = true := by
    cases version <;> exact List.all_eq_true.mp rfl
  have named : Version.ofDirective? (' ' :: version.text.toList) = some version := by
    cases version <;> decide
  have ends : ∀ c ∈ ('\n' :: rest).head?, (c != '\n') = false := by
    rintro c ⟨⟩
    rfl
  unfold versionDirective
  rw [Reader.bind_eq_of_ok shown.gap_eq, Reader.get_bind, isPrefixOf?_append_self]
  dsimp only
  rw [← List.cons_append, takeWhile_append_eq noBreak ends, dropWhile_append_eq noBreak ends, named]
  rfl

/-- A declaration begins with a word. -/
theorem exists_word_declText {decl : Decl} (printable : decl.isPrintable fits = true)
    (text : List Char) :
    ∃ name chars, decl.text.toList ++ text = name.toList ++ chars ∧ isWord name = true := by
  cases decl with
  | precision decl => exact ⟨_, _, precisionText_append text decl, rfl⟩
  | struct decl => exact ⟨_, _, structText_append text decl, rfl⟩
  | global var =>
      rcases var with ⟨id, storage, ty, name, init⟩
      simp only [Decl.isPrintable, VarDecl.isPrintable, Bool.and_eq_true] at printable
      rw [globalText_append, toList_varText, List.append_assoc]
      cases storage with
      | none => exact ⟨_, _, List.append_assoc _ _ _, Ty.isWord_text printable.1.1⟩
      | some storage =>
          refine ⟨storage.keyword, _, List.append_assoc _ _ _, ?_⟩
          cases storage <;> rfl
  | function f =>
      simp only [Decl.isPrintable, Bool.and_eq_true] at printable
      exact ⟨_, _, functionText_append text f, Ty.isWord_text printable.1.1.1⟩

/-- A shader does not end in front of a word. -/
theorem atEnd_word_eq {name : String} (word : isWord name = true) (like : Like input (name.toList ++ rest)) :
    atEnd input = .ok (false, name.toList ++ rest) := by
  have shown := like.shows (shows_word word)
  rcases exists_cons_of_isWord word with ⟨c, tail, split, starts, _⟩
  have notHash : c ≠ '#' := by
    rintro rfl
    revert starts
    decide
  rw [split] at shown ⊢
  unfold atEnd
  rw [Reader.bind_eq_of_ok shown.gap_eq, Reader.get_bind]
  refine congrFun (?_ : _ = (pure false : Reader Bool)) _
  split
  · rename_i isEnd
    cases isEnd
  · rename_i isHash
    exact absurd (List.cons.inj isHash).1 notHash
  · rfl

theorem length_le_declTexts {decls : List Decl}
    (printable : decls.all (Decl.isPrintable fits) = true) :
    decls.length ≤ (String.join (decls.map Decl.text)).toList.length := by
  induction decls with
  | nil => exact Nat.zero_le _
  | cons decl decls inductionHypothesis =>
      rw [List.all_cons, Bool.and_eq_true] at printable
      rcases exists_word_declText printable.1 [] with ⟨name, chars, split, word⟩
      rcases exists_cons_of_isWord word with ⟨c, tail, splitName, _, _⟩
      rw [List.append_nil, splitName] at split
      have behind := inductionHypothesis printable.2
      rw [List.map_cons, String.join_cons, String.toList_append, split]
      simp only [List.length_append, List.length_cons]
      omega

/-- The declarations are read one by one up to the end of the text. -/
theorem manyUntil_eq_decls (readable : FitToRead fits) {decls : List Decl}
    (printable : decls.all (Decl.isPrintable fits) = true)
    (length : (String.join (decls.map Decl.text)).toList.length < fuel) {count : Nat}
    (enough : decls.length < count)
    (like : Like input (String.join (decls.map Decl.text)).toList) :
    ∃ decls' left, Reader.manyUntil atEnd (declaration fuel) count input = .ok (decls', left) ∧
      List.Forall₂ (Decl.Alike (ReadAs fits)) decls decls' := by
  induction decls generalizing input count with
  | nil =>
      rcases Nat.exists_eq_succ_of_ne_zero (Nat.ne_of_gt enough) with ⟨count, rfl⟩
      have isEnd : atEnd input = .ok (true, []) := Reader.bind_eq_of_ok (like.shows shows_nil).gap_eq
      exact ⟨[], [], Reader.manyUntil_eq_nil isEnd, .nil⟩
  | cons decl decls inductionHypothesis =>
      rcases Nat.exists_eq_succ_of_ne_zero (Nat.ne_of_gt (Nat.zero_lt_of_lt enough)) with ⟨count, rfl⟩
      rw [List.all_cons, Bool.and_eq_true] at printable
      rw [List.map_cons, String.join_cons, String.toList_append] at length like
      rw [List.length_append] at length
      rcases exists_word_declText printable.1 (String.join (decls.map Decl.text)).toList with
        ⟨name, chars, split, word⟩
      have goesOn : atEnd input = .ok (false, decl.text.toList ++
          (String.join (decls.map Decl.text)).toList) := by
        rw [split] at like ⊢
        exact atEnd_word_eq word like
      have shown : Shows (decl.text.toList ++ (String.join (decls.map Decl.text)).toList)
          (decl.text.toList ++ (String.join (decls.map Decl.text)).toList) := by
        rw [split]
        exact shows_word word
      have short : decl.text.toList.length < fuel := by omega
      have shortBehind : (String.join (decls.map Decl.text)).toList.length < fuel := by omega
      have likeBehind : Like ('\n' :: (String.join (decls.map Decl.text)).toList)
          (String.join (decls.map Decl.text)).toList := rfl
      rcases declaration_eq readable printable.1 short shown with ⟨decl', isRead, alike⟩
      rcases inductionHypothesis printable.2 shortBehind (Nat.lt_of_succ_lt_succ enough) likeBehind
        with ⟨decls', left, areRead, alikeOthers⟩
      exact ⟨decl' :: decls', left, Reader.manyUntil_eq_cons goesOn isRead areRead,
        .cons alike alikeOthers⟩

/-- The text of a printable shader is read up to its end. -/
theorem shader_eq (readable : FitToRead fits) {shader : Shader}
    (printable : shader.decls.all (Decl.isPrintable fits) = true)
    (count : shader.text.toList.length < fuel) :
    ∃ decls' left, Parse.shader fuel shader.text.toList =
        .ok (Shader.ofDecls shader.version decls', left) ∧
      List.Forall₂ (Decl.Alike (ReadAs fits)) shader.decls decls' := by
  have split : shader.text.toList = "#version".toList ++ ' ' :: (shader.version.text.toList ++
      '\n' :: (String.join (shader.decls.map Decl.text)).toList) := by
    simp [Shader.text]
  rw [split] at count ⊢
  simp only [List.length_append, List.length_cons] at count
  have short : (String.join (shader.decls.map Decl.text)).toList.length < fuel := by omega
  have enough := Nat.lt_of_le_of_lt (length_le_declTexts printable) short
  rcases manyUntil_eq_decls readable printable short enough (rfl : Like ('\n' :: _) _) with
    ⟨decls', left, areRead, alike⟩
  refine ⟨decls', left, ?_, alike⟩
  unfold Parse.shader
  rw [Reader.bind_eq_of_ok (versionDirective_eq shader.version), Reader.bind_eq_of_ok areRead]
  rfl

end Parse

namespace Expr

mutual

/-- New identifiers take no parentheses away. -/
theorem ParensAdded.numbered (start : NodeId) {e e' : Expr} (added : e.ParensAdded e') :
    e.ParensAdded (e'.numbered start) := by
  cases e' with
  | int | float | bool | var => cases added; constructor
  | unary id op operand =>
      cases added with
      | unary inner => exact .unary (inner.numbered _)
  | binary id op lhs rhs =>
      cases added with
      | binary left right => exact .binary (left.numbered _) (right.numbered _)
  | assign id op target value =>
      cases added with
      | assign written read => exact .assign (written.numbered _) (read.numbered _)
  | ternary id cond whenTrue whenFalse =>
      cases added with
      | ternary tested first second =>
          exact .ternary (tested.numbered _) (first.numbered _) (second.numbered _)
  | call id callee args =>
      cases added with
      | call passed => exact .call (parensAdded_numberedList _ passed)
  | member id base field =>
      cases added with
      | member inner => exact .member (inner.numbered _)
  | index id base position =>
      cases added with
      | index inner position => exact .index (inner.numbered _) (position.numbered _)
  | paren id inner =>
      cases added with
      | paren enclosed => exact .paren (enclosed.numbered _)
      | added enclosed => exact .added (enclosed.numbered _)

theorem parensAdded_numberedList (start : NodeId) {es es' : List Expr}
    (added : List.Forall₂ ParensAdded es es') :
    List.Forall₂ ParensAdded es (numberedList start es') := by
  match es' with
  | [] => cases added; exact .nil
  | e' :: rest =>
      cases added with
      | cons first others => exact .cons (first.numbered start) (parensAdded_numberedList _ others)

end

theorem readable_of_isPrintable : Parse.FitToRead isPrintable := by
  intro e printable part within
  have fits := List.all_eq_true.mp printable part within
  rw [Bool.and_eq_true] at fits
  exact fits.1

theorem isInfinity_of_isPrintable {e : Expr} (printable : e.isPrintable = true) :
    ∀ part ∈ e.subexprs, part.isInfinity = false := by
  intro part within
  have fits := List.all_eq_true.mp printable part within
  rw [Bool.and_eq_true, Bool.not_eq_true'] at fits
  exact fits.2

/-- A printable expression is read as itself with parentheses. -/
theorem renumbers_parensAdded : Renumbers (Parse.ReadAs isPrintable) ParensAdded := by
  rintro start e _ ⟨printable, rfl⟩
  exact (parensAdded_asRead (isInfinity_of_isPrintable printable)).numbered start

/-- Any expression that can be read is read as one with its text. -/
theorem renumbers_text (fits : Expr → Bool) :
    Renumbers (Parse.ReadAs fits) fun e e' => e'.text = e.text := by
  rintro start e _ ⟨_, rfl⟩
  rw [text_numbered, text_eq_bareText, bareText_asRead, ← text_eq_bareText]

end Expr

namespace Shader

/-- The declarations of a shader are read from its text, as far as the
expressions in them can be. -/
theorem exists_parse_text {fits : Expr → Bool} (readable : Parse.FitToRead fits) {shader : Shader}
    (printable : shader.decls.all (Decl.isPrintable fits) = true) :
    ∃ decls, Shader.parse shader.text = .ok (ofDecls shader.version decls) ∧
      List.Forall₂ (Decl.Alike (Parse.ReadAs fits)) shader.decls decls := by
  rcases Parse.shader_eq readable printable (Nat.lt_add_one _) with ⟨decls, left, isRead, alike⟩
  refine ⟨decls, ?_, alike⟩
  unfold parse
  dsimp only
  rw [isRead]

/-- The text of a printable shader is read as that shader, up to identifiers and
added parentheses, and what is read is written as the same text. -/
theorem exists_parse_text_alike {shader : Shader} (printable : shader.isPrintable = true) :
    ∃ shader', Shader.parse shader.text = .ok shader' ∧ shader.Alike Expr.ParensAdded shader' ∧
      shader'.text = shader.text := by
  rcases exists_parse_text Expr.readable_of_isPrintable printable with ⟨decls, isRead, alike⟩
  have sameShape : shader.Alike Expr.ParensAdded (ofDecls shader.version decls) :=
    ⟨rfl, Decl.alikeList_numbered Expr.renumbers_parensAdded 0 alike⟩
  have sameTexts : shader.Alike (fun e e' => e'.text = e.text) (ofDecls shader.version decls) :=
    ⟨rfl, Decl.alikeList_numbered (Expr.renumbers_text _) 0 alike⟩
  exact ⟨_, isRead, sameShape, sameTexts.text_eq id⟩

/-- The shader

```
float f(float x) {
    if (x < 0.5) { if (true) x = - -x; } else return (x + 1.0) * x;
}
```

without a node for its parentheses. -/
def unparenthesized : Shader :=
  .ofDecls .essl300 [.function ⟨.unnumbered, .float, "f", [⟨.unnumbered, .float, "x"⟩],
    ⟨.unnumbered,
      [.branch .unnumbered
        (.binary .unnumbered .lt (.var .unnumbered "x") (.float .unnumbered ⟨0x3fe0000000000000⟩))
        (.block .unnumbered .unnumbered
          [.branch .unnumbered (.bool .unnumbered true)
            (.expr .unnumbered (.assign .unnumbered .set (.var .unnumbered "x")
              (.unary .unnumbered .negate (.unary .unnumbered .negate (.var .unnumbered "x")))))
            none])
        (some (.ret .unnumbered (some (.binary .unnumbered .mul
          (.binary .unnumbered .add (.var .unnumbered "x")
            (.float .unnumbered ⟨0x3ff0000000000000⟩))
          (.var .unnumbered "x")))))]⟩⟩]

theorem exists_parse_text_unparenthesized :
    unparenthesized.isPrintable = true ∧
      ∃ shader', Shader.parse unparenthesized.text = .ok shader' ∧
        unparenthesized.Alike Expr.ParensAdded shader' ∧ shader'.text = unparenthesized.text := by
  have printable : unparenthesized.isPrintable = true := by decide
  exact ⟨printable, exists_parse_text_alike printable⟩

end Shader
end Whittle
