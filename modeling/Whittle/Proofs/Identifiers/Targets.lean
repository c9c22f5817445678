import Whittle.Proofs.Identifiers.Searches
import Whittle.Proofs.Parse.Reader
import Whittle.Proofs.Reduction.BodyPromotion

namespace Whittle

/-!
# Edits reach their target and nothing else

Where no identifier is repeated, all searches for one come to the same node.  What an edit makes
of the shader can then be said without any search: one expression or statement gives way to
another one, or a statement in a list to a run of others, and all other nodes stay where they
are.  An edit whose search fails says so and leaves the declarations alone.
-/

/-- The expressions are these two. -/
def Expr.Swap (part part' e e' : Expr) : Prop :=
  e = part ∧ e' = part'

/-- A change inside an expression is a change of one expression in it. -/
theorem Expr.Inside.exists_swap {R : Expr → Expr → Prop} {e e' : Expr} (inside : Inside R e e') :
    ∃ part part', R part part' ∧ Inside (Swap part part') e e' := by
  induction inside with
  | @here e e' changed => exact ⟨e, e', changed, .here ⟨rfl, rfl⟩⟩
  | unary _ inductionHypothesis =>
      exact inductionHypothesis.imp fun _ => Exists.imp fun _ => And.imp_right .unary
  | binaryLeft _ inductionHypothesis =>
      exact inductionHypothesis.imp fun _ => Exists.imp fun _ => And.imp_right .binaryLeft
  | binaryRight _ inductionHypothesis =>
      exact inductionHypothesis.imp fun _ => Exists.imp fun _ => And.imp_right .binaryRight
  | assignTarget _ inductionHypothesis =>
      exact inductionHypothesis.imp fun _ => Exists.imp fun _ => And.imp_right .assignTarget
  | assignValue _ inductionHypothesis =>
      exact inductionHypothesis.imp fun _ => Exists.imp fun _ => And.imp_right .assignValue
  | ternaryCond _ inductionHypothesis =>
      exact inductionHypothesis.imp fun _ => Exists.imp fun _ => And.imp_right .ternaryCond
  | ternaryTrue _ inductionHypothesis =>
      exact inductionHypothesis.imp fun _ => Exists.imp fun _ => And.imp_right .ternaryTrue
  | ternaryFalse _ inductionHypothesis =>
      exact inductionHypothesis.imp fun _ => Exists.imp fun _ => And.imp_right .ternaryFalse
  | callArg _ inductionHypothesis =>
      exact inductionHypothesis.imp fun _ => Exists.imp fun _ => And.imp_right .callArg
  | memberBase _ inductionHypothesis =>
      exact inductionHypothesis.imp fun _ => Exists.imp fun _ => And.imp_right .memberBase
  | indexBase _ inductionHypothesis =>
      exact inductionHypothesis.imp fun _ => Exists.imp fun _ => And.imp_right .indexBase
  | indexPosition _ inductionHypothesis =>
      exact inductionHypothesis.imp fun _ => Exists.imp fun _ => And.imp_right .indexPosition
  | paren _ inductionHypothesis =>
      exact inductionHypothesis.imp fun _ => Exists.imp fun _ => And.imp_right .paren

theorem Stmt.AtExpr.exists_swap {R : Expr → Expr → Prop} {s s' : Stmt}
    (differ : AtExpr (Expr.Inside R) s s') :
    ∃ part part', R part part' ∧ AtExpr (Expr.Inside (Expr.Swap part part')) s s' := by
  cases differ with
  | declInit inside =>
      exact inside.exists_swap.imp fun _ => Exists.imp fun _ => And.imp_right .declInit
  | expr inside => exact inside.exists_swap.imp fun _ => Exists.imp fun _ => And.imp_right .expr
  | branchCond inside =>
      exact inside.exists_swap.imp fun _ => Exists.imp fun _ => And.imp_right .branchCond
  | forCond inside =>
      exact inside.exists_swap.imp fun _ => Exists.imp fun _ => And.imp_right .forCond
  | forStep inside =>
      exact inside.exists_swap.imp fun _ => Exists.imp fun _ => And.imp_right .forStep
  | whileCond inside =>
      exact inside.exists_swap.imp fun _ => Exists.imp fun _ => And.imp_right .whileCond
  | selector inside =>
      exact inside.exists_swap.imp fun _ => Exists.imp fun _ => And.imp_right .selector
  | retValue inside =>
      exact inside.exists_swap.imp fun _ => Exists.imp fun _ => And.imp_right .retValue

/-- A change of one statement inside another is as much as the relation says of it. -/
theorem Stmt.Inside.of_swap {R : Stmt → Stmt → Prop} {t t' s s' : Stmt} (changed : R t t')
    (inside : Inside (Swap t t') s s') : Inside R s s' := by
  induction inside with
  | here swap =>
      rcases swap with ⟨rfl, rfl⟩
      exact .here changed
  | block _ inductionHypothesis => exact .block inductionHypothesis
  | branchTrue _ inductionHypothesis => exact .branchTrue inductionHypothesis
  | branchFalse _ inductionHypothesis => exact .branchFalse inductionHypothesis
  | forInit _ inductionHypothesis => exact .forInit inductionHypothesis
  | forBody _ inductionHypothesis => exact .forBody inductionHypothesis
  | whileBody _ inductionHypothesis => exact .whileBody inductionHypothesis
  | case _ inductionHypothesis => exact .case inductionHypothesis

theorem Decl.AtExpr.exists_swap {R : Expr → Expr → Prop} {decl decl' : Decl}
    (differ : AtExpr (Expr.Inside R) decl decl') :
    ∃ part part', R part part' ∧ AtExpr (Expr.Inside (Expr.Swap part part')) decl decl' := by
  cases differ with
  | globalInit inside =>
      exact inside.exists_swap.imp fun _ => Exists.imp fun _ => And.imp_right .globalInit
  | body atBody =>
      rcases atBody with @⟨f, _, before, s, s', behind, isBody, rfl, inside⟩
      rcases inside.exists_swap with ⟨t, t', atExpr, _, swapsStmt⟩
      rcases atExpr.exists_swap with ⟨part, part', changed, swapsExpr⟩
      exact ⟨part, part', changed,
        .body (.function ⟨before, s, s', behind, isBody, rfl, swapsStmt.of_swap swapsExpr⟩)⟩

namespace Shader

/-- The shaders differ in one expression, which is `e` in the first and `e'` in the second. -/
def SwapsExpr (e e' : Expr) : Shader → Shader → Prop :=
  AtDecl (Decl.AtExpr (Expr.Inside (Expr.Swap e e')))

/-- The shaders differ in one statement, which is `t` in the first and `t'` in the second. -/
def SwapsStmt (t t' : Stmt) : Shader → Shader → Prop :=
  AtDecl (Decl.AtBody (Stmt.AtMember (Stmt.Inside (Stmt.Swap t t'))))

variable {shader edited : Shader} {target : NodeId}

theorem SwapsExpr.mem_exprs {e e' : Expr} (swaps : shader.SwapsExpr e e' edited) :
    e ∈ shader.exprs := by
  rcases swaps.exchange with ⟨decl, _, atExpr, listed, _⟩
  rcases atExpr.exchange with ⟨root, _, inside, isRoot, _⟩
  rcases inside.exchange with ⟨_, _, ⟨rfl, rfl⟩, isPart, _⟩
  exact List.mem_flatMap.mpr ⟨root, List.mem_flatMap.mpr ⟨decl, listed, isRoot⟩, isPart⟩

theorem SwapsStmt.mem_stmts {t t' : Stmt} (swaps : shader.SwapsStmt t t' edited) :
    t ∈ shader.stmts := by
  rcases swaps.exchange with ⟨_, _, atBody, listed, _⟩
  rcases atBody.exchange with ⟨f, _, rfl, atMember, _⟩
  rcases atMember.exchange with ⟨s, _, inside, isMember, _⟩
  rcases inside.exchange with ⟨_, _, ⟨rfl, rfl⟩, within, _⟩
  exact List.mem_flatMap.mpr ⟨.function f, listed,
    Stmt.mem_flatMap_substmts isMember (within _ (Stmt.self_mem_substmts _))⟩

/-- What a change of an expression reaches is the expression that the search finds. -/
theorem swapsExpr_of_modifyExpr? {change : Expr → Expr} {e : Expr} (distinct : shader.ids.Nodup)
    (found : shader.findExpr? target = some e)
    (modified : shader.modifyExpr? target change = some edited) :
    shader.SwapsExpr e (change e) edited := by
  rcases atExpr_of_modifyExpr? modified with ⟨before, decl, decl', behind, split, rfl, atExpr⟩
  rcases atExpr.exists_swap with ⟨part, _, ⟨isTarget, rfl⟩, swap⟩
  have swaps : shader.SwapsExpr part (change part) { shader with decls := before ++ decl' :: behind } :=
    ⟨before, decl, decl', behind, split, rfl, swap⟩
  have sameId : part.id = e.id := isTarget.trans (id_of_findExpr? found).symm
  rwa [expr_eq_of_id_eq distinct swaps.mem_exprs (List.mem_of_find?_eq_some found) sameId] at swaps

/-- What a change of a statement reaches is the statement that the search finds. -/
theorem swapsStmt_of_modifyStmt? {change : Stmt → Stmt} {t : Stmt} (distinct : shader.ids.Nodup)
    (found : shader.findStmt? target = some t)
    (modified : shader.modifyStmt? target change = some edited) :
    shader.SwapsStmt t (change t) edited := by
  rcases atBody_of_modifyStmt? modified with
    ⟨before, decl, _, behind, split, rfl, @⟨f, _, inFront, s, s', after, isBody, rfl, inside⟩⟩
  rcases inside.exists_swap with ⟨one, _, ⟨isTarget, rfl⟩, _, swap⟩
  have swaps : shader.SwapsStmt one (change one)
      { shader with decls := before ++ .function (f.withStmts (inFront ++ s' :: after)) :: behind } :=
    ⟨before, _, _, behind, split, rfl, .function ⟨inFront, s, s', after, isBody, rfl, swap⟩⟩
  have sameId : one.id = t.id := isTarget.trans (id_of_findStmt? found).symm
  rwa [stmt_eq_of_id_eq distinct swaps.mem_stmts (List.mem_of_find?_eq_some found) sameId] at swaps

/-! ## What edits do to their target -/

/-- An edit of the expression of an identifier takes place if there is one, and replaces it. -/
structure ReachesExpr (shader : Shader) (target : NodeId) : Prop where
  replaces (e' : Expr) : (shader.replaceExpr target e').2 = (shader.findExpr? target).isSome
  modifies (change : Expr → Expr) :
    (shader.modifyExpr? target change).isSome = (shader.findExpr? target).isSome
  replaced {e : Expr} (found : shader.findExpr? target = some e) (e' : Expr) :
    shader.SwapsExpr e e' (shader.replaceExpr target e').1
  modified {e : Expr} (found : shader.findExpr? target = some e) (change : Expr → Expr) :
    ∃ edited, shader.modifyExpr? target change = some edited ∧ shader.SwapsExpr e (change e) edited

/-- An edit of the statement of an identifier takes place if there is one, and replaces it. -/
structure ReachesStmt (shader : Shader) (target : NodeId) : Prop where
  replaces (t' : Stmt) : (shader.replaceStmt target t').2 = (shader.findStmt? target).isSome
  modifies (change : Stmt → Stmt) :
    (shader.modifyStmt? target change).isSome = (shader.findStmt? target).isSome
  replaced {t : Stmt} (found : shader.findStmt? target = some t) (t' : Stmt) :
    shader.SwapsStmt t t' (shader.replaceStmt target t').1
  modified {t : Stmt} (found : shader.findStmt? target = some t) (change : Stmt → Stmt) :
    ∃ edited, shader.modifyStmt? target change = some edited ∧ shader.SwapsStmt t (change t) edited

/-- A removal of the statement of an identifier, or a run of others in its place, takes place if
there is such a statement.  The list that holds it loses it or gets the run instead of it, unless
the list stands in the initialiser of a loop.  If no list holds it, an empty statement or a block
takes its place. -/
structure ReachesMember (shader : Shader) (target : NodeId) : Prop where
  removes : (shader.removeStmt target).2 = (shader.findStmt? target).isSome
  splices (run : List Stmt) :
    (shader.replaceStmtWith target run).2 = (shader.findStmt? target).isSome
  found_list {t : Stmt} (found : shader.findStmt? target = some t) {stmts : List Stmt}
    {position : Nat} (inList : shader.findList? target = some (stmts, position)) :
    stmts[position]? = some t
  held {t : Stmt} (found : shader.findStmt? target = some t)
    (holds : HoldsDirectly target shader.allLists)
    (notInInit : ¬ HoldsDirectly target shader.initLists) :
    (shader.findList? target).isSome ∧ ∃ spot : Spot, shader.decls = spot.fill [t] ∧
      (shader.removeStmt target).1 = { shader with decls := spot.fill [] } ∧
      ∀ run, (shader.replaceStmtWith target run).1 = { shader with decls := spot.fill run }
  alone {t : Stmt} (found : shader.findStmt? target = some t)
    (notHeld : ¬ HoldsDirectly target shader.allLists) :
    shader.findList? target = none ∧
      shader.SwapsStmt t (.empty target) (shader.removeStmt target).1 ∧
      ∀ run, shader.freshId.2.SwapsStmt t (.block target shader.nextId run)
        (shader.replaceStmtWith target run).1

/-- A statement that is spliced is one that is found. -/
theorem isSome_findStmt?_of_splice? {run : List Stmt}
    (spliced : (shader.splice? target run).isSome) : (shader.findStmt? target).isSome := by
  rcases Option.isSome_iff_exists.mp spliced with ⟨_, spliced⟩
  rcases exchange_of_splice? spliced with ⟨part, listed, isTarget, _⟩
  exact List.find?_isSome.mpr ⟨part, listed, beq_iff_eq.mpr isTarget⟩

theorem removeStmt_succeeds : (shader.removeStmt target).2 = (shader.findStmt? target).isSome := by
  rw [Bool.eq_iff_iff, removeStmt, orUnchanged, isSome_orElse, isSome_modifyStmt?]
  exact or_iff_right_of_imp isSome_findStmt?_of_splice?

theorem replaceStmtWith_succeeds (run : List Stmt) :
    (shader.replaceStmtWith target run).2 = (shader.findStmt? target).isSome := by
  rw [replaceStmtWith]
  cases spliced : shader.splice? target run with
  | some edited =>
      have isSome : (shader.splice? target run).isSome := by rw [spliced, Option.isSome_some]
      exact (isSome_findStmt?_of_splice? isSome).symm
  | none => exact @isSome_modifyStmt? shader.freshId.2 target _

/-- What no list holds is not found in the lists that are searched. -/
theorem not_holdsDirectly_searchedLists (notHeld : ¬ HoldsDirectly target shader.allLists) :
    ¬ HoldsDirectly target shader.searchedLists := by
  rintro ⟨list, isList, isMember⟩
  exact notHeld ⟨list, searchedLists_subset_allLists isList, isMember⟩

theorem splice?_eq_none_of_not_held (notHeld : ¬ HoldsDirectly target shader.allLists)
    (run : List Stmt) : shader.splice? target run = none := by
  rw [← Option.not_isSome_iff_eq_none, isSome_splice?]
  exact not_holdsDirectly_searchedLists notHeld

theorem reachesExpr (distinct : shader.ids.Nodup) : shader.ReachesExpr target := by
  have modified : ∀ {e : Expr}, shader.findExpr? target = some e → ∀ change,
      ∃ edited, shader.modifyExpr? target change = some edited ∧
        shader.SwapsExpr e (change e) edited := by
    intro e found change
    have isSome := @isSome_modifyExpr? shader target distinct change
    rw [found, Option.isSome_some] at isSome
    rcases Option.isSome_iff_exists.mp isSome with ⟨edited, isEdited⟩
    exact ⟨edited, isEdited, swapsExpr_of_modifyExpr? distinct found isEdited⟩
  refine ⟨fun _ => isSome_modifyExpr? distinct _, isSome_modifyExpr? distinct, ?_, modified⟩
  intro e found e'
  rcases modified found fun _ => e' with ⟨edited, isEdited, swaps⟩
  rwa [replaceExpr, orUnchanged, isEdited]

theorem reachesStmt (distinct : shader.ids.Nodup) : shader.ReachesStmt target := by
  have modified : ∀ {t : Stmt}, shader.findStmt? target = some t → ∀ change,
      ∃ edited, shader.modifyStmt? target change = some edited ∧
        shader.SwapsStmt t (change t) edited := by
    intro t found change
    have isSome := @isSome_modifyStmt? shader target change
    rw [found, Option.isSome_some] at isSome
    rcases Option.isSome_iff_exists.mp isSome with ⟨edited, isEdited⟩
    exact ⟨edited, isEdited, swapsStmt_of_modifyStmt? distinct found isEdited⟩
  refine ⟨fun _ => isSome_modifyStmt? _, isSome_modifyStmt?, ?_, modified⟩
  intro t found t'
  rcases modified found fun _ => t' with ⟨edited, isEdited, swaps⟩
  rwa [replaceStmt, orUnchanged, isEdited]

theorem reachesMember (distinct : shader.ids.Nodup) : shader.ReachesMember target where
  removes := removeStmt_succeeds
  splices := replaceStmtWith_succeeds
  found_list := by
    intro t found stmts position inList
    rcases findList?_eq_some inList with ⟨isList, one, isAt, isTarget⟩
    rcases exists_spot_of_mem_searchedLists isList (List.mem_of_getElem? isAt) with ⟨spot, isSpot⟩
    rw [isAt, stmt_eq_of_id_eq distinct (mem_stmts_of_fill isSpot)
      (List.mem_of_find?_eq_some found) (isTarget.trans (id_of_findStmt? found).symm)]
  held := by
    intro t found holds notInInit
    have searched : HoldsDirectly target shader.searchedLists := by
      rcases holds with ⟨list, isList, isMember⟩
      rcases mem_searchedLists_or_mem_initLists isList with isSearched | inInit
      · exact ⟨list, isSearched, isMember⟩
      · exact absurd ⟨list, inInit, isMember⟩ notInInit
    rcases (holdsDirectly_iff_exists_spot distinct found).mp searched with ⟨spot, isAt⟩
    rw [← id_of_findStmt? found] at searched ⊢
    refine ⟨isSome_findList?_iff.mpr searched, spot, isAt, ?_, replaceStmtWith_fill isAt distinct⟩
    rw [removeStmt, orUnchanged, splice?_fill isAt distinct]
    rfl
  alone := by
    intro t found notHeld
    refine ⟨?_, ?_, fun run => ?_⟩
    · rw [← Option.not_isSome_iff_eq_none, isSome_findList?_iff]
      exact not_holdsDirectly_searchedLists notHeld
    · rcases (reachesStmt distinct).modified found fun s => .empty s.id with
        ⟨edited, isEdited, swaps⟩
      rw [id_of_findStmt? found] at swaps
      rw [removeStmt, orUnchanged, splice?_eq_none_of_not_held notHeld, isEdited]
      exact swaps
    · have drawn : shader.freshId.2.ids.Nodup := distinct
      rcases (reachesStmt drawn).modified found fun s => .block s.id shader.nextId run with
        ⟨edited, isEdited, swaps⟩
      rw [id_of_findStmt? found] at swaps
      rw [replaceStmtWith, splice?_eq_none_of_not_held notHeld]
      simp only [freshId] at isEdited swaps ⊢
      rwa [orUnchanged, isEdited]

/-- Where no identifier is repeated, edits by an identifier take place if the read-only searches
find a node of it, reach the node that these find, and change nothing around it. -/
theorem edits_reach_target (distinct : shader.ids.Nodup) (target : NodeId) :
    shader.ReachesExpr target ∧ shader.ReachesStmt target ∧ shader.ReachesMember target :=
  ⟨reachesExpr distinct, reachesStmt distinct, reachesMember distinct⟩

/-- A loop in a branch, with an initialiser and a body that no list holds. -/
def nestedLoop : Shader :=
  .ofDecls .essl100 [.function ⟨0, .void, "main", [], ⟨0, [.branch 0 (.bool 0 true)
    (.forLoop 0 (some (.expr 0 (.var 0 "i"))) none none (.discard 0))
    (some (.block 0 0 [.ret 0 none]))]⟩⟩]

/-- Of the loop, the initialiser and the body become empty statements, and the `return` in the
block goes away. -/
theorem edits_reach_nestedLoop :
    nestedLoop.ids.Nodup ∧
      nestedLoop.SwapsExpr (.var 6 "i") (.bool 9 true) (nestedLoop.replaceExpr 6 (.bool 9 true)).1 ∧
      nestedLoop.SwapsStmt (.expr 5 (.var 6 "i")) (.empty 5) (nestedLoop.removeStmt 5).1 ∧
      nestedLoop.SwapsStmt (.discard 7) (.empty 7) (nestedLoop.removeStmt 7).1 ∧
      ∃ spot : Spot, nestedLoop.decls = spot.fill [.ret 10 none] ∧
        (nestedLoop.removeStmt 10).1 = { nestedLoop with decls := spot.fill [] } := by
  have distinct : nestedLoop.ids.Nodup := by decide
  refine ⟨distinct, (edits_reach_target distinct 6).1.replaced rfl _,
    ((edits_reach_target distinct 5).2.2.alone rfl (by decide)).2.1,
    ((edits_reach_target distinct 7).2.2.alone rfl (by decide)).2.1, ?_⟩
  rcases ((edits_reach_target distinct 10).2.2.held rfl (by decide) (by decide)).2 with
    ⟨spot, isAt, removed, _⟩
  exact ⟨spot, isAt, removed⟩

/-- A shader with a new `discard` in the place of statement 3, and whether it has this statement. -/
def initialisedByBlock (loop : Shader) : Shader × Bool :=
  loop.freshId.2.replaceStmtWith 3 [.discard loop.freshId.1]

/-- No text has a block for the initialiser of a loop, but an edit of the initialiser makes one,
as no list holds it.  A statement in the list of that block is not dropped from the list. -/
theorem removeStmt_initialisedByBlock :
    ∃ loop edited, parse "void main() \x7b for (int i = 0;;) ; \x7d" = .ok loop ∧
      loop.initialisedByBlock = (edited, true) ∧ edited.ids.Nodup ∧
      HoldsDirectly 7 edited.allLists ∧ (edited.removeStmt 7).2 = true ∧
      HoldsDirectly 7 (edited.removeStmt 7).1.allLists := by
  rcases @exists_parse_of_any "void main() \x7b for (int i = 0;;) ; \x7d"
    (fun loop => loop.initialisedByBlock.2 && decide (loop.initialisedByBlock.1.ids.Nodup ∧
      HoldsDirectly 7 loop.initialisedByBlock.1.allLists ∧
      (loop.initialisedByBlock.1.removeStmt 7).2 = true ∧
      HoldsDirectly 7 (loop.initialisedByBlock.1.removeStmt 7).1.allLists))
    (by decide +kernel) with ⟨loop, isRead, holds⟩
  rw [Bool.and_eq_true, decide_eq_true_eq] at holds
  exact ⟨loop, loop.initialisedByBlock.1, isRead, Prod.ext rfl holds.1, holds.2⟩

theorem orUnchanged_of_refused {edited? : Option Shader}
    (refused : (shader.orUnchanged edited?).2 = false) : (shader.orUnchanged edited?).1 = shader := by
  cases edited? with
  | none => rfl
  | some edited => cases refused

/-- A run that finds no place has drawn the identifier of a block. -/
theorem replaceStmtWith_of_refused {run : List Stmt}
    (refused : (shader.replaceStmtWith target run).2 = false) :
    (shader.replaceStmtWith target run).1 = { shader with nextId := shader.nextId + 1 } := by
  rw [replaceStmtWith] at refused ⊢
  cases spliced : shader.splice? target run with
  | some edited =>
      rw [spliced] at refused
      cases refused
  | none =>
      rw [spliced] at refused
      exact orUnchanged_of_refused refused

theorem removeDecl_of_refused (refused : (shader.removeDecl target).2 = none) :
    (shader.removeDecl target).1 = shader := by
  have others := List.find?_eq_none.mp refused
  rw [removeDecl, List.eraseP_of_forall_not others]

/-- An edit that is refused leaves the shader as it was, whatever identifiers are repeated in it,
except that a run in the place of a statement uses up one identifier. -/
theorem unchanged_of_refused (shader : Shader) (target : NodeId) :
    (∀ e, (shader.replaceExpr target e).2 = false → (shader.replaceExpr target e).1 = shader) ∧
      (∀ t, (shader.replaceStmt target t).2 = false → (shader.replaceStmt target t).1 = shader) ∧
      ((shader.removeStmt target).2 = false → (shader.removeStmt target).1 = shader) ∧
      ((shader.removeDecl target).2 = none → (shader.removeDecl target).1 = shader) ∧
      ∀ run, (shader.replaceStmtWith target run).2 = false →
        (shader.replaceStmtWith target run).1 = { shader with nextId := shader.nextId + 1 } :=
  ⟨fun _ => orUnchanged_of_refused, fun _ => orUnchanged_of_refused, orUnchanged_of_refused,
    removeDecl_of_refused, fun _ => replaceStmtWith_of_refused⟩

/-- The loop has neither an expression nor a declaration with the identifier of its body. -/
theorem unchanged_nestedLoop :
    (nestedLoop.replaceExpr 7 (.bool 9 true)).1 = nestedLoop ∧
      (nestedLoop.removeDecl 7).1 = nestedLoop :=
  ⟨(unchanged_of_refused nestedLoop 7).1 _ rfl,
    (unchanged_of_refused nestedLoop 7).2.2.2.1 rfl⟩

/-- A run in the place of a statement that is not there uses up an identifier. -/
theorem nextId_replaceStmtWith_nestedLoop :
    (nestedLoop.replaceStmtWith 99 []).2 = false ∧
      (nestedLoop.replaceStmtWith 99 []).1.nextId ≠ nestedLoop.nextId := by
  decide

end Shader
end Whittle
