import Whittle.Proofs.Reduction.Bodies
import Whittle.Proofs.Syntax.Mapping

namespace Whittle

/-!
# What searches by identifier find

A node is looked for in three ways.  The read-only search goes through all nodes in the order of
the text, a change goes through the expressions of a statement before the statements within it,
and a removal goes through lists of statements only.  Each of them succeeds if a node of the
identifier stands where it looks.

The search through lists does not enter the initialiser of a loop.  Neither the parser nor the
checker lets a statement with a list stand there, but a tree may be built that way.
-/

theorem isSome_orElse {α : Type} {first second : Option α} :
    (first <|> second).isSome ↔ first.isSome ∨ second.isSome := by
  cases first with
  | none => exact (or_iff_right Bool.false_ne_true).symm
  | some a => exact (iff_of_true rfl (.inl rfl))

theorem Stmt.isSome_changedOr {s : Stmt} {target : NodeId} {change : Stmt → Stmt}
    {inside : Option Stmt} :
    (s.changedOr target change inside).isSome ↔ s.id = target ∨ inside.isSome := by
  unfold changedOr
  split
  · rename_i same
    exact iff_of_true rfl (.inl (beq_iff_eq.mp same))
  · rename_i differ
    exact (or_iff_right fun same => differ (beq_iff_eq.mpr same)).symm

section

variable {target : NodeId} {change : Stmt → Stmt}

theorem Stmt.isSome_changedOr_none (s : Stmt) :
    (s.changedOr target change none).isSome ↔ target ∈ [s].map Stmt.id := by
  rw [isSome_changedOr, List.map_singleton, List.mem_singleton, eq_comm]
  exact or_iff_left Bool.false_ne_true

mutual

/-- A change reaches the statements within a statement and no others. -/
theorem Stmt.isSome_modify? (s : Stmt) :
    (s.modify? target change).isSome ↔ target ∈ s.substmts.map Stmt.id := by
  cases s with
  | block id scope stmts =>
      rw [modify?, isSome_changedOr, Option.isSome_map, isSome_modifyList? stmts, substmts,
        List.map_cons, List.mem_cons, eq_comm]
  | branch id cond whenTrue whenFalse =>
      rw [modify?, isSome_changedOr, isSome_orElse, Option.isSome_map, Option.isSome_map,
        isSome_modify? whenTrue, isSome_modifyOption? whenFalse, substmts, List.map_cons,
        List.mem_cons, List.map_append, List.mem_append, eq_comm]
  | forLoop id init cond step body =>
      rw [modify?, isSome_changedOr, isSome_orElse, Option.isSome_map, Option.isSome_map,
        isSome_modifyOption? init, isSome_modify? body, substmts, List.map_cons, List.mem_cons,
        List.map_append, List.mem_append, eq_comm]
  | whileLoop id cond body =>
      rw [modify?, isSome_changedOr, Option.isSome_map, isSome_modify? body, substmts,
        List.map_cons, List.mem_cons, eq_comm]
  | switch id selector cases =>
      rw [modify?, isSome_changedOr, Option.isSome_map, isSome_modifyCases? cases, substmts,
        List.map_cons, List.mem_cons, eq_comm]
  | decl | expr | ret | breakOut | continueLoop | discard | empty => exact isSome_changedOr_none _

theorem Stmt.isSome_modifyList? (stmts : List Stmt) :
    (modifyList? target change stmts).isSome ↔ target ∈ (substmtsOfList stmts).map Stmt.id := by
  match stmts with
  | [] => exact iff_of_false Bool.false_ne_true List.not_mem_nil
  | s :: rest =>
      rw [modifyList?, isSome_orElse, Option.isSome_map, Option.isSome_map, isSome_modify? s,
        isSome_modifyList? rest, substmtsOfList, List.map_append, List.mem_append]

theorem Stmt.isSome_modifyOption? (s? : Option Stmt) :
    (modifyOption? target change s?).isSome ↔ target ∈ (substmtsOfOption s?).map Stmt.id := by
  match s? with
  | none => exact iff_of_false Bool.false_ne_true List.not_mem_nil
  | some s => rw [modifyOption?, Option.isSome_map, isSome_modify? s, substmtsOfOption]

theorem Stmt.isSome_modifyCases? (cases : List Case) :
    (modifyCases? target change cases).isSome ↔ target ∈ (substmtsOfCases cases).map Stmt.id := by
  match cases with
  | [] => exact iff_of_false Bool.false_ne_true List.not_mem_nil
  | .mk id label body :: rest =>
      rw [modifyCases?, isSome_orElse, Option.isSome_map, Option.isSome_map,
        isSome_modifyList? body, isSome_modifyCases? rest, substmtsOfCases, List.map_append,
        List.mem_append]

end

end

section

variable {target : NodeId} {run : List Stmt}

/-- Some list holds a statement of the identifier directly. -/
def HoldsDirectly (target : NodeId) (lists : List (List Stmt)) : Prop :=
  ∃ stmts ∈ lists, target ∈ stmts.map Stmt.id

instance (target : NodeId) (lists : List (List Stmt)) : Decidable (HoldsDirectly target lists) :=
  inferInstanceAs (Decidable (∃ stmts ∈ lists, target ∈ stmts.map Stmt.id))

theorem holdsDirectly_nil : ¬ HoldsDirectly target [] :=
  fun ⟨_, listed, _⟩ => List.not_mem_nil listed

theorem holdsDirectly_cons {stmts : List Stmt} {lists : List (List Stmt)} :
    HoldsDirectly target (stmts :: lists) ↔
      target ∈ stmts.map Stmt.id ∨ HoldsDirectly target lists :=
  List.exists_mem_cons_iff ..

theorem holdsDirectly_append {first second : List (List Stmt)} :
    HoldsDirectly target (first ++ second) ↔
      HoldsDirectly target first ∨ HoldsDirectly target second := by
  constructor
  · rintro ⟨stmts, listed, isMember⟩
    exact (List.mem_append.mp listed).imp (fun listed => ⟨stmts, listed, isMember⟩)
      fun listed => ⟨stmts, listed, isMember⟩
  · rintro (⟨stmts, listed, isMember⟩ | ⟨stmts, listed, isMember⟩)
    · exact ⟨stmts, List.mem_append_left _ listed, isMember⟩
    · exact ⟨stmts, List.mem_append_right _ listed, isMember⟩

theorem Stmt.isSome_spliceMember? (stmts : List Stmt) :
    (spliceMember? target run stmts).isSome ↔ target ∈ stmts.map Stmt.id := by
  induction stmts with
  | nil => exact iff_of_false Bool.false_ne_true List.not_mem_nil
  | cons s rest inductionHypothesis =>
      rw [spliceMember?, List.map_cons, List.mem_cons]
      by_cases same : s.id = target
      · rw [if_pos (beq_iff_eq.mpr same)]
        exact iff_of_true rfl (.inl same.symm)
      · rw [if_neg fun isTarget => same (beq_iff_eq.mp isTarget), Option.isSome_map,
          inductionHypothesis]
        exact (or_iff_right (Ne.symm same)).symm

mutual

/-- A splice finds its statement if one of the lists that are searched holds it. -/
theorem Stmt.isSome_splice? (s : Stmt) :
    (s.splice? target run).isSome ↔ HoldsDirectly target s.lists := by
  cases s with
  | block id scope stmts =>
      rw [splice?, Option.isSome_map, isSome_orElse, isSome_spliceMember?,
        isSome_spliceWithin? stmts, lists, holdsDirectly_cons]
  | branch id cond whenTrue whenFalse =>
      rw [splice?, isSome_orElse, Option.isSome_map, Option.isSome_map, isSome_splice? whenTrue,
        isSome_spliceOption? whenFalse, lists, holdsDirectly_append]
  | forLoop id init cond step body =>
      rw [splice?, Option.isSome_map, isSome_splice? body, lists]
  | whileLoop id cond body => rw [splice?, Option.isSome_map, isSome_splice? body, lists]
  | switch id selector cases =>
      rw [splice?, Option.isSome_map, isSome_spliceCases? cases, lists]
  | decl | expr | ret | breakOut | continueLoop | discard | empty =>
      exact iff_of_false Bool.false_ne_true holdsDirectly_nil

theorem Stmt.isSome_spliceWithin? (stmts : List Stmt) :
    (spliceWithin? target run stmts).isSome ↔ HoldsDirectly target (listsWithin stmts) := by
  match stmts with
  | [] => exact iff_of_false Bool.false_ne_true holdsDirectly_nil
  | s :: rest =>
      rw [spliceWithin?, isSome_orElse, Option.isSome_map, Option.isSome_map, isSome_splice? s,
        isSome_spliceWithin? rest, listsWithin, holdsDirectly_append]

theorem Stmt.isSome_spliceOption? (s? : Option Stmt) :
    (spliceOption? target run s?).isSome ↔ HoldsDirectly target (listsOfOption s?) := by
  match s? with
  | none => exact iff_of_false Bool.false_ne_true holdsDirectly_nil
  | some s => rw [spliceOption?, Option.isSome_map, isSome_splice? s, listsOfOption]

theorem Stmt.isSome_spliceCases? (cases : List Case) :
    (spliceCases? target run cases).isSome ↔ HoldsDirectly target (listsOfCases cases) := by
  match cases with
  | [] => exact iff_of_false Bool.false_ne_true holdsDirectly_nil
  | .mk id label body :: rest =>
      rw [spliceCases?, isSome_orElse, Option.isSome_map, Option.isSome_map, isSome_orElse,
        isSome_spliceMember?, isSome_spliceWithin? body, isSome_spliceCases? rest, listsOfCases,
        holdsDirectly_append, holdsDirectly_cons]

end

theorem Stmt.isSome_spliceList? (stmts : List Stmt) :
    (spliceList? target run stmts).isSome ↔ HoldsDirectly target (stmts :: listsWithin stmts) := by
  rw [spliceList?, isSome_orElse, isSome_spliceMember?, isSome_spliceWithin?, holdsDirectly_cons]

end

namespace Shader

variable {shader : Shader} {target : NodeId}

theorem isSome_modifyDecl? {change? : Decl → Option Decl} :
    (shader.modifyDecl? change?).isSome ↔ ∃ decl ∈ shader.decls, (change? decl).isSome := by
  rw [modifyDecl?, Option.isSome_map]
  induction shader.decls with
  | nil =>
      refine iff_of_false Bool.false_ne_true ?_
      rintro ⟨_, listed, _⟩
      exact List.not_mem_nil listed
  | cons decl rest inductionHypothesis =>
      rw [Decl.modifyFirst?, isSome_orElse, Option.isSome_map, Option.isSome_map,
        inductionHypothesis, List.exists_mem_cons_iff]

theorem isSome_modifyDecl?_modifyBody? {change? : List Stmt → Option (List Stmt)} :
    (shader.modifyDecl? (Decl.modifyBody? change?)).isSome ↔
      ∃ f ∈ shader.functions, (change? f.body.stmts).isSome := by
  rw [isSome_modifyDecl?]
  constructor
  · rintro ⟨decl, listed, changes⟩
    cases decl with
    | precision | struct | global => cases changes
    | function f =>
        rw [Decl.modifyBody?, Option.isSome_map] at changes
        exact ⟨f, mem_functions_iff.mpr listed, changes⟩
  · rintro ⟨f, listed, changes⟩
    refine ⟨.function f, mem_functions_iff.mp listed, ?_⟩
    rwa [Decl.modifyBody?, Option.isSome_map]

theorem mem_stmts_iff {s : Stmt} : s ∈ shader.stmts ↔ ∃ f ∈ shader.functions, s ∈ f.stmts := by
  constructor
  · intro listed
    rcases List.mem_flatMap.mp listed with ⟨decl, isDecl, within⟩
    cases decl with
    | precision | struct | global => cases within
    | function f => exact ⟨f, mem_functions_iff.mpr isDecl, within⟩
  · rintro ⟨f, isFunction, within⟩
    exact mem_stmts_of_mem_functions isFunction within

theorem isSome_findStmt?_iff :
    (shader.findStmt? target).isSome ↔ ∃ f ∈ shader.functions, target ∈ f.stmts.map Stmt.id := by
  rw [findStmt?, List.find?_isSome]
  constructor
  · rintro ⟨s, listed, isTarget⟩
    rcases mem_stmts_iff.mp listed with ⟨f, isFunction, within⟩
    exact ⟨f, isFunction, List.mem_map.mpr ⟨s, within, beq_iff_eq.mp isTarget⟩⟩
  · rintro ⟨f, isFunction, isId⟩
    rcases List.mem_map.mp isId with ⟨s, within, isTarget⟩
    exact ⟨s, mem_stmts_iff.mpr ⟨f, isFunction, within⟩, beq_iff_eq.mpr isTarget⟩

theorem isSome_modifyStmt? (change : Stmt → Stmt) :
    (shader.modifyStmt? target change).isSome = (shader.findStmt? target).isSome := by
  rw [Bool.eq_iff_iff, modifyStmt?, isSome_modifyDecl?_modifyBody?, isSome_findStmt?_iff]
  refine exists_congr fun f => and_congr_right fun _ => ?_
  rw [Stmt.isSome_modifyList?, Stmt.substmtsOfList_eq_flatMap, Function.stmts]

theorem isSome_modifyExpr? (distinct : shader.ids.Nodup) (change : Expr → Expr) :
    (shader.modifyExpr? target change).isSome = (shader.findExpr? target).isSome := by
  have ofRoots := nodup_flatMap_ids_roots distinct
  rw [roots, List.flatMap_assoc] at ofRoots
  have ofDecl : ∀ decl ∈ shader.decls, ((decl.modifyExpr? target change).isSome ↔
      target ∈ decl.roots.flatMap Expr.ids) := by
    intro decl listed
    rw [Decl.modifyExpr?_eq ((List.nodup_flatMap.mp ofRoots).1 decl listed)]
    split <;> rename_i isId
    · exact iff_of_true rfl isId
    · exact iff_of_false Bool.false_ne_true isId
  have ofShader : (shader.findExpr? target).isSome ↔ target ∈ shader.exprs.map Expr.id := by
    rw [findExpr?, List.find?_isSome, List.mem_map]
    exact exists_congr fun e => and_congr_right fun _ => beq_iff_eq
  rw [Bool.eq_iff_iff, modifyExpr?, isSome_modifyDecl?, ofShader, exprs,
    Expr.flatMap_map_id_subexprs, roots, List.flatMap_assoc, List.mem_flatMap]
  exact exists_congr fun decl => and_congr_right fun listed => ofDecl decl listed

/-- The lists of statements that are searched for members. -/
def searchedLists (shader : Shader) : List (List Stmt) :=
  shader.functions.flatMap fun f => f.body.stmts :: Stmt.listsWithin f.body.stmts

theorem isSome_splice? (run : List Stmt) :
    (shader.splice? target run).isSome ↔ HoldsDirectly target shader.searchedLists := by
  rw [splice?, isSome_modifyDecl?_modifyBody?]
  constructor
  · rintro ⟨f, listed, holds⟩
    rcases (Stmt.isSome_spliceList? _).mp holds with ⟨stmts, isList, isMember⟩
    exact ⟨stmts, List.mem_flatMap.mpr ⟨f, listed, isList⟩, isMember⟩
  · rintro ⟨stmts, isList, isMember⟩
    rcases List.mem_flatMap.mp isList with ⟨f, listed, isList⟩
    exact ⟨f, listed, (Stmt.isSome_spliceList? _).mpr ⟨stmts, isList, isMember⟩⟩

/-- A member of a list that is searched stands at a place of the shader. -/
theorem exists_spot_of_mem_searchedLists {stmts : List Stmt} {t : Stmt}
    (isList : stmts ∈ shader.searchedLists) (isMember : t ∈ stmts) :
    ∃ spot : Spot, shader.decls = spot.fill [t] := by
  rcases List.mem_flatMap.mp isList with ⟨f, listed, isList⟩
  have isAt : ∃ slot : Slot, f.body.stmts = slot.fill stmts := by
    rcases List.mem_cons.mp isList with rfl | isWithin
    · exact ⟨.here [] [], (Slot.fill_here _).symm⟩
    · rcases Stmt.exists_fill_of_mem_listsWithin isWithin with ⟨before, inner, behind, split⟩
      exact ⟨.within before inner behind, split⟩
  rcases isAt with ⟨slot, isAt⟩
  rcases List.append_of_mem isMember with ⟨front, back, rfl⟩
  have isBetween : f.body.stmts = (slot.between front back).fill [t] := by rwa [Slot.fill_between]
  rcases Reduction.exists_spot_of_mem_functions listed isBetween with ⟨spot, _, _, isSpot⟩
  exact ⟨spot, isSpot⟩

end Shader

/-! ## Lists in initialisers of loops -/

/-- The initialiser of a loop. -/
def Stmt.loopInit? : Stmt → Option Stmt
  | .forLoop _ init _ _ _ => init
  | _ => none

/-- All lists within a statement, those in initialisers included. -/
def Stmt.allLists (s : Stmt) : List (List Stmt) :=
  s.substmts.flatMap Reduction.ownLists

def Stmt.initLists (s : Stmt) : List (List Stmt) :=
  s.substmts.flatMap fun loop => loop.loopInit?.toList.flatMap allLists

section

open Reduction (ownLists)

variable {list : List Stmt}

theorem Stmt.mem_ownLists_switch {id : NodeId} {selector : Expr} {cases : List Case} :
    list ∈ ownLists (.switch id selector cases) ↔ list ∈ cases.map Case.body :=
  Iff.rfl

mutual

/-- Every list that is searched is a list of the statement, and only those in initialisers are
not searched. -/
theorem Stmt.mem_lists_bounds (s : Stmt) :
    (list ∈ s.lists → list ∈ s.substmts.flatMap ownLists) ∧
      (list ∈ s.substmts.flatMap ownLists → list ∈ s.lists ∨ list ∈ s.initLists) := by
  cases s with
  | block id scope stmts =>
      have within := mem_listsWithin_bounds stmts
      simp only [lists, initLists, substmts, List.flatMap_cons, List.mem_append, ownLists,
        List.mem_cons, List.not_mem_nil, or_false, loopInit?, Option.toList_none,
        List.flatMap_nil, false_or] at within ⊢
      grind
  | branch id cond whenTrue whenFalse =>
      have ofTrue := mem_lists_bounds whenTrue
      have ofFalse := mem_listsOfOption_bounds whenFalse
      simp only [lists, initLists, substmts, List.flatMap_cons, List.flatMap_append,
        List.mem_append, ownLists, List.not_mem_nil, loopInit?, Option.toList_none,
        List.flatMap_nil, false_or] at ofTrue ofFalse ⊢
      grind
  | forLoop id init cond step body =>
      have ofBody := mem_lists_bounds body
      have ofInit : list ∈ (substmtsOfOption init).flatMap ownLists →
          list ∈ init.toList.flatMap allLists := by
        cases init with
        | none => exact fun listed => listed
        | some s => exact fun listed => by rwa [Option.toList_some, List.flatMap_singleton]
      simp only [lists, initLists, substmts, List.flatMap_cons, List.flatMap_append,
        List.mem_append, ownLists, List.not_mem_nil, loopInit?, false_or] at ofBody ⊢
      grind
  | whileLoop id cond body =>
      have ofBody := mem_lists_bounds body
      simp only [lists, initLists, substmts, List.flatMap_cons, List.mem_append, ownLists,
        List.not_mem_nil, loopInit?, Option.toList_none, List.flatMap_nil, false_or] at ofBody ⊢
      exact ofBody
  | switch id selector cases =>
      have ofCases := mem_listsOfCases_bounds cases
      simp only [lists, initLists, substmts, List.flatMap_cons, List.mem_append,
        mem_ownLists_switch, loopInit?, Option.toList_none, List.flatMap_nil, List.not_mem_nil,
        false_or] at ofCases ⊢
      exact ofCases
  | decl | expr | ret | breakOut | continueLoop | discard | empty =>
      exact ⟨fun listed => absurd listed List.not_mem_nil,
        fun listed => absurd listed List.not_mem_nil⟩

theorem Stmt.mem_listsWithin_bounds (stmts : List Stmt) :
    (list ∈ listsWithin stmts → list ∈ (substmtsOfList stmts).flatMap ownLists) ∧
      (list ∈ (substmtsOfList stmts).flatMap ownLists → list ∈ listsWithin stmts ∨
        list ∈ (substmtsOfList stmts).flatMap
          fun loop => loop.loopInit?.toList.flatMap allLists) := by
  match stmts with
  | [] =>
      exact ⟨fun listed => absurd listed List.not_mem_nil,
        fun listed => absurd listed List.not_mem_nil⟩
  | s :: rest =>
      have ofFirst := mem_lists_bounds s
      have ofRest := mem_listsWithin_bounds rest
      simp only [initLists, listsWithin, substmtsOfList, List.flatMap_append,
        List.mem_append] at ofFirst ofRest ⊢
      grind

theorem Stmt.mem_listsOfOption_bounds (s? : Option Stmt) :
    (list ∈ listsOfOption s? → list ∈ (substmtsOfOption s?).flatMap ownLists) ∧
      (list ∈ (substmtsOfOption s?).flatMap ownLists → list ∈ listsOfOption s? ∨
        list ∈ (substmtsOfOption s?).flatMap
          fun loop => loop.loopInit?.toList.flatMap allLists) := by
  match s? with
  | none =>
      exact ⟨fun listed => absurd listed List.not_mem_nil,
        fun listed => absurd listed List.not_mem_nil⟩
  | some s => exact mem_lists_bounds s

theorem Stmt.mem_listsOfCases_bounds (cases : List Case) :
    (list ∈ listsOfCases cases →
      list ∈ cases.map Case.body ∨ list ∈ (substmtsOfCases cases).flatMap ownLists) ∧
      (list ∈ cases.map Case.body ∨ list ∈ (substmtsOfCases cases).flatMap ownLists →
        list ∈ listsOfCases cases ∨ list ∈ (substmtsOfCases cases).flatMap
          fun loop => loop.loopInit?.toList.flatMap allLists) := by
  match cases with
  | [] =>
      exact ⟨fun listed => absurd listed List.not_mem_nil,
        fun listed => absurd listed (not_or_intro List.not_mem_nil List.not_mem_nil)⟩
  | .mk id label body :: rest =>
      have ofBody := mem_listsWithin_bounds body
      have ofRest := mem_listsOfCases_bounds rest
      simp only [listsOfCases, substmtsOfCases, List.map_cons, Case.body, List.mem_cons,
        List.flatMap_append, List.mem_append, List.cons_append] at ofBody ofRest ⊢
      grind

end

end

namespace Shader

/-- All lists of statements of a shader. -/
def allLists (shader : Shader) : List (List Stmt) :=
  shader.functions.flatMap fun f => f.body.stmts :: f.body.stmts.flatMap Stmt.allLists

/-- The lists of statements within initialisers of loops. -/
def initLists (shader : Shader) : List (List Stmt) :=
  shader.functions.flatMap fun f => f.body.stmts.flatMap Stmt.initLists

variable {shader : Shader} {target : NodeId}

theorem searchedLists_subset_allLists : shader.searchedLists ⊆ shader.allLists := by
  intro list isList
  rcases List.mem_flatMap.mp isList with ⟨f, listed, isList⟩
  refine List.mem_flatMap.mpr ⟨f, listed, ?_⟩
  rcases List.mem_cons.mp isList with rfl | isWithin
  · exact List.mem_cons_self
  · have inStmts := (Stmt.mem_listsWithin_bounds f.body.stmts).1 isWithin
    rw [Stmt.substmtsOfList_eq_flatMap, List.flatMap_assoc] at inStmts
    exact List.mem_cons_of_mem _ inStmts

theorem mem_searchedLists_or_mem_initLists {list : List Stmt} (isList : list ∈ shader.allLists) :
    list ∈ shader.searchedLists ∨ list ∈ shader.initLists := by
  rcases List.mem_flatMap.mp isList with ⟨f, listed, isList⟩
  rcases List.mem_cons.mp isList with rfl | isWithin
  · exact .inl (List.mem_flatMap.mpr ⟨f, listed, List.mem_cons_self⟩)
  · have bounds := (@Stmt.mem_listsWithin_bounds list f.body.stmts).2
    rw [Stmt.substmtsOfList_eq_flatMap, List.flatMap_assoc, List.flatMap_assoc] at bounds
    rcases bounds isWithin with isSearched | inInit
    · exact .inl (List.mem_flatMap.mpr ⟨f, listed, List.mem_cons_of_mem _ isSearched⟩)
    · exact .inr (List.mem_flatMap.mpr ⟨f, listed, inInit⟩)

/-- A list is found if one that is searched holds the statement, and the statement is at the
position that is found with it. -/
theorem findList?_eq_some {stmts : List Stmt} {position : Nat}
    (found : shader.findList? target = some (stmts, position)) :
    stmts ∈ shader.searchedLists ∧ ∃ t, stmts[position]? = some t ∧ t.id = target := by
  rcases List.exists_of_findSome?_eq_some found with ⟨f, listed, found⟩
  rcases List.exists_of_findSome?_eq_some found with ⟨list, isList, found⟩
  rcases Option.map_eq_some_iff.mp found with ⟨_, isPosition, same⟩
  cases same
  rcases List.findIdx?_eq_some_iff_getElem.mp isPosition with ⟨inside, isTarget, _⟩
  exact ⟨List.mem_flatMap.mpr ⟨f, listed, isList⟩, stmts[position],
    List.getElem?_eq_getElem inside, beq_iff_eq.mp isTarget⟩

theorem isSome_findList?_iff :
    (shader.findList? target).isSome ↔ HoldsDirectly target shader.searchedLists := by
  constructor
  · intro found
    rcases Option.isSome_iff_exists.mp found with ⟨⟨stmts, position⟩, found⟩
    rcases findList?_eq_some found with ⟨isList, t, isAt, isTarget⟩
    exact ⟨stmts, isList, List.mem_map.mpr ⟨t, List.mem_of_getElem? isAt, isTarget⟩⟩
  · rintro ⟨stmts, isList, isMember⟩
    rcases List.mem_flatMap.mp isList with ⟨f, listed, isList⟩
    rcases List.mem_map.mp isMember with ⟨t, isIn, isTarget⟩
    rw [findList?, List.findSome?_isSome_iff]
    refine ⟨f, listed, List.findSome?_isSome_iff.mpr ⟨stmts, isList, ?_⟩⟩
    rw [Option.isSome_map, List.findIdx?_isSome, List.any_eq_true]
    exact ⟨t, isIn, beq_iff_eq.mpr isTarget⟩

theorem mem_stmts_of_fill {spot : Spot} {t : Stmt} (isAt : shader.decls = spot.fill [t]) :
    t ∈ shader.stmts := by
  have within := Slot.mem_substmts_fill t spot.slot
  rw [Stmt.substmtsOfList_eq_flatMap] at within
  refine List.mem_flatMap.mpr ⟨.function (spot.function.withStmts (spot.slot.fill [t])), ?_, within⟩
  rw [isAt, Spot.fill]
  exact List.mem_append_right _ List.mem_cons_self

/-- A list that is searched holds the statement if it stands at a place of the shader. -/
theorem holdsDirectly_iff_exists_spot {t : Stmt} (distinct : shader.ids.Nodup)
    (found : shader.findStmt? target = some t) :
    HoldsDirectly target shader.searchedLists ↔ ∃ spot : Spot, shader.decls = spot.fill [t] := by
  constructor
  · rintro ⟨stmts, isList, isMember⟩
    rcases List.mem_map.mp isMember with ⟨one, isIn, isTarget⟩
    rcases exists_spot_of_mem_searchedLists isList isIn with ⟨spot, isAt⟩
    have same := stmt_eq_of_id_eq distinct (mem_stmts_of_fill isAt)
      (List.mem_of_find?_eq_some found) (isTarget.trans (id_of_findStmt? found).symm)
    exact ⟨spot, same ▸ isAt⟩
  · rintro ⟨spot, isAt⟩
    rw [← isSome_splice? [], ← id_of_findStmt? found, splice?_fill isAt distinct]
    rfl

end Shader
end Whittle
