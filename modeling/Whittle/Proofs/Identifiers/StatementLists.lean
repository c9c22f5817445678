import Whittle.Proofs.Identifiers.Searches
import Whittle.Proofs.Reduction.Bodies

namespace Whittle

/-!
# Lists of statements

A simplification looks for statements in the lists of each function, and the edit that it proposes
looks for the list of a statement by the identifier of the statement.  The two walks go through a
function in different orders.  A statement stands in at most one list, though, so in a valid shader
both come to the same list and to the same position in it.
-/

open Reduction (StmtList ownLists stmtLists)

namespace Stmt

/-- The statements in the lists that the outermost node of a statement holds. -/
def members (s : Stmt) : List Stmt :=
  (ownLists s).flatten

mutual

/-- Within a statement, each part is a member of at most one list, and the statement itself of
none. -/
theorem count_members_le (target : NodeId) (s : Stmt) :
    [s.id].count target + ((s.substmts.flatMap members).map id).count target ≤
      (s.substmts.map id).count target := by
  cases s with
  | block _ _ stmts =>
      have inside := count_membersOfList_le target stmts
      simp only [substmts, List.flatMap_cons, members, ownLists, List.flatten_cons,
        List.flatten_nil, List.append_nil, List.map_cons, List.map_append, List.count_append,
        List.count_cons, List.count_nil, id] at inside ⊢
      omega
  | branch _ _ whenTrue whenFalse =>
      have isTrue := count_members_le target whenTrue
      have isFalse := count_membersOfOption_le target whenFalse
      simp only [substmts, List.flatMap_cons, List.flatMap_append, members, ownLists,
        List.flatten_nil, List.nil_append, List.map_cons, List.map_append, List.count_append,
        List.count_cons, List.count_nil, id] at isTrue isFalse ⊢
      omega
  | forLoop _ init _ _ body =>
      have isInit := count_membersOfOption_le target init
      have isBody := count_members_le target body
      simp only [substmts, List.flatMap_cons, List.flatMap_append, members, ownLists,
        List.flatten_nil, List.nil_append, List.map_cons, List.map_append, List.count_append,
        List.count_cons, List.count_nil, id] at isInit isBody ⊢
      omega
  | whileLoop _ _ body =>
      have isBody := count_members_le target body
      simp only [substmts, List.flatMap_cons, members, ownLists, List.flatten_nil,
        List.nil_append, List.map_cons, List.count_cons, List.count_nil, id] at isBody ⊢
      omega
  | switch _ _ cases =>
      have inside := count_membersOfCases_le target cases
      simp only [substmts, List.flatMap_cons, members, ownLists, List.map_cons, List.map_append,
        List.count_append, List.count_cons, List.count_nil, id] at inside ⊢
      omega
  | decl | expr | ret | breakOut | continueLoop | discard | empty => exact Nat.le_refl _

theorem count_membersOfList_le (target : NodeId) (stmts : List Stmt) :
    (stmts.map id).count target + (((substmtsOfList stmts).flatMap members).map id).count target ≤
      ((substmtsOfList stmts).map id).count target := by
  match stmts with
  | [] => exact Nat.le_refl _
  | s :: rest =>
      have first := count_members_le target s
      have others := count_membersOfList_le target rest
      simp only [substmtsOfList, List.flatMap_append, List.map_append, List.map_cons,
        List.count_append, List.count_cons, List.count_nil] at first others ⊢
      omega

theorem count_membersOfOption_le (target : NodeId) (s? : Option Stmt) :
    (((substmtsOfOption s?).flatMap members).map id).count target ≤
      ((substmtsOfOption s?).map id).count target := by
  match s? with
  | none => exact Nat.le_refl _
  | some s => exact Nat.le_trans (Nat.le_add_left _ _) (count_members_le target s)

theorem count_membersOfCases_le (target : NodeId) (cases : List Case) :
    ((cases.map Case.body).flatten.map id).count target +
        (((substmtsOfCases cases).flatMap members).map id).count target ≤
      ((substmtsOfCases cases).map id).count target := by
  match cases with
  | [] => exact Nat.le_refl _
  | .mk _ _ body :: rest =>
      have first := count_membersOfList_le target body
      have others := count_membersOfCases_le target rest
      simp only [substmtsOfCases, List.flatMap_append, List.map_append, List.map_cons, Case.body,
        List.flatten_cons, List.count_append] at first others ⊢
      omega

end

end Stmt

namespace Reduction

variable {shader : Shader} {version : Version} {f g : Function} {s : Stmt} {list list' : StmtList}
  {number number' position position' : Nat}

/-- The statement stands at a position of a list, and this is one of the lists of a function. -/
structure StandsAt (f : Function) (s : Stmt) (number position : Nat) (list : StmtList) : Prop where
  isList : (stmtLists f)[number]? = some list
  isMember : list.stmts[position]? = some s

theorem exists_standsAt_iff :
    (∃ number position list, StandsAt f s number position list) ↔
      ∃ list ∈ stmtLists f, s ∈ list.stmts := by
  constructor
  · rintro ⟨number, position, list, stands⟩
    exact ⟨list, List.mem_of_getElem? stands.isList, List.mem_of_getElem? stands.isMember⟩
  · rintro ⟨list, isList, isMember⟩
    rcases List.getElem?_of_mem isList with ⟨number, isList⟩
    rcases List.getElem?_of_mem isMember with ⟨position, isMember⟩
    exact ⟨number, position, list, isList, isMember⟩

theorem flatMap_stmtLists (f : Function) :
    (stmtLists f).flatMap StmtList.stmts = f.body.stmts ++ f.stmts.flatMap Stmt.members := by
  rw [stmtLists, List.flatMap_cons, List.flatMap_map, List.flatMap_assoc]
  refine congrArg (f.body.stmts ++ ·) (List.flatMap_congr fun s _ => ?_)
  exact List.flatMap_id

/-- No statement stands in the lists of a function twice. -/
theorem nodup_flatMap_stmtLists (distinct : shader.ids.Nodup) (listed : f ∈ shader.functions) :
    ((stmtLists f).flatMap fun list => list.stmts.map Stmt.id).Nodup := by
  have ofDecl := (List.nodup_flatMap.mp distinct).1 _ (Shader.mem_functions_iff.mp listed)
  have ofStmts := ofDecl.sublist (Decl.map_id_stmts_sublist (.function f))
  rw [← List.map_flatMap, flatMap_stmtLists, List.nodup_iff_count_le_one]
  intro target
  have once := List.nodup_iff_count_le_one.mp ofStmts target
  have members := Stmt.count_membersOfList_le target f.body.stmts
  rw [Stmt.substmtsOfList_eq_flatMap] at members
  rw [List.map_append, List.count_append]
  exact Nat.le_trans members once

/-- A statement stands at one position of one list of a function. -/
theorem StandsAt.unique (distinct : shader.ids.Nodup) (listed : f ∈ shader.functions)
    (stands : StandsAt f s number position list) (stands' : StandsAt f s number' position' list') :
    number' = number ∧ position' = position ∧ list' = list := by
  have once := nodup_flatMap_stmtLists distinct listed
  have isId : ∀ {number position list}, StandsAt f s number position list →
      s.id ∈ list.stmts.map Stmt.id := fun stands =>
    List.mem_map_of_mem (List.mem_of_getElem? stands.isMember)
  cases index_eq_of_mem_flatMap once stands.isList stands'.isList (isId stands) (isId stands')
  cases stands.isList.symm.trans stands'.isList
  have inside := (List.getElem?_eq_some_iff.mp stands.isMember).1
  have ofList := (List.nodup_flatMap.mp once).1 list (List.mem_of_getElem? stands.isList)
  refine ⟨rfl, ((List.getElem?_inj inside ofList.of_map).mp ?_).symm, rfl⟩
  rw [stands.isMember, stands'.isMember]

theorem StandsAt.split (stands : StandsAt f s number position list) :
    list.stmts = list.stmts.take position ++ s :: list.stmts.drop (position + 1) := by
  rcases List.getElem?_eq_some_iff.mp stands.isMember with ⟨inside, isMember⟩
  rw [← isMember, ← List.drop_eq_getElem_cons inside, List.take_append_drop]

/-- What stands in a list of an accepted function is a statement of the function. -/
theorem StandsAt.mem_stmts {ctx : Check.Context} (accepted : ctx.AcceptsList f.body.stmts)
    (stands : StandsAt f s number position list) : s ∈ f.stmts := by
  rcases exists_fill_of_mem_stmtLists accepted (List.mem_of_getElem? stands.isList) with ⟨slot, isAt⟩
  have within := Slot.mem_substmts_fill s
    (slot.between (list.stmts.take position) (list.stmts.drop (position + 1)))
  rwa [Slot.fill_between, List.singleton_append, ← stands.split, ← isAt,
    Stmt.substmtsOfList_eq_flatMap] at within

/-- The lists of an accepted function are searched. -/
theorem mem_searchedLists_of_mem_stmtLists {ctx : Check.Context} (listed : f ∈ shader.functions)
    (accepted : ctx.AcceptsList f.body.stmts) (isList : list ∈ stmtLists f) :
    list.stmts ∈ shader.searchedLists := by
  refine List.mem_flatMap.mpr ⟨f, listed, ?_⟩
  rcases eq_body_or_mem_listsWithin accepted isList with rfl | isWithin
  · exact List.mem_cons_self
  · exact List.mem_cons_of_mem _ isWithin

/-- Only the lists of functions are searched. -/
theorem exists_stmtLists_of_mem_searchedLists {stmts : List Stmt}
    (isSearched : stmts ∈ shader.searchedLists) :
    ∃ g ∈ shader.functions, ∃ list ∈ stmtLists g, list.stmts = stmts := by
  rcases List.mem_flatMap.mp (Shader.searchedLists_subset_allLists isSearched) with
    ⟨g, listed, isList⟩
  refine ⟨g, listed, ?_⟩
  rcases List.mem_cons.mp isList with rfl | isWithin
  · exact ⟨_, List.mem_cons_self, rfl⟩
  · have isOwn : stmts ∈ g.stmts.flatMap ownLists := by
      rwa [Function.stmts, List.flatMap_assoc]
    exact ⟨⟨stmts, false⟩, List.mem_cons_of_mem _ (List.mem_map_of_mem isOwn), rfl⟩

section

variable (valid : shader.IsValid version)

include valid

theorem exists_accepted (listed : f ∈ shader.functions) :
    ∃ ctx : Check.Context, ctx.AcceptsList f.body.stmts := by
  rcases (Shader.isValid_iff.mp valid).2.decls.exists_acceptsFunction
    (Shader.mem_functions_iff.mp listed) with ⟨ctx, accepted⟩
  exact ⟨ctx.inFunction f, accepted.body⟩

/-- A statement that is found in a list stands there in its own function. -/
theorem standsAt_of_findList? (listed : f ∈ shader.functions) (isStmt : s ∈ f.stmts)
    {stmts : List Stmt} (found : shader.findList? s.id = some (stmts, position)) :
    ∃ number list, StandsAt f s number position list ∧ list.stmts = stmts := by
  have distinct := (Shader.isValid_iff.mp valid).1
  rcases Shader.findList?_eq_some found with ⟨isSearched, t, isMember, same⟩
  rcases exists_stmtLists_of_mem_searchedLists isSearched with ⟨g, listed', list, isList, rfl⟩
  rcases List.getElem?_of_mem isList with ⟨number, isList⟩
  have stands : StandsAt g t number position list := ⟨isList, isMember⟩
  rcases exists_accepted valid listed' with ⟨ctx, accepted⟩
  have isStmt' := stands.mem_stmts accepted
  -- What was found has the identifier of the statement, so it is the statement.
  cases Shader.stmt_eq_of_id_eq distinct (Shader.mem_stmts_of_mem_functions listed' isStmt')
    (Shader.mem_stmts_of_mem_functions listed isStmt) same
  cases Shader.function_eq_of_mem_stmts distinct listed listed' isStmt isStmt'
  exact ⟨number, list, stands, rfl⟩

/-- A statement is found in the list that it stands in, at its position. -/
theorem StandsAt.findList? (listed : f ∈ shader.functions)
    (stands : StandsAt f s number position list) :
    shader.findList? s.id = some (list.stmts, position) := by
  have distinct := (Shader.isValid_iff.mp valid).1
  rcases exists_accepted valid listed with ⟨ctx, accepted⟩
  have isSearched := mem_searchedLists_of_mem_stmtLists listed accepted
    (List.mem_of_getElem? stands.isList)
  have isFound := Shader.isSome_findList?_iff.mpr
    ⟨list.stmts, isSearched, List.mem_map_of_mem (List.mem_of_getElem? stands.isMember)⟩
  rcases Option.isSome_iff_exists.mp isFound with ⟨⟨stmts, position'⟩, found⟩
  rcases standsAt_of_findList? valid listed (stands.mem_stmts accepted) found with
    ⟨number', list', stands', rfl⟩
  rcases stands.unique distinct listed stands' with ⟨_, rfl, rfl⟩
  exact found

/-- A run that is put in the place of a statement gets into the list of the statement, between
those that stand around it. -/
theorem StandsAt.exists_spot (listed : f ∈ shader.functions)
    (stands : StandsAt f s number position list) :
    ∃ spot : Spot, spot.function = f ∧ shader.decls = spot.fill list.stmts ∧ ∀ run,
      shader.splice? s.id run = some { shader with
        decls := spot.fill (list.stmts.take position ++ (run ++ list.stmts.drop (position + 1))) } := by
  have distinct := (Shader.isValid_iff.mp valid).1
  rcases exists_spot_of_mem_stmtLists (Shader.isValid_iff.mp valid).2 listed
    (List.mem_of_getElem? stands.isList) with ⟨spot, isFunction, isAt⟩
  refine ⟨spot, isFunction, isAt, fun run => ?_⟩
  have isBetween : shader.decls = (spot.between (list.stmts.take position)
      (list.stmts.drop (position + 1))).fill [s] := by
    rwa [Spot.fill_between, List.singleton_append, ← stands.split]
  rw [Shader.splice?_fill isBetween distinct, Spot.fill_between]

/-- The list of a statement is marked as a body if it is that of the function. -/
theorem StandsAt.isBody_iff (listed : f ∈ shader.functions)
    (stands : StandsAt f s number position list) :
    list.isBody = true ↔ list.stmts = f.body.stmts := by
  constructor
  · intro isBody
    rcases List.mem_cons.mp (List.mem_of_getElem? stands.isList) with rfl | isInner
    · rfl
    · rcases List.mem_map.mp isInner with ⟨stmts, _, rfl⟩
      cases isBody
  · intro same
    have inBody : StandsAt f s 0 position ⟨f.body.stmts, true⟩ := ⟨rfl, same ▸ stands.isMember⟩
    rw [← (stands.unique (Shader.isValid_iff.mp valid).1 listed inBody).2.2]

/-- In a valid shader a simplification and the edit that it proposes see the same lists.  A
statement stands in a list of its function if a list is found for it, and then these are one list
and one position, where the edit also puts its run.  The list is marked as a body if it is that of
the function, and the statement stands nowhere else. -/
theorem findList?_agrees (listed : f ∈ shader.functions) (isStmt : s ∈ f.stmts) :
    ((∃ list ∈ stmtLists f, s ∈ list.stmts) ↔ (shader.findList? s.id).isSome) ∧
      ∀ number position list, StandsAt f s number position list →
        shader.findList? s.id = some (list.stmts, position) ∧
        (list.isBody = true ↔ list.stmts = f.body.stmts) ∧
        (∃ spot : Spot, spot.function = f ∧ shader.decls = spot.fill list.stmts ∧ ∀ run,
          shader.splice? s.id run = some { shader with
            decls := spot.fill
              (list.stmts.take position ++ (run ++ list.stmts.drop (position + 1))) }) ∧
        ∀ g ∈ shader.functions, ∀ number' position' list', StandsAt g s number' position' list' →
          g = f ∧ number' = number ∧ position' = position ∧ list' = list := by
  have distinct := (Shader.isValid_iff.mp valid).1
  constructor
  · rw [← exists_standsAt_iff]
    constructor
    · rintro ⟨number, position, list, stands⟩
      rw [stands.findList? valid listed]
      rfl
    · intro isFound
      rcases Option.isSome_iff_exists.mp isFound with ⟨⟨stmts, position⟩, found⟩
      rcases standsAt_of_findList? valid listed isStmt found with ⟨number, list, stands, _⟩
      exact ⟨number, position, list, stands⟩
  · intro number position list stands
    refine ⟨stands.findList? valid listed, stands.isBody_iff valid listed,
      stands.exists_spot valid listed, fun g listed' number' position' list' stands' => ?_⟩
    rcases exists_accepted valid listed' with ⟨ctx, accepted⟩
    cases Shader.function_eq_of_mem_stmts distinct listed listed' isStmt (stands'.mem_stmts accepted)
    exact ⟨rfl, stands.unique distinct listed stands'⟩

end

/-- The function `void main() { for (int i = 0; i < 1; i++) switch (i) { case 0: discard; default:
{ return; } } }`. -/
def switchedLoop : Function :=
  ⟨0, .void, "main", [], ⟨1, [.forLoop 2 (some (.decl 3 ⟨4, none, .int, "i", some (.int 5 0)⟩))
    (some (.binary 6 .lt (.var 7 "i") (.int 8 1))) (some (.unary 9 .postIncrement (.var 10 "i")))
    (.switch 11 (.var 12 "i")
      [.mk 13 (.value 0) [.discard 14],
       .mk 15 .otherwise [.block 16 17 [.ret 18 none]]])]⟩⟩

/-- The shader of this function alone. -/
def switchedShader : Shader :=
  ⟨.essl300, [.function switchedLoop], 19⟩

/-- The `discard` is found in the list of its case.  The initialiser and the body of the loop stand
in no list, so none is found for them. -/
theorem findList?_agrees_switchedLoop :
    switchedShader.IsValid .essl300 ∧
      StandsAt switchedLoop (.discard 14) 1 0 ⟨[.discard 14], false⟩ ∧
      switchedShader.findList? 14 = some ([.discard 14], 0) ∧
      ∀ s ∈ switchedLoop.stmts, s.id = 3 ∨ s.id = 11 →
        ¬∃ list ∈ stmtLists switchedLoop, s ∈ list.stmts := by
  have valid : switchedShader.IsValid .essl300 := by decide
  have listed : switchedLoop ∈ switchedShader.functions := List.mem_cons_self
  have stands : StandsAt switchedLoop (.discard 14) 1 0 ⟨[.discard 14], false⟩ := ⟨rfl, rfl⟩
  have isAt : switchedLoop.stmts[3]? = some (.discard 14) := rfl
  have isStmt := List.mem_of_getElem? isAt
  refine ⟨valid, stands, ((findList?_agrees valid listed isStmt).2 1 0 _ stands).1, ?_⟩
  intro s isStmt isId isMember
  have found := (findList?_agrees valid listed isStmt).1.mp isMember
  rcases isId with isId | isId <;>
    · rw [isId] at found
      cases found

end Reduction
end Whittle
