import Mathlib.Data.List.Flatten
import Mathlib.Data.List.Nodup
import Whittle.Syntax.Numbering

namespace Whittle

/-!
# Identifiers of all nodes

Besides statements and expressions, a shader has nodes of six other sorts:
declarations, fields, parameters, blocks, variables and cases.  The lists here
hold the identifiers of every node of a tree in the order of the text, a node
before what it contains.  An identifier that stands twice in such a list belongs
to two nodes.

Numbering a tree gives its nodes consecutive identifiers in this order, so a
freshly numbered shader has no identifier twice and none that it has yet to hand
out.
-/

mutual

def Expr.ids : Expr → List NodeId
  | .int id _ | .float id _ | .bool id _ | .var id _ => [id]
  | .unary id _ operand => id :: operand.ids
  | .binary id _ lhs rhs => id :: (lhs.ids ++ rhs.ids)
  | .assign id _ target value => id :: (target.ids ++ value.ids)
  | .ternary id cond whenTrue whenFalse => id :: (cond.ids ++ (whenTrue.ids ++ whenFalse.ids))
  | .call id _ args => id :: Expr.idsOfList args
  | .member id base _ => id :: base.ids
  | .index id base position => id :: (base.ids ++ position.ids)
  | .paren id inner => id :: inner.ids

def Expr.idsOfList : List Expr → List NodeId
  | [] => []
  | e :: rest => e.ids ++ Expr.idsOfList rest

end

def Expr.idsOfOption : Option Expr → List NodeId
  | none => []
  | some e => e.ids

def VarDecl.ids (var : VarDecl) : List NodeId :=
  var.id :: Expr.idsOfOption var.init

mutual

def Stmt.ids : Stmt → List NodeId
  | .decl id var => id :: var.ids
  | .expr id e => id :: e.ids
  | .block id scope stmts => id :: scope :: Stmt.idsOfList stmts
  | .branch id cond whenTrue whenFalse =>
      id :: (cond.ids ++ (whenTrue.ids ++ Stmt.idsOfOption whenFalse))
  | .forLoop id init cond step body =>
      id :: (Stmt.idsOfOption init ++
        (Expr.idsOfOption cond ++ (Expr.idsOfOption step ++ body.ids)))
  | .whileLoop id cond body => id :: (cond.ids ++ body.ids)
  | .switch id selector cases => id :: (selector.ids ++ Stmt.idsOfCases cases)
  | .ret id value => id :: Expr.idsOfOption value
  | .breakOut id | .continueLoop id | .discard id | .empty id => [id]

def Stmt.idsOfList : List Stmt → List NodeId
  | [] => []
  | s :: rest => s.ids ++ Stmt.idsOfList rest

def Stmt.idsOfOption : Option Stmt → List NodeId
  | none => []
  | some s => s.ids

def Stmt.idsOfCases : List Case → List NodeId
  | [] => []
  | .mk id _ body :: rest => id :: (Stmt.idsOfList body ++ Stmt.idsOfCases rest)

end

def Decl.ids : Decl → List NodeId
  | .precision decl => [decl.id]
  | .struct decl => decl.id :: decl.fields.map Field.id
  | .global var => var.ids
  | .function f =>
      f.id :: (f.params.map Param.id ++ (f.body.id :: Stmt.idsOfList f.body.stmts))

def Shader.ids (shader : Shader) : List NodeId :=
  shader.decls.flatMap Decl.ids

/-- No two nodes of the shader have one identifier, and none has one that the
shader has yet to hand out. -/
def Shader.IsNumbered (shader : Shader) : Prop :=
  shader.ids.Nodup ∧ ∀ id ∈ shader.ids, id < shader.nextId

theorem Expr.idsOfList_append (first second : List Expr) :
    Expr.idsOfList (first ++ second) = Expr.idsOfList first ++ Expr.idsOfList second := by
  induction first with
  | nil => rfl
  | cons e rest ih => rw [List.cons_append, idsOfList, idsOfList, ih, List.append_assoc]

theorem Stmt.idsOfList_append (first second : List Stmt) :
    Stmt.idsOfList (first ++ second) = Stmt.idsOfList first ++ Stmt.idsOfList second := by
  induction first with
  | nil => rfl
  | cons s rest ih => rw [List.cons_append, idsOfList, idsOfList, ih, List.append_assoc]

theorem Stmt.idsOfCases_append (first second : List Case) :
    Stmt.idsOfCases (first ++ second) = Stmt.idsOfCases first ++ Stmt.idsOfCases second := by
  induction first with
  | nil => rfl
  | cons one rest ih =>
      cases one
      simp only [List.cons_append, idsOfCases, ih, List.append_assoc]

mutual

/-- The sub-expressions of an expression have its identifiers, in order. -/
theorem Expr.map_id_subexprs (e : Expr) : e.subexprs.map Expr.id = e.ids := by
  cases e with
  | call _ _ args => simp only [subexprs, ids, List.map_cons, id, map_id_subexprsOfList]
  | _ =>
      simp only [subexprs, ids, List.map_cons, List.map_nil, List.map_append, id,
        map_id_subexprs, List.append_assoc]

theorem Expr.map_id_subexprsOfList (es : List Expr) :
    (Expr.subexprsOfList es).map Expr.id = Expr.idsOfList es := by
  match es with
  | [] => rfl
  | e :: rest =>
      simp only [subexprsOfList, idsOfList, List.map_append, map_id_subexprs,
        map_id_subexprsOfList]

end

private theorem cons_range' (start count : Nat) :
    start :: List.range' (start + 1) count = List.range' start (1 + count) := by
  rw [Nat.add_comm 1, List.range'_succ]

mutual

/-- A numbered expression has consecutive identifiers in the order of the
text. -/
theorem Expr.ids_numbered (start : NodeId) (e : Expr) :
    (e.numbered start).ids = List.range' start e.size := by
  cases e with
  | call _ _ args => simp only [numbered, ids, size, idsOfList_numberedList, cons_range']
  | int | float | bool | var => simp only [numbered, ids, size, List.range'_one]
  | unary | member | paren => simp only [numbered, ids, size, ids_numbered, cons_range']
  | binary | assign | ternary | index =>
      simp only [numbered, ids, size, ids_numbered, List.range'_append_1, cons_range']
      simp only [Nat.add_assoc]

theorem Expr.idsOfList_numberedList (start : NodeId) (es : List Expr) :
    Expr.idsOfList (Expr.numberedList start es) = List.range' start (Expr.sizeOfList es) := by
  match es with
  | [] => rfl
  | e :: rest =>
      simp only [numberedList, idsOfList, sizeOfList, ids_numbered, idsOfList_numberedList,
        List.range'_append_1]

end

theorem Expr.idsOfOption_map_numbered (start : NodeId) (e? : Option Expr) :
    Expr.idsOfOption (e?.map (Expr.numbered start)) =
      List.range' start (Expr.sizeOfOption e?) := by
  cases e? with
  | none => rfl
  | some e => exact ids_numbered start e

theorem VarDecl.ids_numbered (start : NodeId) (var : VarDecl) :
    (var.numbered start).ids = List.range' start var.size := by
  simp only [numbered, ids, size, Expr.idsOfOption_map_numbered, cons_range']

mutual

/-- A numbered statement has consecutive identifiers in the order of the
text. -/
theorem Stmt.ids_numbered (start : NodeId) (s : Stmt) :
    (s.numbered start).ids = List.range' start s.size := by
  cases s with
  | decl _ var => simp only [numbered, ids, size, VarDecl.ids_numbered, cons_range']
  | expr _ e => simp only [numbered, ids, size, Expr.ids_numbered, cons_range']
  | block _ _ stmts =>
      simp only [numbered, ids, size, idsOfList_numberedList]
      rw [cons_range' (start + 1), cons_range' start, ← Nat.add_assoc]
  | branch _ cond whenTrue whenFalse =>
      simp only [numbered, ids, size, Expr.ids_numbered, ids_numbered,
        idsOfOption_numberedOption, List.range'_append_1, cons_range']
      simp only [Nat.add_assoc]
  | forLoop _ init cond step body =>
      simp only [numbered, ids, size, ids_numbered, idsOfOption_numberedOption,
        Expr.idsOfOption_map_numbered, List.range'_append_1, cons_range']
      simp only [Nat.add_assoc]
  | whileLoop _ cond body =>
      simp only [numbered, ids, size, Expr.ids_numbered, ids_numbered, List.range'_append_1,
        cons_range']
      simp only [Nat.add_assoc]
  | switch _ selector cases =>
      simp only [numbered, ids, size, Expr.ids_numbered, idsOfCases_numberedCases,
        List.range'_append_1, cons_range']
      simp only [Nat.add_assoc]
  | ret _ value => simp only [numbered, ids, size, Expr.idsOfOption_map_numbered, cons_range']
  | breakOut | continueLoop | discard | empty =>
      simp only [numbered, ids, size, List.range'_one]

theorem Stmt.idsOfList_numberedList (start : NodeId) (stmts : List Stmt) :
    Stmt.idsOfList (Stmt.numberedList start stmts) =
      List.range' start (Stmt.sizeOfList stmts) := by
  match stmts with
  | [] => rfl
  | s :: rest =>
      simp only [numberedList, idsOfList, sizeOfList, ids_numbered, idsOfList_numberedList,
        List.range'_append_1]

theorem Stmt.idsOfOption_numberedOption (start : NodeId) (s? : Option Stmt) :
    Stmt.idsOfOption (Stmt.numberedOption start s?) =
      List.range' start (Stmt.sizeOfOption s?) := by
  match s? with
  | none => rfl
  | some s => simp only [numberedOption, idsOfOption, sizeOfOption, ids_numbered]

theorem Stmt.idsOfCases_numberedCases (start : NodeId) (cases : List Case) :
    Stmt.idsOfCases (Stmt.numberedCases start cases) =
      List.range' start (Stmt.sizeOfCases cases) := by
  match cases with
  | [] => rfl
  | .mk _ _ body :: rest =>
      simp only [numberedCases, idsOfCases, sizeOfCases, idsOfList_numberedList,
        idsOfCases_numberedCases, List.range'_append_1, cons_range']
      simp only [Nat.add_assoc]

end

theorem Field.map_id_numberedList (start : NodeId) (fields : List Field) :
    (Field.numberedList start fields).map Field.id = List.range' start fields.length := by
  apply List.ext_getElem
  · simp only [numberedList, List.length_map, List.length_mapIdx, List.length_range']
  · intro position _ _
    simp only [numberedList, List.getElem_map, List.getElem_mapIdx, List.getElem_range',
      Nat.one_mul]

theorem Param.map_id_numberedList (start : NodeId) (params : List Param) :
    (Param.numberedList start params).map Param.id = List.range' start params.length := by
  apply List.ext_getElem
  · simp only [numberedList, List.length_map, List.length_mapIdx, List.length_range']
  · intro position _ _
    simp only [numberedList, List.getElem_map, List.getElem_mapIdx, List.getElem_range',
      Nat.one_mul]

theorem Decl.ids_numbered (start : NodeId) (decl : Decl) :
    (decl.numbered start).ids = List.range' start decl.size := by
  cases decl with
  | precision => rfl
  | struct decl => simp only [numbered, ids, size, Field.map_id_numberedList, cons_range']
  | global var => exact var.ids_numbered start
  | function f =>
      simp only [numbered, ids, size, Param.map_id_numberedList, Stmt.idsOfList_numberedList,
        List.range'_append_1, cons_range']
      congr 1
      omega

theorem Decl.ids_numberedList (start : NodeId) (decls : List Decl) :
    (Decl.numberedList start decls).flatMap Decl.ids =
      List.range' start (Decl.sizeOfList decls) := by
  induction decls generalizing start with
  | nil => rfl
  | cons decl rest inductionHypothesis =>
      simp only [numberedList, sizeOfList, List.flatMap_cons, ids_numbered,
        inductionHypothesis, List.range'_append_1]

/-- A shader that was just numbered has the identifiers from zero up to the next
one to hand out, in the order of the text. -/
theorem Shader.ids_ofDecls (version : Version) (decls : List Decl) :
    (Shader.ofDecls version decls).ids = List.range (Shader.ofDecls version decls).nextId := by
  rw [List.range_eq_range']
  exact Decl.ids_numberedList 0 decls

theorem Shader.isNumbered_ofDecls (version : Version) (decls : List Decl) :
    (Shader.ofDecls version decls).IsNumbered := by
  unfold IsNumbered
  rw [ids_ofDecls]
  exact ⟨List.nodup_range, fun _ listed => List.mem_range.mp listed⟩

/-! ## Expressions and statements among the nodes -/

theorem Expr.idsOfList_eq_flatMap (es : List Expr) : Expr.idsOfList es = es.flatMap Expr.ids := by
  induction es with
  | nil => rfl
  | cons e rest inductionHypothesis => rw [idsOfList, inductionHypothesis, List.flatMap_cons]

theorem Stmt.idsOfList_eq_flatMap (stmts : List Stmt) :
    Stmt.idsOfList stmts = stmts.flatMap Stmt.ids := by
  induction stmts with
  | nil => rfl
  | cons s rest inductionHypothesis => rw [idsOfList, inductionHypothesis, List.flatMap_cons]

theorem Stmt.id_mem_ids (s : Stmt) : s.id ∈ s.ids := by
  cases s <;> exact List.mem_cons_self

theorem Expr.ids_eq_cons (e : Expr) : e.ids = e.id :: e.children.flatMap Expr.ids := by
  cases e <;> simp [ids, id, children, idsOfList_eq_flatMap]

private theorem sublist_flatMap_of_mem {α β : Type} {f : α → List β} {a : α} {as : List α}
    (listed : a ∈ as) : (f a).Sublist (as.flatMap f) := by
  rcases List.append_of_mem listed with ⟨before, behind, rfl⟩
  rw [List.flatMap_append, List.flatMap_cons]
  exact (List.sublist_append_left _ _).trans (List.sublist_append_right _ _)

/-- If nothing is yielded twice, each element is yielded in one place. -/
theorem index_eq_of_mem_flatMap {α β : Type} {f : α → List β} {as : List α}
    (distinct : (as.flatMap f).Nodup) {i j : Nat} {a a' : α} (isAt : as[i]? = some a)
    (isAt' : as[j]? = some a') {b : β} (within : b ∈ f a) (within' : b ∈ f a') : i = j := by
  rcases List.getElem?_eq_some_iff.mp isAt with ⟨inside, rfl⟩
  rcases List.getElem?_eq_some_iff.mp isAt' with ⟨inside', rfl⟩
  have apart := List.pairwise_iff_getElem.mp (List.nodup_flatMap.mp distinct).2
  rcases Nat.lt_trichotomy i j with before | same | behind
  · exact (apart i j inside inside' before within within').elim
  · exact same
  · exact (apart j i inside' inside behind within' within).elim

theorem eq_of_mem_flatMap {α β : Type} {f : α → List β} {as : List α}
    (distinct : (as.flatMap f).Nodup) {a a' : α} (listed : a ∈ as) (listed' : a' ∈ as) {b : β}
    (within : b ∈ f a) (within' : b ∈ f a') : a = a' := by
  rcases List.getElem?_of_mem listed with ⟨i, isAt⟩
  rcases List.getElem?_of_mem listed' with ⟨j, isAt'⟩
  cases index_eq_of_mem_flatMap distinct isAt isAt' within within'
  exact Option.some.inj (isAt.symm.trans isAt')

/-- The identifiers of a part of an expression are among those of the whole. -/
theorem Expr.ids_sublist_of_mem_subexprs {part e : Expr} (listed : part ∈ e.subexprs) :
    part.ids.Sublist e.ids := by
  induction e using children_induction with
  | step e inductionHypothesis =>
      rw [subexprs_eq_cons] at listed
      rcases List.mem_cons.mp listed with rfl | within
      · exact .refl _
      · rcases List.mem_flatMap.mp within with ⟨child, isChild, listed⟩
        rw [ids_eq_cons e]
        exact ((inductionHypothesis child isChild listed).trans
          (sublist_flatMap_of_mem isChild)).trans (List.sublist_cons_self _ _)

theorem Expr.flatMap_map_id_subexprs (es : List Expr) :
    (es.flatMap subexprs).map Expr.id = es.flatMap Expr.ids := by
  simp only [List.map_flatMap, map_id_subexprs]

mutual

/-- The identifiers of all expressions of a statement are among its
identifiers. -/
theorem Stmt.ids_roots_sublist (s : Stmt) : (s.roots.flatMap Expr.ids).Sublist s.ids := by
  cases s with
  | decl id var =>
      rcases var with ⟨varId, qualifier, ty, name, init⟩
      cases init <;> simp [roots, ids, VarDecl.ids, Expr.idsOfOption]
  | expr => simp [roots, ids]
  | block _ _ stmts =>
      exact ((ids_rootsOfList_sublist stmts).cons _).cons _
  | branch _ cond whenTrue whenFalse =>
      rw [roots, ids, List.flatMap_cons, List.flatMap_append]
      exact ((List.Sublist.refl _).append
        ((ids_roots_sublist whenTrue).append (ids_rootsOfOption_sublist whenFalse))).cons _
  | forLoop _ init cond step body =>
      rw [roots, ids]
      simp only [List.flatMap_append, List.append_assoc]
      refine ((ids_rootsOfOption_sublist init).append (List.Sublist.append ?_
        (List.Sublist.append ?_ (ids_roots_sublist body)))).cons _
      · cases cond <;> simp [Expr.idsOfOption]
      · cases step <;> simp [Expr.idsOfOption]
  | whileLoop _ cond body =>
      rw [roots, ids, List.flatMap_cons]
      exact ((List.Sublist.refl _).append (ids_roots_sublist body)).cons _
  | switch _ selector cases =>
      rw [roots, ids, List.flatMap_cons]
      exact ((List.Sublist.refl _).append (ids_rootsOfCases_sublist cases)).cons _
  | ret _ value => cases value <;> simp [roots, ids, Expr.idsOfOption]
  | breakOut | continueLoop | discard | empty => simp [roots]

theorem Stmt.ids_rootsOfList_sublist (stmts : List Stmt) :
    ((Stmt.rootsOfList stmts).flatMap Expr.ids).Sublist (Stmt.idsOfList stmts) := by
  match stmts with
  | [] => exact .refl _
  | s :: rest =>
      rw [rootsOfList, idsOfList, List.flatMap_append]
      exact (ids_roots_sublist s).append (ids_rootsOfList_sublist rest)

theorem Stmt.ids_rootsOfOption_sublist (s? : Option Stmt) :
    ((Stmt.rootsOfOption s?).flatMap Expr.ids).Sublist (Stmt.idsOfOption s?) := by
  match s? with
  | none => exact .refl _
  | some s => exact ids_roots_sublist s

theorem Stmt.ids_rootsOfCases_sublist (cases : List Case) :
    ((Stmt.rootsOfCases cases).flatMap Expr.ids).Sublist (Stmt.idsOfCases cases) := by
  match cases with
  | [] => exact .refl _
  | .mk _ _ body :: rest =>
      rw [rootsOfCases, idsOfCases, List.flatMap_append]
      exact ((ids_rootsOfList_sublist body).append (ids_rootsOfCases_sublist rest)).cons _

end

mutual

/-- The identifiers of the statements within a statement are among its
identifiers. -/
theorem Stmt.map_id_substmts_sublist (s : Stmt) : (s.substmts.map Stmt.id).Sublist s.ids := by
  cases s with
  | block _ _ stmts =>
      rw [substmts, ids, List.map_cons]
      exact ((map_id_substmtsOfList_sublist stmts).cons _).cons_cons _
  | branch _ cond whenTrue whenFalse =>
      rw [substmts, ids, List.map_cons, List.map_append]
      exact (((map_id_substmts_sublist whenTrue).append
        (map_id_substmtsOfOption_sublist whenFalse)).trans
          (List.sublist_append_right _ _)).cons_cons _
  | forLoop _ init cond step body =>
      rw [substmts, ids, List.map_cons, List.map_append]
      exact ((map_id_substmtsOfOption_sublist init).append
        (((map_id_substmts_sublist body).trans (List.sublist_append_right _ _)).trans
          (List.sublist_append_right _ _))).cons_cons _
  | whileLoop _ cond body =>
      rw [substmts, ids, List.map_cons]
      exact ((map_id_substmts_sublist body).trans (List.sublist_append_right _ _)).cons_cons _
  | switch _ selector cases =>
      rw [substmts, ids, List.map_cons]
      exact ((map_id_substmtsOfCases_sublist cases).trans (List.sublist_append_right _ _)).cons_cons _
  | decl | expr | ret | breakOut | continueLoop | discard | empty =>
      simp [substmts, ids, Stmt.id]

theorem Stmt.map_id_substmtsOfList_sublist (stmts : List Stmt) :
    ((Stmt.substmtsOfList stmts).map Stmt.id).Sublist (Stmt.idsOfList stmts) := by
  match stmts with
  | [] => exact .refl _
  | s :: rest =>
      rw [substmtsOfList, idsOfList, List.map_append]
      exact (map_id_substmts_sublist s).append (map_id_substmtsOfList_sublist rest)

theorem Stmt.map_id_substmtsOfOption_sublist (s? : Option Stmt) :
    ((Stmt.substmtsOfOption s?).map Stmt.id).Sublist (Stmt.idsOfOption s?) := by
  match s? with
  | none => exact .refl _
  | some s => exact map_id_substmts_sublist s

theorem Stmt.map_id_substmtsOfCases_sublist (cases : List Case) :
    ((Stmt.substmtsOfCases cases).map Stmt.id).Sublist (Stmt.idsOfCases cases) := by
  match cases with
  | [] => exact .refl _
  | .mk _ _ body :: rest =>
      rw [substmtsOfCases, idsOfCases, List.map_append]
      exact ((map_id_substmtsOfList_sublist body).append
        (map_id_substmtsOfCases_sublist rest)).cons _

end

theorem Decl.ids_roots_sublist (decl : Decl) : (decl.roots.flatMap Expr.ids).Sublist decl.ids := by
  cases decl with
  | precision | struct => exact List.nil_sublist _
  | global var =>
      rcases var with ⟨varId, qualifier, ty, name, init⟩
      cases init <;> simp [roots, ids, VarDecl.ids, Expr.idsOfOption]
  | function f =>
      have body := Stmt.ids_rootsOfList_sublist f.body.stmts
      rw [Stmt.rootsOfList_eq_flatMap] at body
      exact ((body.cons _).trans (List.sublist_append_right _ _)).cons _

theorem Decl.map_id_stmts_sublist (decl : Decl) : (decl.stmts.map Stmt.id).Sublist decl.ids := by
  cases decl with
  | precision | struct | global => exact List.nil_sublist _
  | function f =>
      have body := Stmt.map_id_substmtsOfList_sublist f.body.stmts
      rw [Stmt.substmtsOfList_eq_flatMap] at body
      exact ((body.cons _).trans (List.sublist_append_right _ _)).cons _

namespace Shader

theorem map_id_exprs_sublist (shader : Shader) : (shader.exprs.map Expr.id).Sublist shader.ids := by
  rw [exprs, Expr.flatMap_map_id_subexprs, roots, List.flatMap_assoc]
  exact List.Sublist.flatMap_right shader.decls fun decl _ => decl.ids_roots_sublist

theorem map_id_stmts_sublist (shader : Shader) : (shader.stmts.map Stmt.id).Sublist shader.ids := by
  rw [stmts, List.map_flatMap]
  exact List.Sublist.flatMap_right shader.decls fun decl _ => decl.map_id_stmts_sublist

theorem nodup_flatMap_ids_roots {shader : Shader} (distinct : shader.ids.Nodup) :
    (shader.roots.flatMap Expr.ids).Nodup := by
  have part := map_id_exprs_sublist shader
  rw [exprs, Expr.flatMap_map_id_subexprs] at part
  exact distinct.sublist part

theorem mem_exprs_of_mem_children {shader : Shader} {child e : Expr} (isChild : child ∈ e.children)
    (listed : e ∈ shader.exprs) : child ∈ shader.exprs := by
  rcases List.mem_flatMap.mp listed with ⟨root, isRoot, isPart⟩
  exact List.mem_flatMap.mpr ⟨root, isRoot,
    Expr.mem_subexprs_of_child isChild isPart⟩

/-- Where no two nodes have one identifier, an expression is known by its own. -/
theorem expr_eq_of_id_eq {shader : Shader} (distinct : shader.ids.Nodup) {e e' : Expr}
    (listed : e ∈ shader.exprs) (listed' : e' ∈ shader.exprs) (same : e.id = e'.id) : e = e' :=
  List.inj_on_of_nodup_map (distinct.sublist shader.map_id_exprs_sublist) listed listed' same

theorem id_mem_map_filter_iff {shader : Shader} (distinct : shader.ids.Nodup) {p : Expr → Bool}
    {e : Expr} (listed : e ∈ shader.exprs) :
    e.id ∈ (shader.exprs.filter p).map Expr.id ↔ p e = true := by
  refine ⟨fun isFound => ?_, fun fits => List.mem_map_of_mem (List.mem_filter.mpr ⟨listed, fits⟩)⟩
  rcases List.mem_map.mp isFound with ⟨other, isOther, same⟩
  rcases List.mem_filter.mp isOther with ⟨listed', fits⟩
  rwa [← expr_eq_of_id_eq distinct listed' listed same]

/-- Where no two nodes have one identifier, a statement is known by its own. -/
theorem stmt_eq_of_id_eq {shader : Shader} (distinct : shader.ids.Nodup) {s s' : Stmt}
    (listed : s ∈ shader.stmts) (listed' : s' ∈ shader.stmts) (same : s.id = s'.id) : s = s' :=
  List.inj_on_of_nodup_map (distinct.sublist shader.map_id_stmts_sublist) listed listed' same

end Shader
end Whittle
