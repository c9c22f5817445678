import Whittle.Proofs.Identifiers.MapIds

namespace Whittle

/-!
# Numbering in the order of the text

Declarations may carry any identifiers before they are numbered, repeated ones included.  The
numbering reads none of them: it changes identifiers and nothing else, and it goes through the
nodes in the order of the text.  So the node at a position of this order gets the position as
its identifier, and the first number that is left is the number of the nodes.

That nothing else changes is said by forgetting the identifiers on both sides, which is to map
all of them to one.
-/

/-- The declaration without its identifiers: every node has the one of unnumbered nodes. -/
def Decl.bare (decl : Decl) : Decl :=
  decl.mapIds fun _ => .unnumbered

section

variable (image : NodeId → NodeId)

mutual

theorem Expr.ids_mapIds (e : Expr) : (e.mapIds image).ids = e.ids.map image := by
  cases e with
  | call id callee args => simp only [mapIds, ids, List.map_cons, idsOfList_mapIdsOfList]
  | _ => simp only [mapIds, ids, List.map_cons, List.map_nil, List.map_append, ids_mapIds]

theorem Expr.idsOfList_mapIdsOfList (es : List Expr) :
    idsOfList (mapIdsOfList image es) = (idsOfList es).map image := by
  match es with
  | [] => rfl
  | e :: rest =>
      simp only [mapIdsOfList, idsOfList, List.map_append, ids_mapIds, idsOfList_mapIdsOfList]

end

theorem Expr.idsOfOption_map_mapIds (e? : Option Expr) :
    idsOfOption (e?.map (mapIds image)) = (idsOfOption e?).map image := by
  cases e? with
  | none => rfl
  | some e => exact ids_mapIds image e

theorem VarDecl.ids_mapIds (var : VarDecl) : (var.mapIds image).ids = var.ids.map image := by
  rw [mapIds, ids, ids, List.map_cons, Expr.idsOfOption_map_mapIds]

mutual

theorem Stmt.ids_mapIds (s : Stmt) : (s.mapIds image).ids = s.ids.map image := by
  cases s <;>
    simp only [mapIds, ids, List.map_cons, List.map_nil, List.map_append, VarDecl.ids_mapIds,
      Expr.ids_mapIds, Expr.idsOfOption_map_mapIds, ids_mapIds, idsOfList_mapIdsOfList,
      idsOfOption_mapIdsOfOption, idsOfCases_mapIdsOfCases]

theorem Stmt.idsOfList_mapIdsOfList (stmts : List Stmt) :
    idsOfList (mapIdsOfList image stmts) = (idsOfList stmts).map image := by
  match stmts with
  | [] => rfl
  | s :: rest =>
      simp only [mapIdsOfList, idsOfList, List.map_append, ids_mapIds, idsOfList_mapIdsOfList]

theorem Stmt.idsOfOption_mapIdsOfOption (s? : Option Stmt) :
    idsOfOption (mapIdsOfOption image s?) = (idsOfOption s?).map image := by
  match s? with
  | none => rfl
  | some s => simp only [mapIdsOfOption, idsOfOption, ids_mapIds]

theorem Stmt.idsOfCases_mapIdsOfCases (cases : List Case) :
    idsOfCases (mapIdsOfCases image cases) = (idsOfCases cases).map image := by
  match cases with
  | [] => rfl
  | .mk id label body :: rest =>
      simp only [mapIdsOfCases, idsOfCases, List.map_cons, List.map_append,
        idsOfList_mapIdsOfList, idsOfCases_mapIdsOfCases]

end

theorem Decl.ids_mapIds (decl : Decl) : (decl.mapIds image).ids = decl.ids.map image := by
  cases decl with
  | precision decl => rfl
  | struct decl =>
      rw [mapIds, ids, ids, StructDecl.mapIds, List.map_cons, List.map_map, List.map_map]
      rfl
  | global var => exact var.ids_mapIds image
  | function f =>
      rw [mapIds, ids, ids, Function.mapIds, List.map_cons, List.map_append, List.map_cons,
        Stmt.idsOfList_mapIdsOfList, List.map_map, List.map_map]
      rfl

end

section

variable (common : NodeId)

mutual

theorem Expr.mapIds_numbered (start : NodeId) (e : Expr) :
    ((e.numbered start).mapIds fun _ => common) = e.mapIds fun _ => common := by
  cases e with
  | call id callee args => simp only [numbered, mapIds, mapIdsOfList_numberedList]
  | _ => simp only [numbered, mapIds, mapIds_numbered]

theorem Expr.mapIdsOfList_numberedList (start : NodeId) (es : List Expr) :
    mapIdsOfList (fun _ => common) (numberedList start es) = mapIdsOfList (fun _ => common) es := by
  match es with
  | [] => rfl
  | e :: rest =>
      simp only [numberedList, mapIdsOfList, mapIds_numbered, mapIdsOfList_numberedList]

end

theorem Expr.map_mapIds_numbered (start : NodeId) (e? : Option Expr) :
    (e?.map (numbered start)).map (mapIds fun _ => common) = e?.map (mapIds fun _ => common) := by
  rw [Option.map_map]
  exact Option.map_congr fun e _ => mapIds_numbered common start e

theorem VarDecl.mapIds_numbered (start : NodeId) (var : VarDecl) :
    ((var.numbered start).mapIds fun _ => common) = var.mapIds fun _ => common := by
  rw [numbered, mapIds, mapIds, Expr.map_mapIds_numbered]

mutual

theorem Stmt.mapIds_numbered (start : NodeId) (s : Stmt) :
    ((s.numbered start).mapIds fun _ => common) = s.mapIds fun _ => common := by
  cases s <;>
    simp only [numbered, mapIds, VarDecl.mapIds_numbered, Expr.mapIds_numbered,
      Expr.map_mapIds_numbered, mapIds_numbered, mapIdsOfList_numberedList,
      mapIdsOfOption_numberedOption, mapIdsOfCases_numberedCases]

theorem Stmt.mapIdsOfList_numberedList (start : NodeId) (stmts : List Stmt) :
    mapIdsOfList (fun _ => common) (numberedList start stmts) =
      mapIdsOfList (fun _ => common) stmts := by
  match stmts with
  | [] => rfl
  | s :: rest =>
      simp only [numberedList, mapIdsOfList, mapIds_numbered, mapIdsOfList_numberedList]

theorem Stmt.mapIdsOfOption_numberedOption (start : NodeId) (s? : Option Stmt) :
    mapIdsOfOption (fun _ => common) (numberedOption start s?) =
      mapIdsOfOption (fun _ => common) s? := by
  match s? with
  | none => rfl
  | some s => simp only [numberedOption, mapIdsOfOption, mapIds_numbered]

theorem Stmt.mapIdsOfCases_numberedCases (start : NodeId) (cases : List Case) :
    mapIdsOfCases (fun _ => common) (numberedCases start cases) =
      mapIdsOfCases (fun _ => common) cases := by
  match cases with
  | [] => rfl
  | .mk id label body :: rest =>
      simp only [numberedCases, mapIdsOfCases, mapIdsOfList_numberedList,
        mapIdsOfCases_numberedCases]

end

theorem Field.map_mapId_numberedList (start : NodeId) (fields : List Field) :
    (numberedList start fields).map (mapId fun _ => common) =
      fields.map (mapId fun _ => common) := by
  apply List.ext_getElem
  · rw [numberedList, List.length_map, List.length_map, List.length_mapIdx]
  · intro position _ _
    simp only [numberedList, mapId, List.getElem_map, List.getElem_mapIdx]

theorem Param.map_mapId_numberedList (start : NodeId) (params : List Param) :
    (numberedList start params).map (mapId fun _ => common) =
      params.map (mapId fun _ => common) := by
  apply List.ext_getElem
  · rw [numberedList, List.length_map, List.length_map, List.length_mapIdx]
  · intro position _ _
    simp only [numberedList, mapId, List.getElem_map, List.getElem_mapIdx]

end

namespace Decl

theorem bare_numbered (start : NodeId) (decl : Decl) : (decl.numbered start).bare = decl.bare := by
  cases decl with
  | precision decl => rfl
  | struct decl =>
      simp only [numbered, bare, mapIds, StructDecl.mapIds, Field.map_mapId_numberedList]
  | global var => exact congrArg Decl.global (var.mapIds_numbered _ start)
  | function f =>
      simp only [numbered, bare, mapIds, Function.mapIds, Param.map_mapId_numberedList,
        Stmt.mapIdsOfList_numberedList]

theorem map_bare_numberedList (start : NodeId) (decls : List Decl) :
    (numberedList start decls).map bare = decls.map bare := by
  induction decls generalizing start with
  | nil => rfl
  | cons decl rest inductionHypothesis =>
      rw [numberedList, List.map_cons, List.map_cons, bare_numbered, inductionHypothesis]

/-- How many nodes a declaration has can be seen without its identifiers. -/
theorem length_ids_bare (decl : Decl) : decl.bare.ids.length = decl.ids.length := by
  rw [bare, ids_mapIds, List.length_map]

theorem length_flatMap_ids_eq_of_map_bare_eq {decls decls' : List Decl}
    (same : decls.map bare = decls'.map bare) :
    (decls.flatMap ids).length = (decls'.flatMap ids).length := by
  have ofBare : ∀ decls : List Decl,
      (decls.flatMap ids).length = ((decls.map bare).flatMap ids).length := by
    intro decls
    simp only [List.length_flatMap, List.map_map, Function.comp_def, length_ids_bare]
  rw [ofBare decls, ofBare decls', same]

end Decl

/-- Numbering gives the nodes of any declarations their positions in the order of the text as
identifiers.  The next identifier is the number of nodes, and neither the version nor anything in
the declarations changes but identifiers. -/
theorem Shader.ofDecls_numbers_in_order (version : Version) (decls : List Decl) :
    (ofDecls version decls).ids = List.range (decls.flatMap Decl.ids).length ∧
      (ofDecls version decls).nextId = (decls.flatMap Decl.ids).length ∧
      (ofDecls version decls).version = version ∧
      (ofDecls version decls).decls.map Decl.bare = decls.map Decl.bare := by
  have unchanged : (ofDecls version decls).decls.map Decl.bare = decls.map Decl.bare :=
    Decl.map_bare_numberedList 0 decls
  have count : (decls.flatMap Decl.ids).length = (ofDecls version decls).nextId := by
    calc (decls.flatMap Decl.ids).length
      _ = (ofDecls version decls).ids.length :=
          (Decl.length_flatMap_ids_eq_of_map_bare_eq unchanged).symm
      _ = (ofDecls version decls).nextId := by rw [ids_ofDecls, List.length_range]
  rw [count]
  exact ⟨ids_ofDecls version decls, rfl, rfl, unchanged⟩

end Whittle
