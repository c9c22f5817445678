import Whittle.Proofs.Identifiers.MapIds

namespace Whittle

/-!
# Numbering from a later start

Numbers are handed out in the order of the text from the first one on.  So numbering from a
later start adds the difference to every number, and a list of declarations is numbered like
its first part and, behind the numbers of that, its second part.
-/

variable (offset : NodeId)

mutual

theorem Expr.numbered_add (start : NodeId) (e : Expr) :
    e.numbered (offset + start) = (e.numbered start).mapIds (offset + ·) := by
  cases e with
  | call id callee args => simp only [numbered, mapIds, Nat.add_assoc, Expr.numberedList_add]
  | _ => simp only [numbered, mapIds, Nat.add_assoc, Expr.numbered_add]

theorem Expr.numberedList_add (start : NodeId) (es : List Expr) :
    Expr.numberedList (offset + start) es =
      Expr.mapIdsOfList (offset + ·) (Expr.numberedList start es) := by
  match es with
  | [] => rfl
  | e :: rest =>
      simp only [numberedList, mapIdsOfList, Nat.add_assoc, Expr.numbered_add, Expr.numberedList_add]

end

theorem Expr.map_numbered_add (start : NodeId) (e? : Option Expr) :
    e?.map (Expr.numbered (offset + start)) = (e?.map (Expr.numbered start)).map (Expr.mapIds (offset + ·)) := by
  rw [Option.map_map]
  exact congrArg (e?.map ·) (funext (Expr.numbered_add offset start))

theorem VarDecl.numbered_add (start : NodeId) (var : VarDecl) :
    var.numbered (offset + start) = (var.numbered start).mapIds (offset + ·) := by
  simp only [numbered, mapIds, Nat.add_assoc, Expr.map_numbered_add]

mutual

theorem Stmt.numbered_add (start : NodeId) (s : Stmt) :
    s.numbered (offset + start) = (s.numbered start).mapIds (offset + ·) := by
  cases s <;>
    simp only [numbered, mapIds, Nat.add_assoc, Expr.numbered_add, Expr.map_numbered_add,
      VarDecl.numbered_add, Stmt.numbered_add, Stmt.numberedList_add, Stmt.numberedOption_add,
      Stmt.numberedCases_add]

theorem Stmt.numberedList_add (start : NodeId) (stmts : List Stmt) :
    Stmt.numberedList (offset + start) stmts =
      Stmt.mapIdsOfList (offset + ·) (Stmt.numberedList start stmts) := by
  match stmts with
  | [] => rfl
  | s :: rest =>
      simp only [numberedList, mapIdsOfList, Nat.add_assoc, Stmt.numbered_add, Stmt.numberedList_add]

theorem Stmt.numberedOption_add (start : NodeId) (s? : Option Stmt) :
    Stmt.numberedOption (offset + start) s? =
      Stmt.mapIdsOfOption (offset + ·) (Stmt.numberedOption start s?) := by
  match s? with
  | none => rfl
  | some s => simp only [numberedOption, mapIdsOfOption, Stmt.numbered_add]

theorem Stmt.numberedCases_add (start : NodeId) (cases : List Case) :
    Stmt.numberedCases (offset + start) cases =
      Stmt.mapIdsOfCases (offset + ·) (Stmt.numberedCases start cases) := by
  match cases with
  | [] => rfl
  | .mk id label body :: rest =>
      simp only [numberedCases, mapIdsOfCases, Nat.add_assoc, Stmt.numberedList_add,
        Stmt.numberedCases_add]

end

theorem Field.numberedList_add (start : NodeId) (fields : List Field) :
    Field.numberedList (offset + start) fields =
      (Field.numberedList start fields).map (Field.mapId (offset + ·)) := by
  apply List.ext_getElem
  · simp only [numberedList, List.length_map, List.length_mapIdx]
  · intro position _ _
    simp only [numberedList, List.getElem_map, List.getElem_mapIdx, mapId, Nat.add_assoc]

theorem Param.numberedList_add (start : NodeId) (params : List Param) :
    Param.numberedList (offset + start) params =
      (Param.numberedList start params).map (Param.mapId (offset + ·)) := by
  apply List.ext_getElem
  · simp only [numberedList, List.length_map, List.length_mapIdx]
  · intro position _ _
    simp only [numberedList, List.getElem_map, List.getElem_mapIdx, mapId, Nat.add_assoc]

theorem Decl.numbered_add (start : NodeId) (decl : Decl) :
    decl.numbered (offset + start) = (decl.numbered start).mapIds (offset + ·) := by
  cases decl with
  | precision decl => rfl
  | struct decl =>
      simp only [numbered, mapIds, StructDecl.mapIds, Nat.add_assoc, Field.numberedList_add]
  | global var => simp only [numbered, mapIds, VarDecl.numbered_add]
  | function f =>
      simp only [numbered, mapIds, Function.mapIds, Nat.add_assoc, Param.numberedList_add,
        Stmt.numberedList_add]

theorem Decl.numberedList_add (start : NodeId) (decls : List Decl) :
    Decl.numberedList (offset + start) decls =
      (Decl.numberedList start decls).map (Decl.mapIds (offset + ·)) := by
  induction decls generalizing start with
  | nil => rfl
  | cons decl rest inductionHypothesis =>
      rw [numberedList, numberedList, List.map_cons, numbered_add, Nat.add_assoc, inductionHypothesis]

theorem Decl.numberedList_append (start : NodeId) (front back : List Decl) :
    Decl.numberedList start (front ++ back) =
      Decl.numberedList start front ++ Decl.numberedList (start + Decl.sizeOfList front) back := by
  induction front generalizing start with
  | nil => rfl
  | cons decl rest inductionHypothesis =>
      rw [List.cons_append, numberedList, numberedList, inductionHypothesis, sizeOfList, Nat.add_assoc]
      rfl

theorem Decl.sizeOfList_append (front back : List Decl) :
    Decl.sizeOfList (front ++ back) = Decl.sizeOfList front + Decl.sizeOfList back := by
  induction front with
  | nil => exact (Nat.zero_add _).symm
  | cons decl rest inductionHypothesis =>
      rw [List.cons_append, sizeOfList, sizeOfList, inductionHypothesis, Nat.add_assoc]

/-- Behind the declarations of one shader those of another one are numbered as in that one,
with the next number of the first one added. -/
theorem Shader.ofDecls_append (version version' : Version) (front back : List Decl) :
    ofDecls version (front ++ back) =
      ⟨version, (ofDecls version front).decls ++ (ofDecls version' back).decls.map
        (Decl.mapIds ((ofDecls version front).nextId + ·)),
        (ofDecls version front).nextId + (ofDecls version' back).nextId⟩ := by
  simp only [ofDecls, Decl.numberedList_append, Decl.sizeOfList_append, Nat.zero_add,
    ← Decl.numberedList_add, Nat.add_zero]

end Whittle
