import Whittle.Proofs.Identifiers.NodeIds
import Whittle.Proofs.Syntax.Alike

namespace Whittle

/-!
# Trees under other identifiers

A map of identifiers replaces the identifier of every node of a tree by its image.  It does
nothing else: two trees of which one arises so from the other have one shape.  Only the images
of the identifiers that stand in a tree matter.
-/

mutual

def Expr.mapIds (image : NodeId → NodeId) : Expr → Expr
  | .int id value => .int (image id) value
  | .float id value => .float (image id) value
  | .bool id value => .bool (image id) value
  | .var id name => .var (image id) name
  | .unary id op operand => .unary (image id) op (operand.mapIds image)
  | .binary id op lhs rhs => .binary (image id) op (lhs.mapIds image) (rhs.mapIds image)
  | .assign id op target value =>
      .assign (image id) op (target.mapIds image) (value.mapIds image)
  | .ternary id cond whenTrue whenFalse =>
      .ternary (image id) (cond.mapIds image) (whenTrue.mapIds image) (whenFalse.mapIds image)
  | .call id callee args => .call (image id) callee (Expr.mapIdsOfList image args)
  | .member id base field => .member (image id) (base.mapIds image) field
  | .index id base position => .index (image id) (base.mapIds image) (position.mapIds image)
  | .paren id inner => .paren (image id) (inner.mapIds image)

def Expr.mapIdsOfList (image : NodeId → NodeId) : List Expr → List Expr
  | [] => []
  | e :: rest => e.mapIds image :: Expr.mapIdsOfList image rest

end

def VarDecl.mapIds (image : NodeId → NodeId) (var : VarDecl) : VarDecl :=
  { var with id := image var.id, init := var.init.map (Expr.mapIds image) }

mutual

def Stmt.mapIds (image : NodeId → NodeId) : Stmt → Stmt
  | .decl id var => .decl (image id) (var.mapIds image)
  | .expr id e => .expr (image id) (e.mapIds image)
  | .block id scope stmts => .block (image id) (image scope) (Stmt.mapIdsOfList image stmts)
  | .branch id cond whenTrue whenFalse =>
      .branch (image id) (cond.mapIds image) (whenTrue.mapIds image)
        (Stmt.mapIdsOfOption image whenFalse)
  | .forLoop id init cond step body =>
      .forLoop (image id) (Stmt.mapIdsOfOption image init) (cond.map (Expr.mapIds image))
        (step.map (Expr.mapIds image)) (body.mapIds image)
  | .whileLoop id cond body => .whileLoop (image id) (cond.mapIds image) (body.mapIds image)
  | .switch id selector cases =>
      .switch (image id) (selector.mapIds image) (Stmt.mapIdsOfCases image cases)
  | .ret id value => .ret (image id) (value.map (Expr.mapIds image))
  | .breakOut id => .breakOut (image id)
  | .continueLoop id => .continueLoop (image id)
  | .discard id => .discard (image id)
  | .empty id => .empty (image id)

def Stmt.mapIdsOfList (image : NodeId → NodeId) : List Stmt → List Stmt
  | [] => []
  | s :: rest => s.mapIds image :: Stmt.mapIdsOfList image rest

def Stmt.mapIdsOfOption (image : NodeId → NodeId) : Option Stmt → Option Stmt
  | none => none
  | some s => some (s.mapIds image)

def Stmt.mapIdsOfCases (image : NodeId → NodeId) : List Case → List Case
  | [] => []
  | .mk id label body :: rest =>
      .mk (image id) label (Stmt.mapIdsOfList image body) :: Stmt.mapIdsOfCases image rest

end

def Field.mapId (image : NodeId → NodeId) (field : Field) : Field :=
  { field with id := image field.id }

def Param.mapId (image : NodeId → NodeId) (param : Param) : Param :=
  { param with id := image param.id }

def StructDecl.mapIds (image : NodeId → NodeId) (decl : StructDecl) : StructDecl :=
  { decl with id := image decl.id, fields := decl.fields.map (Field.mapId image) }

def Function.mapIds (image : NodeId → NodeId) (f : Function) : Function :=
  { f with
    id := image f.id
    params := f.params.map (Param.mapId image)
    body := ⟨image f.body.id, Stmt.mapIdsOfList image f.body.stmts⟩ }

def Decl.mapIds (image : NodeId → NodeId) : Decl → Decl
  | .precision decl => .precision { decl with id := image decl.id }
  | .struct decl => .struct (decl.mapIds image)
  | .global var => .global (var.mapIds image)
  | .function f => .function (f.mapIds image)

def Shader.mapIds (image : NodeId → NodeId) (shader : Shader) : Shader :=
  { shader with decls := shader.decls.map (Decl.mapIds image) }

variable {image image' : NodeId → NodeId}

theorem Expr.id_mapIds (e : Expr) : (e.mapIds image).id = image e.id := by
  cases e <;> rfl

theorem Stmt.id_mapIds (s : Stmt) : (s.mapIds image).id = image s.id := by
  cases s <;> rfl

theorem Stmt.isLoopInit_mapIds (s : Stmt) : (s.mapIds image).isLoopInit = s.isLoopInit := by
  cases s <;> rfl

theorem Stmt.isReturn_mapIds (s : Stmt) : (s.mapIds image).isReturn = s.isReturn := by
  cases s <;> rfl

theorem Stmt.mapIdsOfList_eq_map (stmts : List Stmt) :
    Stmt.mapIdsOfList image stmts = stmts.map (Stmt.mapIds image) := by
  induction stmts with
  | nil => rfl
  | cons s rest inductionHypothesis => rw [mapIdsOfList, inductionHypothesis, List.map_cons]

theorem Stmt.isEmpty_mapIdsOfCases (cases : List Case) :
    (Stmt.mapIdsOfCases image cases).isEmpty = cases.isEmpty := by
  cases cases with
  | nil => rfl
  | cons one rest => cases one; rfl

mutual

theorem Stmt.substmts_mapIds (s : Stmt) :
    (s.mapIds image).substmts = s.substmts.map (Stmt.mapIds image) := by
  cases s with
  | block id scope stmts =>
      simp only [mapIds, substmts, List.map_cons, substmtsOfList_mapIds stmts]
  | branch id cond whenTrue whenFalse =>
      simp only [mapIds, substmts, List.map_cons, List.map_append, substmts_mapIds whenTrue,
        substmtsOfOption_mapIds whenFalse]
  | forLoop id init cond step body =>
      simp only [mapIds, substmts, List.map_cons, List.map_append, substmts_mapIds body,
        substmtsOfOption_mapIds init]
  | whileLoop id cond body =>
      simp only [mapIds, substmts, List.map_cons, substmts_mapIds body]
  | switch id selector cases =>
      simp only [mapIds, substmts, List.map_cons, substmtsOfCases_mapIds cases]
  | decl | expr | ret | breakOut | continueLoop | discard | empty => rfl

theorem Stmt.substmtsOfList_mapIds (stmts : List Stmt) :
    substmtsOfList (Stmt.mapIdsOfList image stmts) =
      (substmtsOfList stmts).map (Stmt.mapIds image) := by
  match stmts with
  | [] => rfl
  | s :: rest =>
      simp only [mapIdsOfList, substmtsOfList, List.map_append, substmts_mapIds s,
        substmtsOfList_mapIds rest]

theorem Stmt.substmtsOfOption_mapIds (s? : Option Stmt) :
    substmtsOfOption (Stmt.mapIdsOfOption image s?) =
      (substmtsOfOption s?).map (Stmt.mapIds image) := by
  match s? with
  | none => rfl
  | some s => exact substmts_mapIds s

theorem Stmt.substmtsOfCases_mapIds (cases : List Case) :
    substmtsOfCases (Stmt.mapIdsOfCases image cases) =
      (substmtsOfCases cases).map (Stmt.mapIds image) := by
  match cases with
  | [] => rfl
  | .mk id label body :: rest =>
      simp only [mapIdsOfCases, substmtsOfCases, List.map_append, substmtsOfList_mapIds body,
        substmtsOfCases_mapIds rest]

end

theorem Stmt.holdsReturn_mapIds (s : Stmt) : (s.mapIds image).holdsReturn = s.holdsReturn := by
  simp only [holdsReturn, substmts_mapIds, List.any_map, Function.comp_def, isReturn_mapIds]

theorem Function.holdsReturn_mapIds (f : Function) :
    (f.mapIds image).body.holdsReturn = f.body.holdsReturn := by
  simp only [Block.holdsReturn, mapIds, Stmt.mapIdsOfList_eq_map, List.any_map,
    Function.comp_def, Stmt.holdsReturn_mapIds]

theorem StructDecl.alike_mapIds (decl : StructDecl) : decl.Alike (decl.mapIds image) where
  name := rfl
  fields := List.map_map

theorem Function.headsAlike_mapIds (f : Function) : f.HeadsAlike (f.mapIds image) where
  returnTy := rfl
  name := rfl
  params := List.map_map

theorem Shader.functions_mapIds (shader : Shader) :
    (shader.mapIds image).functions = shader.functions.map (Function.mapIds image) := by
  rw [functions, functions, mapIds, List.filterMap_map, List.map_filterMap]
  refine List.filterMap_congr fun decl _ => ?_
  cases decl <;> rfl

mutual

theorem Expr.mapIds_congr {e : Expr} (same : ∀ id ∈ e.ids, image id = image' id) :
    e.mapIds image = e.mapIds image' := by
  cases e with
  | int | float | bool | var => rw [mapIds, mapIds, same _ List.mem_cons_self]
  | unary id op operand =>
      rw [ids, List.forall_mem_cons] at same
      rw [mapIds, mapIds, same.1, mapIds_congr same.2]
  | binary id op lhs rhs =>
      rw [ids, List.forall_mem_cons, List.forall_mem_append] at same
      rw [mapIds, mapIds, same.1, mapIds_congr same.2.1, mapIds_congr same.2.2]
  | assign id op target value =>
      rw [ids, List.forall_mem_cons, List.forall_mem_append] at same
      rw [mapIds, mapIds, same.1, mapIds_congr same.2.1, mapIds_congr same.2.2]
  | ternary id cond whenTrue whenFalse =>
      rw [ids, List.forall_mem_cons, List.forall_mem_append, List.forall_mem_append] at same
      rw [mapIds, mapIds, same.1, mapIds_congr same.2.1, mapIds_congr same.2.2.1,
        mapIds_congr same.2.2.2]
  | call id callee args =>
      rw [ids, List.forall_mem_cons] at same
      rw [mapIds, mapIds, same.1, mapIdsOfList_congr same.2]
  | member id base field =>
      rw [ids, List.forall_mem_cons] at same
      rw [mapIds, mapIds, same.1, mapIds_congr same.2]
  | index id base position =>
      rw [ids, List.forall_mem_cons, List.forall_mem_append] at same
      rw [mapIds, mapIds, same.1, mapIds_congr same.2.1, mapIds_congr same.2.2]
  | paren id inner =>
      rw [ids, List.forall_mem_cons] at same
      rw [mapIds, mapIds, same.1, mapIds_congr same.2]

theorem Expr.mapIdsOfList_congr {es : List Expr}
    (same : ∀ id ∈ Expr.idsOfList es, image id = image' id) :
    Expr.mapIdsOfList image es = Expr.mapIdsOfList image' es := by
  match es with
  | [] => rfl
  | e :: rest =>
      rw [idsOfList, List.forall_mem_append] at same
      rw [mapIdsOfList, mapIdsOfList, mapIds_congr same.1, mapIdsOfList_congr same.2]

end

theorem Expr.map_mapIds_congr {e? : Option Expr}
    (same : ∀ id ∈ Expr.idsOfOption e?, image id = image' id) :
    e?.map (Expr.mapIds image) = e?.map (Expr.mapIds image') := by
  cases e? with
  | none => rfl
  | some e => exact congrArg some (mapIds_congr same)

theorem VarDecl.mapIds_congr {var : VarDecl} (same : ∀ id ∈ var.ids, image id = image' id) :
    var.mapIds image = var.mapIds image' := by
  rw [ids, List.forall_mem_cons] at same
  rw [mapIds, mapIds, same.1, Expr.map_mapIds_congr same.2]

mutual

theorem Stmt.mapIds_congr {s : Stmt} (same : ∀ id ∈ s.ids, image id = image' id) :
    s.mapIds image = s.mapIds image' := by
  cases s with
  | decl id var =>
      rw [ids, List.forall_mem_cons] at same
      rw [mapIds, mapIds, same.1, VarDecl.mapIds_congr same.2]
  | expr id e =>
      rw [ids, List.forall_mem_cons] at same
      rw [mapIds, mapIds, same.1, Expr.mapIds_congr same.2]
  | block id scope stmts =>
      rw [ids, List.forall_mem_cons, List.forall_mem_cons] at same
      rw [mapIds, mapIds, same.1, same.2.1, mapIdsOfList_congr same.2.2]
  | branch id cond whenTrue whenFalse =>
      rw [ids, List.forall_mem_cons, List.forall_mem_append, List.forall_mem_append] at same
      rw [mapIds, mapIds, same.1, Expr.mapIds_congr same.2.1, mapIds_congr same.2.2.1,
        mapIdsOfOption_congr same.2.2.2]
  | forLoop id init cond step body =>
      rw [ids, List.forall_mem_cons, List.forall_mem_append, List.forall_mem_append,
        List.forall_mem_append] at same
      rw [mapIds, mapIds, same.1, mapIdsOfOption_congr same.2.1,
        Expr.map_mapIds_congr same.2.2.1, Expr.map_mapIds_congr same.2.2.2.1,
        mapIds_congr same.2.2.2.2]
  | whileLoop id cond body =>
      rw [ids, List.forall_mem_cons, List.forall_mem_append] at same
      rw [mapIds, mapIds, same.1, Expr.mapIds_congr same.2.1, mapIds_congr same.2.2]
  | switch id selector cases =>
      rw [ids, List.forall_mem_cons, List.forall_mem_append] at same
      rw [mapIds, mapIds, same.1, Expr.mapIds_congr same.2.1, mapIdsOfCases_congr same.2.2]
  | ret id value =>
      rw [ids, List.forall_mem_cons] at same
      rw [mapIds, mapIds, same.1, Expr.map_mapIds_congr same.2]
  | breakOut | continueLoop | discard | empty =>
      rw [mapIds, mapIds, same _ List.mem_cons_self]

theorem Stmt.mapIdsOfList_congr {stmts : List Stmt}
    (same : ∀ id ∈ Stmt.idsOfList stmts, image id = image' id) :
    Stmt.mapIdsOfList image stmts = Stmt.mapIdsOfList image' stmts := by
  match stmts with
  | [] => rfl
  | s :: rest =>
      rw [idsOfList, List.forall_mem_append] at same
      rw [mapIdsOfList, mapIdsOfList, mapIds_congr same.1, mapIdsOfList_congr same.2]

theorem Stmt.mapIdsOfOption_congr {s? : Option Stmt}
    (same : ∀ id ∈ Stmt.idsOfOption s?, image id = image' id) :
    Stmt.mapIdsOfOption image s? = Stmt.mapIdsOfOption image' s? := by
  match s? with
  | none => rfl
  | some s => exact congrArg some (mapIds_congr (s := s) same)

theorem Stmt.mapIdsOfCases_congr {cases : List Case}
    (same : ∀ id ∈ Stmt.idsOfCases cases, image id = image' id) :
    Stmt.mapIdsOfCases image cases = Stmt.mapIdsOfCases image' cases := by
  match cases with
  | [] => rfl
  | .mk id label body :: rest =>
      rw [idsOfCases, List.forall_mem_cons, List.forall_mem_append] at same
      rw [mapIdsOfCases, mapIdsOfCases, same.1, mapIdsOfList_congr same.2.1,
        mapIdsOfCases_congr same.2.2]

end

theorem Decl.mapIds_congr {decl : Decl} (same : ∀ id ∈ decl.ids, image id = image' id) :
    decl.mapIds image = decl.mapIds image' := by
  cases decl with
  | precision decl => rw [mapIds, mapIds, same _ List.mem_cons_self]
  | struct decl =>
      rw [ids, List.forall_mem_cons, List.forall_mem_map] at same
      have fields : decl.fields.map (Field.mapId image) = decl.fields.map (Field.mapId image') :=
        List.map_congr_left fun field listed => by
          rw [Field.mapId, Field.mapId, same.2 field listed]
      rw [mapIds, mapIds, StructDecl.mapIds, StructDecl.mapIds, same.1, fields]
  | global var => exact congrArg Decl.global (VarDecl.mapIds_congr same)
  | function f =>
      rw [ids, List.forall_mem_cons, List.forall_mem_append, List.forall_mem_map,
        List.forall_mem_cons] at same
      have params : f.params.map (Param.mapId image) = f.params.map (Param.mapId image') :=
        List.map_congr_left fun param listed => by
          rw [Param.mapId, Param.mapId, same.2.1 param listed]
      rw [mapIds, mapIds, Function.mapIds, Function.mapIds, same.1, params, same.2.2.1,
        Stmt.mapIdsOfList_congr same.2.2.2]

theorem Shader.mapIds_congr {shader : Shader} (same : ∀ id ∈ shader.ids, image id = image' id) :
    shader.mapIds image = shader.mapIds image' := by
  have decls : shader.decls.map (Decl.mapIds image) = shader.decls.map (Decl.mapIds image') :=
    List.map_congr_left fun decl listed =>
      Decl.mapIds_congr fun id isId => same id (List.mem_flatMap.mpr ⟨decl, listed, isId⟩)
  rw [mapIds, mapIds, decls]

end Whittle
