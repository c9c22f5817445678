import Whittle.Proofs.Identifiers.Operations
import Whittle.Proofs.Syntax.Rewriting
import Whittle.Proofs.Syntax.Slot

namespace Whittle

/-!
# Changing every expression of a shader

A function on expressions applies to all the outermost expressions of a shader at
once.  Everything else stays as it is, identifiers included.  In a shader in which
no identifier is repeated, a series of changes by identifier comes to this.
-/

def VarDecl.mapExprs (change : Expr → Expr) (var : VarDecl) : VarDecl :=
  { var with init := var.init.map change }

mutual

def Stmt.mapExprs (change : Expr → Expr) : Stmt → Stmt
  | .decl id var => .decl id (var.mapExprs change)
  | .expr id e => .expr id (change e)
  | .block id scope stmts => .block id scope (Stmt.mapExprsList change stmts)
  | .branch id cond whenTrue whenFalse =>
      .branch id (change cond) (whenTrue.mapExprs change) (Stmt.mapExprsOption change whenFalse)
  | .forLoop id init cond step body =>
      .forLoop id (Stmt.mapExprsOption change init) (cond.map change) (step.map change)
        (body.mapExprs change)
  | .whileLoop id cond body => .whileLoop id (change cond) (body.mapExprs change)
  | .switch id selector cases => .switch id (change selector) (Stmt.mapExprsCases change cases)
  | .ret id value => .ret id (value.map change)
  | .breakOut id => .breakOut id
  | .continueLoop id => .continueLoop id
  | .discard id => .discard id
  | .empty id => .empty id

def Stmt.mapExprsList (change : Expr → Expr) : List Stmt → List Stmt
  | [] => []
  | s :: rest => s.mapExprs change :: Stmt.mapExprsList change rest

def Stmt.mapExprsOption (change : Expr → Expr) : Option Stmt → Option Stmt
  | none => none
  | some s => some (s.mapExprs change)

def Stmt.mapExprsCases (change : Expr → Expr) : List Case → List Case
  | [] => []
  | .mk id label body :: rest =>
      .mk id label (Stmt.mapExprsList change body) :: Stmt.mapExprsCases change rest

end

def Decl.mapExprs (change : Expr → Expr) : Decl → Decl
  | .precision decl => .precision decl
  | .struct decl => .struct decl
  | .global var => .global (var.mapExprs change)
  | .function f => .function (f.withStmts (Stmt.mapExprsList change f.body.stmts))

variable {change change' : Expr → Expr}

theorem VarDecl.mapExprs_congr {var : VarDecl} (same : ∀ e ∈ var.init.toList, change e = change' e) :
    var.mapExprs change = var.mapExprs change' := by
  have sameInit : var.init.map change = var.init.map change' :=
    Option.map_congr fun e isInit => same e (Option.mem_toList.mpr isInit)
  rw [mapExprs, mapExprs, sameInit]

mutual

/-- Only what happens to the outermost expressions counts. -/
theorem Stmt.mapExprs_congr {s : Stmt} (same : ∀ e ∈ s.roots, change e = change' e) :
    s.mapExprs change = s.mapExprs change' := by
  have option : ∀ {e? : Option Expr}, (∀ e ∈ e?.toList, change e = change' e) →
      e?.map change = e?.map change' := fun same =>
    Option.map_congr fun e isThere => same e (Option.mem_toList.mpr isThere)
  cases s with
  | decl id var => rw [mapExprs, mapExprs, VarDecl.mapExprs_congr same]
  | expr id e => rw [mapExprs, mapExprs, same e List.mem_cons_self]
  | block id scope stmts => rw [mapExprs, mapExprs, mapExprsList_congr same]
  | branch id cond whenTrue whenFalse =>
      rw [roots, List.forall_mem_cons, List.forall_mem_append] at same
      rw [mapExprs, mapExprs, same.1, mapExprs_congr same.2.1, mapExprsOption_congr same.2.2]
  | forLoop id init cond step body =>
      simp only [roots, List.forall_mem_append] at same
      rw [mapExprs, mapExprs, mapExprsOption_congr same.1.1.1, option same.1.1.2,
        option same.1.2, mapExprs_congr same.2]
  | whileLoop id cond body =>
      rw [roots, List.forall_mem_cons] at same
      rw [mapExprs, mapExprs, same.1, mapExprs_congr same.2]
  | switch id selector cases =>
      rw [roots, List.forall_mem_cons] at same
      rw [mapExprs, mapExprs, same.1, mapExprsCases_congr same.2]
  | ret id value => rw [mapExprs, mapExprs, option same]
  | breakOut | continueLoop | discard | empty => rfl

theorem Stmt.mapExprsList_congr {stmts : List Stmt}
    (same : ∀ e ∈ rootsOfList stmts, change e = change' e) :
    mapExprsList change stmts = mapExprsList change' stmts := by
  match stmts with
  | [] => rfl
  | s :: rest =>
      rw [rootsOfList, List.forall_mem_append] at same
      rw [mapExprsList, mapExprsList, mapExprs_congr same.1, mapExprsList_congr same.2]

theorem Stmt.mapExprsOption_congr {s? : Option Stmt}
    (same : ∀ e ∈ rootsOfOption s?, change e = change' e) :
    mapExprsOption change s? = mapExprsOption change' s? := by
  match s? with
  | none => rfl
  | some s => rw [mapExprsOption, mapExprsOption, mapExprs_congr same]

theorem Stmt.mapExprsCases_congr {cases : List Case}
    (same : ∀ e ∈ rootsOfCases cases, change e = change' e) :
    mapExprsCases change cases = mapExprsCases change' cases := by
  match cases with
  | [] => rfl
  | .mk id label body :: rest =>
      rw [rootsOfCases, List.forall_mem_append] at same
      rw [mapExprsCases, mapExprsCases, mapExprsList_congr same.1, mapExprsCases_congr same.2]

end

mutual

theorem Stmt.mapExprs_id (s : Stmt) : (s.mapExprs fun e => e) = s := by
  cases s with
  | decl id var => simp only [mapExprs, VarDecl.mapExprs, Option.map_id']
  | block id scope stmts => rw [mapExprs, mapExprsList_id]
  | branch id cond whenTrue whenFalse => rw [mapExprs, mapExprs_id, mapExprsOption_id]
  | forLoop id init cond step body =>
      simp only [mapExprs, mapExprsOption_id, mapExprs_id, Option.map_id']
  | whileLoop id cond body => rw [mapExprs, mapExprs_id]
  | switch id selector cases => rw [mapExprs, mapExprsCases_id]
  | ret id value => simp only [mapExprs, Option.map_id']
  | expr | breakOut | continueLoop | discard | empty => rfl

theorem Stmt.mapExprsList_id (stmts : List Stmt) : (mapExprsList (fun e => e) stmts) = stmts := by
  match stmts with
  | [] => rfl
  | s :: rest => rw [mapExprsList, mapExprs_id, mapExprsList_id]

theorem Stmt.mapExprsOption_id (s? : Option Stmt) : mapExprsOption (fun e => e) s? = s? := by
  match s? with
  | none => rfl
  | some s => rw [mapExprsOption, mapExprs_id]

theorem Stmt.mapExprsCases_id (cases : List Case) : mapExprsCases (fun e => e) cases = cases := by
  match cases with
  | [] => rfl
  | .mk id label body :: rest => rw [mapExprsCases, mapExprsList_id, mapExprsCases_id]

end

mutual

theorem Stmt.mapExprs_mapExprs (s : Stmt) :
    (s.mapExprs change).mapExprs change' = s.mapExprs fun e => change' (change e) := by
  cases s with
  | decl id var => simp only [mapExprs, VarDecl.mapExprs, Option.map_map, Function.comp_def]
  | block id scope stmts => simp only [mapExprs, mapExprsList_mapExprsList]
  | branch id cond whenTrue whenFalse =>
      simp only [mapExprs, mapExprs_mapExprs, mapExprsOption_mapExprsOption]
  | forLoop id init cond step body =>
      simp only [mapExprs, mapExprs_mapExprs, mapExprsOption_mapExprsOption, Option.map_map,
        Function.comp_def]
  | whileLoop id cond body => simp only [mapExprs, mapExprs_mapExprs]
  | switch id selector cases => simp only [mapExprs, mapExprsCases_mapExprsCases]
  | ret id value => simp only [mapExprs, Option.map_map, Function.comp_def]
  | expr | breakOut | continueLoop | discard | empty => rfl

theorem Stmt.mapExprsList_mapExprsList (stmts : List Stmt) :
    mapExprsList change' (mapExprsList change stmts) =
      mapExprsList (fun e => change' (change e)) stmts := by
  match stmts with
  | [] => rfl
  | s :: rest => simp only [mapExprsList, mapExprs_mapExprs, mapExprsList_mapExprsList]

theorem Stmt.mapExprsOption_mapExprsOption (s? : Option Stmt) :
    mapExprsOption change' (mapExprsOption change s?) =
      mapExprsOption (fun e => change' (change e)) s? := by
  match s? with
  | none => rfl
  | some s => simp only [mapExprsOption, mapExprs_mapExprs]

theorem Stmt.mapExprsCases_mapExprsCases (cases : List Case) :
    mapExprsCases change' (mapExprsCases change cases) =
      mapExprsCases (fun e => change' (change e)) cases := by
  match cases with
  | [] => rfl
  | .mk id label body :: rest =>
      simp only [mapExprsCases, mapExprsList_mapExprsList, mapExprsCases_mapExprsCases]

end

mutual

/-- The outermost expressions afterwards are the changed ones. -/
theorem Stmt.roots_mapExprs (s : Stmt) : (s.mapExprs change).roots = s.roots.map change := by
  cases s with
  | decl id var => simp only [mapExprs, VarDecl.mapExprs, roots, Option.toList_map]
  | block id scope stmts => simp only [mapExprs, roots, rootsOfList_mapExprsList]
  | branch id cond whenTrue whenFalse =>
      simp only [mapExprs, roots, roots_mapExprs, rootsOfOption_mapExprsOption, List.map_cons,
        List.map_append]
  | forLoop id init cond step body =>
      simp only [mapExprs, roots, roots_mapExprs, rootsOfOption_mapExprsOption, Option.toList_map,
        List.map_append]
  | whileLoop id cond body => simp only [mapExprs, roots, roots_mapExprs, List.map_cons]
  | switch id selector cases =>
      simp only [mapExprs, roots, rootsOfCases_mapExprsCases, List.map_cons]
  | ret id value => simp only [mapExprs, roots, Option.toList_map]
  | expr | breakOut | continueLoop | discard | empty => rfl

theorem Stmt.rootsOfList_mapExprsList (stmts : List Stmt) :
    rootsOfList (mapExprsList change stmts) = (rootsOfList stmts).map change := by
  match stmts with
  | [] => rfl
  | s :: rest =>
      simp only [mapExprsList, rootsOfList, roots_mapExprs, rootsOfList_mapExprsList,
        List.map_append]

theorem Stmt.rootsOfOption_mapExprsOption (s? : Option Stmt) :
    rootsOfOption (mapExprsOption change s?) = (rootsOfOption s?).map change := by
  match s? with
  | none => rfl
  | some s => simp only [mapExprsOption, rootsOfOption, roots_mapExprs]

theorem Stmt.rootsOfCases_mapExprsCases (cases : List Case) :
    rootsOfCases (mapExprsCases change cases) = (rootsOfCases cases).map change := by
  match cases with
  | [] => rfl
  | .mk id label body :: rest =>
      simp only [mapExprsCases, rootsOfCases, rootsOfList_mapExprsList,
        rootsOfCases_mapExprsCases, List.map_append]

end

mutual

/-- The changed statement is alike to the statement before. -/
theorem Stmt.alike_mapExprs (s : Stmt) : s.Alike (fun e e' => e' = change e) (s.mapExprs change) := by
  have option : ∀ e? : Option Expr, Option.Rel (fun e e' => e' = change e) e? (e?.map change) := by
    intro e?
    cases e? with
    | none => exact .none
    | some e => exact .some rfl
  cases s with
  | decl id var => exact .decl ⟨rfl, rfl, rfl, option var.init⟩
  | expr id e => exact .expr rfl
  | block id scope stmts => exact .block (alike_mapExprsList stmts)
  | branch id cond whenTrue whenFalse =>
      exact .branch rfl (alike_mapExprs whenTrue) (alike_mapExprsOption whenFalse)
  | forLoop id init cond step body =>
      exact .forLoop (alike_mapExprsOption init) (option cond) (option step) (alike_mapExprs body)
  | whileLoop id cond body => exact .whileLoop rfl (alike_mapExprs body)
  | switch id selector cases => exact .switch rfl (alike_mapExprsCases cases)
  | ret id value => exact .ret (option value)
  | breakOut => exact .breakOut
  | continueLoop => exact .continueLoop
  | discard => exact .discard
  | empty => exact .empty

theorem Stmt.alike_mapExprsList (stmts : List Stmt) :
    List.Forall₂ (Stmt.Alike fun e e' => e' = change e) stmts (mapExprsList change stmts) := by
  match stmts with
  | [] => exact .nil
  | s :: rest => exact .cons (alike_mapExprs s) (alike_mapExprsList rest)

theorem Stmt.alike_mapExprsOption (s? : Option Stmt) :
    Option.Rel (Stmt.Alike fun e e' => e' = change e) s? (mapExprsOption change s?) := by
  match s? with
  | none => exact .none
  | some s => exact .some (alike_mapExprs s)

theorem Stmt.alike_mapExprsCases (cases : List Case) :
    List.Forall₂ (Case.Alike fun e e' => e' = change e) cases (mapExprsCases change cases) := by
  match cases with
  | [] => exact .nil
  | .mk id label body :: rest => exact .cons (.mk (alike_mapExprsList body)) (alike_mapExprsCases rest)

end

namespace Decl

theorem mapExprs_congr {decl : Decl} (same : ∀ e ∈ decl.roots, change e = change' e) :
    decl.mapExprs change = decl.mapExprs change' := by
  cases decl with
  | precision | struct => rfl
  | global var => rw [mapExprs, mapExprs, VarDecl.mapExprs_congr same]
  | function f =>
      rw [roots, Function.roots, ← Stmt.rootsOfList_eq_flatMap] at same
      rw [mapExprs, mapExprs, Stmt.mapExprsList_congr same]

theorem mapExprs_id (decl : Decl) : (decl.mapExprs fun e => e) = decl := by
  cases decl with
  | precision | struct => rfl
  | global var => simp only [mapExprs, VarDecl.mapExprs, Option.map_id']
  | function f => rw [mapExprs, Stmt.mapExprsList_id]; rfl

theorem mapExprs_eq_self {decl : Decl} (same : ∀ e ∈ decl.roots, change e = e) :
    decl.mapExprs change = decl := by
  rw [mapExprs_congr same, mapExprs_id]

theorem mapExprs_mapExprs (decl : Decl) :
    (decl.mapExprs change).mapExprs change' = decl.mapExprs fun e => change' (change e) := by
  cases decl with
  | precision | struct => rfl
  | global var => simp only [mapExprs, VarDecl.mapExprs, Option.map_map, Function.comp_def]
  | function f => simp only [mapExprs, Function.withStmts, Stmt.mapExprsList_mapExprsList]

theorem roots_mapExprs (decl : Decl) : (decl.mapExprs change).roots = decl.roots.map change := by
  cases decl with
  | precision | struct => rfl
  | global var => simp only [mapExprs, VarDecl.mapExprs, roots, Option.toList_map]
  | function f =>
      simp only [mapExprs, roots, Function.roots, Function.withStmts,
        ← Stmt.rootsOfList_eq_flatMap, Stmt.rootsOfList_mapExprsList]

theorem alike_mapExprs (decl : Decl) : decl.Alike (fun e e' => e' = change e) (decl.mapExprs change) := by
  cases decl with
  | precision => exact .precision
  | struct => exact .struct ⟨rfl, rfl⟩
  | global var =>
      refine .global ⟨rfl, rfl, rfl, ?_⟩
      rw [VarDecl.mapExprs]
      cases var.init with
      | none => exact .none
      | some e => exact .some rfl
  | function f => exact .function ⟨⟨rfl, rfl, rfl⟩, Stmt.alike_mapExprsList f.body.stmts⟩

end Decl

/-! ## A change by identifier -/

section

open Whittle.Expr (rewrite changeAt map_ite_some map_ite_some_orElse)

variable {target : NodeId}

theorem Expr.rewrite_changeAt_of_notMem_flatMap {es : List Expr} (absent : target ∉ es.flatMap Expr.ids) :
    ∀ e ∈ es, e.rewrite (changeAt target change) = e := fun e listed =>
  rewrite_changeAt_of_notMem fun inside => absent (List.mem_flatMap.mpr ⟨e, listed, inside⟩)

theorem Expr.map_option_eq_self {e? : Option Expr} (same : ∀ e ∈ e?.toList, change e = e) :
    e?.map change = e? := by
  cases e? with
  | none => rfl
  | some e => exact congrArg some (same e List.mem_cons_self)

theorem Expr.map_rewrite_changeAt_of_notMem {e? : Option Expr}
    (absent : target ∉ e?.toList.flatMap Expr.ids) :
    e?.map (rewrite (changeAt target change)) = e? :=
  map_option_eq_self (rewrite_changeAt_of_notMem_flatMap absent)

theorem Expr.modifyOption?_eq {e? : Option Expr} (distinct : (e?.toList.flatMap Expr.ids).Nodup) :
    Expr.modifyOption? target change e? =
      if target ∈ e?.toList.flatMap Expr.ids then some (e?.map (rewrite (changeAt target change)))
      else none := by
  cases e? with
  | none => rfl
  | some e =>
      simp only [Option.toList_some, List.flatMap_singleton] at distinct ⊢
      rw [modifyOption?, modify?_eq distinct]
      exact map_ite_some fun _ => rfl

theorem Stmt.mapExprs_eq_self {s : Stmt} (same : ∀ e ∈ s.roots, change e = e) :
    s.mapExprs change = s := by
  rw [mapExprs_congr same, mapExprs_id]

theorem Stmt.mapExprsList_eq_self {stmts : List Stmt} (same : ∀ e ∈ rootsOfList stmts, change e = e) :
    mapExprsList change stmts = stmts := by
  rw [mapExprsList_congr same, mapExprsList_id]

theorem Stmt.mapExprsOption_eq_self {s? : Option Stmt}
    (same : ∀ e ∈ rootsOfOption s?, change e = e) : mapExprsOption change s? = s? := by
  rw [mapExprsOption_congr same, mapExprsOption_id]

theorem Stmt.mapExprsCases_eq_self {cases : List Case}
    (same : ∀ e ∈ rootsOfCases cases, change e = e) : mapExprsCases change cases = cases := by
  rw [mapExprsCases_congr same, mapExprsCases_id]

mutual

/-- A change by identifier changes the outermost expression that has the target in it,
if there is one. -/
theorem Stmt.modifyExpr?_eq {s : Stmt} (distinct : (s.roots.flatMap Expr.ids).Nodup) :
    s.modifyExpr? target change =
      if target ∈ s.roots.flatMap Expr.ids then some (s.mapExprs (rewrite (changeAt target change)))
      else none := by
  have expr : ∀ {e : Expr}, target ∉ e.ids → e.rewrite (changeAt target change) = e :=
    Expr.rewrite_changeAt_of_notMem
  have option : ∀ {e? : Option Expr}, target ∉ e?.toList.flatMap Expr.ids →
      e?.map (rewrite (changeAt target change)) = e? := Expr.map_rewrite_changeAt_of_notMem
  have stmt : ∀ {s : Stmt}, target ∉ s.roots.flatMap Expr.ids →
      s.mapExprs (rewrite (changeAt target change)) = s := fun absent =>
    mapExprs_eq_self (Expr.rewrite_changeAt_of_notMem_flatMap absent)
  have stmt? : ∀ {s? : Option Stmt}, target ∉ (rootsOfOption s?).flatMap Expr.ids →
      mapExprsOption (rewrite (changeAt target change)) s? = s? := fun absent =>
    mapExprsOption_eq_self (Expr.rewrite_changeAt_of_notMem_flatMap absent)
  cases s with
  | decl id var =>
      rw [modifyExpr?, VarDecl.modifyExpr?, Expr.modifyOption?_eq distinct, Option.map_map]
      exact map_ite_some fun _ => rfl
  | expr id e =>
      simp only [roots, List.flatMap_singleton] at distinct ⊢
      rw [modifyExpr?, Expr.modify?_eq distinct]
      exact map_ite_some fun _ => rfl
  | block id scope stmts =>
      rw [modifyExpr?, modifyExprList?_eq distinct]
      exact map_ite_some fun _ => rfl
  | branch id cond whenTrue whenFalse =>
      simp only [roots, List.flatMap_cons, List.flatMap_append, List.nodup_append',
        List.disjoint_append_right] at distinct
      rcases distinct with ⟨ofCond, ⟨ofTrue, ofFalse, apartArms⟩, apartTrue, apartFalse⟩
      rw [modifyExpr?, Expr.modify?_eq ofCond, modifyExpr?_eq ofTrue, modifyExprOption?_eq ofFalse]
      simp only [roots, List.flatMap_cons, List.flatMap_append, List.mem_append]
      refine map_ite_some_orElse (fun inCond => ?_)
        (map_ite_some_orElse (fun inTrue => ?_) (map_ite_some fun inFalse => ?_))
      · rw [mapExprs, stmt fun inTrue => apartTrue inCond inTrue,
          stmt? fun inFalse => apartFalse inCond inFalse]
      · rw [mapExprs, expr fun inCond => apartTrue inCond inTrue,
          stmt? fun inFalse => apartArms inTrue inFalse]
      · rw [mapExprs, expr fun inCond => apartFalse inCond inFalse,
          stmt fun inTrue => apartArms inTrue inFalse]
  | forLoop id init cond step body =>
      simp only [roots, List.flatMap_append, List.nodup_append', List.disjoint_append_left] at distinct
      rcases distinct with ⟨⟨⟨ofInit, ofCond, apartCond⟩, ofStep, apartStep, condStep⟩, ofBody,
        ⟨apartBody, condBody⟩, stepBody⟩
      -- The header is searched before the initialiser, which stands before it.
      have order : target ∈ (Stmt.forLoop id init cond step body).roots.flatMap Expr.ids ↔
          target ∈ cond.toList.flatMap Expr.ids ∨ target ∈ step.toList.flatMap Expr.ids ∨
            target ∈ (rootsOfOption init).flatMap Expr.ids ∨ target ∈ body.roots.flatMap Expr.ids := by
        simp only [roots, List.flatMap_append, List.mem_append]
        tauto
      rw [modifyExpr?, Expr.modifyOption?_eq ofCond, Expr.modifyOption?_eq ofStep,
        modifyExprOption?_eq ofInit, modifyExpr?_eq ofBody]
      simp only [order]
      refine map_ite_some_orElse (fun inCond => ?_) (map_ite_some_orElse (fun inStep => ?_)
        (map_ite_some_orElse (fun inInit => ?_) (map_ite_some fun inBody => ?_)))
      · rw [mapExprs, option fun inStep => condStep inCond inStep,
          stmt? fun inInit => apartCond inInit inCond, stmt fun inBody => condBody inCond inBody]
      · rw [mapExprs, option fun inCond => condStep inCond inStep,
          stmt? fun inInit => apartStep inInit inStep, stmt fun inBody => stepBody inStep inBody]
      · rw [mapExprs, option fun inCond => apartCond inInit inCond,
          option fun inStep => apartStep inInit inStep, stmt fun inBody => apartBody inInit inBody]
      · rw [mapExprs, option fun inCond => condBody inCond inBody,
          option fun inStep => stepBody inStep inBody, stmt? fun inInit => apartBody inInit inBody]
  | whileLoop id cond body =>
      simp only [roots, List.flatMap_cons, List.nodup_append'] at distinct
      rw [modifyExpr?, Expr.modify?_eq distinct.1, modifyExpr?_eq distinct.2.1]
      simp only [roots, List.flatMap_cons, List.mem_append]
      refine map_ite_some_orElse (fun inCond => ?_) (map_ite_some fun inBody => ?_)
      · rw [mapExprs, stmt fun inBody => distinct.2.2 inCond inBody]
      · rw [mapExprs, expr fun inCond => distinct.2.2 inCond inBody]
  | switch id selector cases =>
      simp only [roots, List.flatMap_cons, List.nodup_append'] at distinct
      rw [modifyExpr?, Expr.modify?_eq distinct.1, modifyExprCases?_eq distinct.2.1]
      simp only [roots, List.flatMap_cons, List.mem_append]
      refine map_ite_some_orElse (fun inSelector => ?_) (map_ite_some fun inCases => ?_)
      · rw [mapExprs, mapExprsCases_eq_self (Expr.rewrite_changeAt_of_notMem_flatMap
          fun inCases => distinct.2.2 inSelector inCases)]
      · rw [mapExprs, expr fun inSelector => distinct.2.2 inSelector inCases]
  | ret id value =>
      rw [modifyExpr?, Expr.modifyOption?_eq distinct]
      exact map_ite_some fun _ => rfl
  | breakOut | continueLoop | discard | empty => rfl

theorem Stmt.modifyExprList?_eq {stmts : List Stmt}
    (distinct : ((rootsOfList stmts).flatMap Expr.ids).Nodup) :
    modifyExprList? target change stmts =
      if target ∈ (rootsOfList stmts).flatMap Expr.ids then
        some (mapExprsList (rewrite (changeAt target change)) stmts) else none := by
  match stmts with
  | [] => rfl
  | s :: rest =>
      rw [rootsOfList, List.flatMap_append, List.nodup_append'] at distinct
      rw [modifyExprList?, modifyExpr?_eq distinct.1, modifyExprList?_eq distinct.2.1]
      simp only [rootsOfList, List.flatMap_append, List.mem_append]
      refine map_ite_some_orElse (fun inFirst => ?_) (map_ite_some fun inRest => ?_)
      · rw [mapExprsList, mapExprsList_eq_self (Expr.rewrite_changeAt_of_notMem_flatMap
          fun inRest => distinct.2.2 inFirst inRest)]
      · rw [mapExprsList, mapExprs_eq_self (Expr.rewrite_changeAt_of_notMem_flatMap
          fun inFirst => distinct.2.2 inFirst inRest)]

theorem Stmt.modifyExprOption?_eq {s? : Option Stmt}
    (distinct : ((rootsOfOption s?).flatMap Expr.ids).Nodup) :
    modifyExprOption? target change s? =
      if target ∈ (rootsOfOption s?).flatMap Expr.ids then
        some (mapExprsOption (rewrite (changeAt target change)) s?) else none := by
  match s? with
  | none => rfl
  | some s =>
      rw [modifyExprOption?, modifyExpr?_eq distinct]
      exact map_ite_some fun _ => rfl

theorem Stmt.modifyExprCases?_eq {cases : List Case}
    (distinct : ((rootsOfCases cases).flatMap Expr.ids).Nodup) :
    modifyExprCases? target change cases =
      if target ∈ (rootsOfCases cases).flatMap Expr.ids then
        some (mapExprsCases (rewrite (changeAt target change)) cases) else none := by
  match cases with
  | [] => rfl
  | .mk id label body :: rest =>
      rw [rootsOfCases, List.flatMap_append, List.nodup_append'] at distinct
      rw [modifyExprCases?, modifyExprList?_eq distinct.1, modifyExprCases?_eq distinct.2.1]
      simp only [rootsOfCases, List.flatMap_append, List.mem_append]
      refine map_ite_some_orElse (fun inFirst => ?_) (map_ite_some fun inRest => ?_)
      · rw [mapExprsCases, mapExprsCases_eq_self (Expr.rewrite_changeAt_of_notMem_flatMap
          fun inRest => distinct.2.2 inFirst inRest)]
      · rw [mapExprsCases, mapExprsList_eq_self (Expr.rewrite_changeAt_of_notMem_flatMap
          fun inFirst => distinct.2.2 inFirst inRest)]

end

theorem Decl.modifyExpr?_eq {decl : Decl} (distinct : (decl.roots.flatMap Expr.ids).Nodup) :
    decl.modifyExpr? target change =
      if target ∈ decl.roots.flatMap Expr.ids then
        some (decl.mapExprs (rewrite (changeAt target change))) else none := by
  cases decl with
  | precision | struct => rfl
  | global var =>
      rw [modifyExpr?, VarDecl.modifyExpr?, Expr.modifyOption?_eq distinct, Option.map_map]
      exact map_ite_some fun _ => rfl
  | function f =>
      simp only [roots, Function.roots, ← Stmt.rootsOfList_eq_flatMap] at distinct ⊢
      rw [modifyExpr?, Stmt.modifyExprList?_eq distinct]
      exact map_ite_some fun _ => rfl

theorem Decl.getD_modifyFirst?_modifyExpr? {decls : List Decl}
    (distinct : ((decls.flatMap Decl.roots).flatMap Expr.ids).Nodup) :
    (Decl.modifyFirst? (Decl.modifyExpr? target change) decls).getD decls =
      decls.map (Decl.mapExprs (rewrite (changeAt target change))) := by
  have unchanged : ∀ {decl : Decl}, target ∉ decl.roots.flatMap Expr.ids →
      decl.mapExprs (rewrite (changeAt target change)) = decl := fun absent =>
    Decl.mapExprs_eq_self (Expr.rewrite_changeAt_of_notMem_flatMap absent)
  induction decls with
  | nil => rfl
  | cons decl rest inductionHypothesis =>
      rw [List.flatMap_cons, List.flatMap_append, List.nodup_append'] at distinct
      rw [modifyFirst?, Decl.modifyExpr?_eq distinct.1, List.map_cons,
        ← inductionHypothesis distinct.2.1]
      by_cases inFirst : target ∈ decl.roots.flatMap Expr.ids
      · have same : rest.map (Decl.mapExprs (rewrite (changeAt target change))) = rest := by
          refine (List.map_congr_left fun other listed => unchanged fun inOther => ?_).trans
            (List.map_id' rest)
          refine distinct.2.2 inFirst ?_
          rw [List.flatMap_assoc]
          exact List.mem_flatMap.mpr ⟨other, listed, inOther⟩
        rw [inductionHypothesis distinct.2.1, same, if_pos inFirst]
        rfl
      · rw [if_neg inFirst, unchanged inFirst]
        cases Decl.modifyFirst? (Decl.modifyExpr? target change) rest <;> rfl

end

namespace Shader

open Whittle.Expr (rewrite changeAt changeBy NaturalAt)

def mapExprs (change : Expr → Expr) (shader : Shader) : Shader :=
  { shader with decls := shader.decls.map (Decl.mapExprs change) }

theorem roots_mapExprs (shader : Shader) : (shader.mapExprs change).roots = shader.roots.map change := by
  rw [roots, roots, mapExprs, List.flatMap_map, List.map_flatMap]
  exact congrArg (shader.decls.flatMap ·) (funext Decl.roots_mapExprs)

/-- The changed shader is alike to the shader before. -/
theorem alike_mapExprs (shader : Shader) :
    shader.Alike (fun e e' => e' = change e) (shader.mapExprs change) :=
  ⟨rfl, List.forall₂_map_right_iff.mpr
    (List.forall₂_same.mpr fun decl _ => decl.alike_mapExprs)⟩

theorem mapExprs_congr {shader : Shader} (same : ∀ e ∈ shader.roots, change e = change' e) :
    shader.mapExprs change = shader.mapExprs change' := by
  have decls : shader.decls.map (Decl.mapExprs change) = shader.decls.map (Decl.mapExprs change') :=
    List.map_congr_left fun decl listed => Decl.mapExprs_congr fun e isRoot =>
      same e (List.mem_flatMap.mpr ⟨decl, listed, isRoot⟩)
  rw [mapExprs, mapExprs, decls]

theorem mapExprs_eq_self {shader : Shader} (same : ∀ e ∈ shader.roots, change e = e) :
    shader.mapExprs change = shader := by
  rw [mapExprs_congr same, mapExprs, funext Decl.mapExprs_id, List.map_id']

theorem mapExprs_mapExprs (shader : Shader) :
    (shader.mapExprs change).mapExprs change' = shader.mapExprs fun e => change' (change e) := by
  simp only [mapExprs, List.map_map, Function.comp_def, Decl.mapExprs_mapExprs]

/-- In a shader in which no identifier is repeated, a change by identifier is a change
of all nodes that only the target notices. -/
theorem getD_modifyExpr? {shader : Shader} {target : NodeId} (distinct : shader.ids.Nodup) :
    (shader.modifyExpr? target change).getD shader =
      shader.mapExprs (rewrite (changeAt target change)) := by
  have decls : (Decl.modifyFirst? (Decl.modifyExpr? target change) shader.decls).getD shader.decls =
      shader.decls.map (Decl.mapExprs (rewrite (changeAt target change))) :=
    Decl.getD_modifyFirst?_modifyExpr? (nodup_flatMap_ids_roots distinct)
  rw [modifyExpr?, modifyDecl?, mapExprs, ← decls]
  cases Decl.modifyFirst? (Decl.modifyExpr? target change) shader.decls <;> rfl

/-! ## A series of changes -/

variable {shader : Shader} {steps : List (NodeId × (Expr → Expr))}

/-- One more change by identifier is one more step. -/
theorem getD_modifyExpr?_mapExprs {target : NodeId}
    (distinct : (shader.mapExprs (rewrite (changeBy steps))).ids.Nodup)
    (isNew : target ∉ steps.map Prod.fst)
    (natural : ∀ part ∈ shader.exprs, ∀ earlier, steps.lookup part.id = some earlier →
      NaturalAt (target :: steps.map Prod.fst) earlier part) :
    ((shader.mapExprs (rewrite (changeBy steps))).modifyExpr? target change).getD
        (shader.mapExprs (rewrite (changeBy steps))) =
      shader.mapExprs (rewrite (changeBy (steps ++ [(target, change)]))) := by
  rw [getD_modifyExpr? distinct, mapExprs_mapExprs]
  exact mapExprs_congr fun e isRoot => Expr.rewrite_rewrite isNew fun part isPart =>
    natural part (List.mem_flatMap.mpr ⟨e, isRoot, isPart⟩)

/-- Changing several expressions one after the other is one step for each. -/
theorem modifyExprs_mapExprs {targets : List NodeId}
    (numbered : (shader.mapExprs (rewrite (changeBy steps))).IsNumbered)
    (kept : ∀ e, (change e).ids.Sublist e.ids) (distinct : (steps.map Prod.fst ++ targets).Nodup)
    (natural : ∀ part ∈ shader.exprs, ∀ earlier,
      (steps ++ targets.map fun target => (target, change)).lookup part.id = some earlier →
        NaturalAt (steps.map Prod.fst ++ targets) earlier part) :
    (shader.mapExprs (rewrite (changeBy steps))).modifyExprs targets change =
      shader.mapExprs (rewrite (changeBy (steps ++ targets.map fun target => (target, change)))) := by
  induction targets generalizing steps with
  | nil => rw [List.map_nil, List.append_nil]; rfl
  | cons target rest inductionHypothesis =>
      have split : steps ++ (target :: rest).map (fun target => (target, change)) =
          (steps ++ [(target, change)]) ++ rest.map fun target => (target, change) := by
        rw [List.map_cons, List.append_assoc, List.singleton_append]
      have keys : (steps ++ [(target, change)]).map Prod.fst ++ rest =
          steps.map Prod.fst ++ target :: rest := by
        rw [List.map_append, List.append_assoc]
        rfl
      have isNew : target ∉ steps.map Prod.fst := fun isOld =>
        (List.nodup_append'.mp distinct).2.2 isOld List.mem_cons_self
      let current := shader.mapExprs (rewrite (changeBy steps))
      have step : (current.modifyExpr? target change).getD current =
          shader.mapExprs (rewrite (changeBy (steps ++ [(target, change)]))) :=
        getD_modifyExpr?_mapExprs numbered.1 isNew fun part isPart earlier isStep =>
          (natural part isPart earlier (by rw [List.lookup_append, isStep, Option.some_or])).anti (by
            simp only [List.cons_subset, List.mem_append, List.mem_cons, true_or, or_true, true_and]
            exact List.subset_append_left _ _)
      have stillNumbered : ((current.modifyExpr? target change).getD current).IsNumbered :=
        numbered.modifyExpr (.refl _) fun e _ _ => .of_sublist (kept e)
      rw [step] at stillNumbered
      have rest := inductionHypothesis stillNumbered (by rwa [keys]) (by rwa [keys, ← split])
      rw [split, ← rest, ← step]
      rfl

end Shader

theorem Stmt.mapExprsList_append (first second : List Stmt) :
    mapExprsList change (first ++ second) = mapExprsList change first ++ mapExprsList change second := by
  induction first with
  | nil => rfl
  | cons s rest inductionHypothesis => exact congrArg (s.mapExprs change :: ·) inductionHypothesis

theorem Stmt.mapExprsCases_append (first second : List Case) :
    mapExprsCases change (first ++ second) =
      mapExprsCases change first ++ mapExprsCases change second := by
  induction first with
  | nil => rfl
  | cons one rest inductionHypothesis =>
      cases one with
      | mk id label body => exact congrArg (_ :: ·) inductionHypothesis

mutual

/-- The place with the outermost expressions around it changed. -/
def Slot.mapExprs (change : Expr → Expr) : Slot → Slot
  | .here before behind => .here (Stmt.mapExprsList change before) (Stmt.mapExprsList change behind)
  | .within before inner behind =>
      .within (Stmt.mapExprsList change before) (inner.mapExprs change)
        (Stmt.mapExprsList change behind)

/-- The place within a statement, with the outermost expressions around it changed. -/
def StmtSlot.mapExprs (change : Expr → Expr) : StmtSlot → StmtSlot
  | .block id scope inner => .block id scope (inner.mapExprs change)
  | .branchTrue id cond inner whenFalse =>
      .branchTrue id (change cond) (inner.mapExprs change) (Stmt.mapExprsOption change whenFalse)
  | .branchFalse id cond whenTrue inner =>
      .branchFalse id (change cond) (whenTrue.mapExprs change) (inner.mapExprs change)
  | .forBody id init cond step inner =>
      .forBody id (Stmt.mapExprsOption change init) (cond.map change) (step.map change)
        (inner.mapExprs change)
  | .whileBody id cond inner => .whileBody id (change cond) (inner.mapExprs change)
  | .case id selector before caseId label inner behind =>
      .case id (change selector) (Stmt.mapExprsCases change before) caseId label
        (inner.mapExprs change) (Stmt.mapExprsCases change behind)

end

mutual

/-- Expressions change at a place as they do around it. -/
theorem Slot.mapExprsList_fill (run : List Stmt) (slot : Slot) :
    Stmt.mapExprsList change (slot.fill run) =
      (slot.mapExprs change).fill (Stmt.mapExprsList change run) := by
  cases slot with
  | here before behind => simp only [Slot.fill, Slot.mapExprs, Stmt.mapExprsList_append]
  | within before inner behind =>
      simp only [Slot.fill, Slot.mapExprs, Stmt.mapExprsList_append, Stmt.mapExprsList,
        inner.mapExprs_fill run]

theorem StmtSlot.mapExprs_fill (run : List Stmt) (slot : StmtSlot) :
    (slot.fill run).mapExprs change = (slot.mapExprs change).fill (Stmt.mapExprsList change run) := by
  cases slot with
  | block id scope inner =>
      simp only [StmtSlot.fill, StmtSlot.mapExprs, Stmt.mapExprs, inner.mapExprsList_fill run]
  | case id selector before caseId label inner behind =>
      simp only [StmtSlot.fill, StmtSlot.mapExprs, Stmt.mapExprs, Stmt.mapExprsCases_append, Stmt.mapExprsCases,
        inner.mapExprsList_fill run]
  | branchTrue _ _ inner _ | forBody _ _ _ _ inner | whileBody _ _ inner =>
      simp only [StmtSlot.fill, StmtSlot.mapExprs, Stmt.mapExprs, inner.mapExprs_fill run]
  | branchFalse id cond whenTrue inner =>
      simp only [StmtSlot.fill, StmtSlot.mapExprs, Stmt.mapExprs, Stmt.mapExprsOption, inner.mapExprs_fill run]

end

theorem Stmt.rootsOfList_append (first second : List Stmt) :
    rootsOfList (first ++ second) = rootsOfList first ++ rootsOfList second := by
  simp only [rootsOfList_eq_flatMap, List.flatMap_append]

theorem Stmt.rootsOfCases_append (first second : List Case) :
    rootsOfCases (first ++ second) = rootsOfCases first ++ rootsOfCases second := by
  simp only [rootsOfCases_eq_flatMap, List.flatMap_append]

mutual

/-- A place stays as it is if the expressions around it do. -/
theorem Slot.mapExprs_eq_self {slot : Slot}
    (same : ∀ e ∈ Stmt.rootsOfList (slot.fill []), change e = e) : slot.mapExprs change = slot := by
  cases slot with
  | here before behind =>
      rw [Slot.fill, List.nil_append, Stmt.rootsOfList_append, List.forall_mem_append] at same
      rw [Slot.mapExprs, Stmt.mapExprsList_eq_self same.1, Stmt.mapExprsList_eq_self same.2]
  | within before inner behind =>
      rw [Slot.fill, Stmt.rootsOfList_append, Stmt.rootsOfList, List.forall_mem_append,
        List.forall_mem_append] at same
      rw [Slot.mapExprs, Stmt.mapExprsList_eq_self same.1, inner.mapExprs_eq_self same.2.1,
        Stmt.mapExprsList_eq_self same.2.2]

theorem StmtSlot.mapExprs_eq_self {slot : StmtSlot}
    (same : ∀ e ∈ (slot.fill []).roots, change e = e) : slot.mapExprs change = slot := by
  cases slot with
  | block id scope inner => rw [StmtSlot.mapExprs, inner.mapExprs_eq_self same]
  | branchTrue id cond inner whenFalse =>
      rw [StmtSlot.fill, Stmt.roots, List.forall_mem_cons, List.forall_mem_append] at same
      rw [StmtSlot.mapExprs, same.1, inner.mapExprs_eq_self same.2.1,
        Stmt.mapExprsOption_eq_self same.2.2]
  | branchFalse id cond whenTrue inner =>
      rw [StmtSlot.fill, Stmt.roots, List.forall_mem_cons, List.forall_mem_append] at same
      rw [StmtSlot.mapExprs, same.1, Stmt.mapExprs_eq_self same.2.1,
        inner.mapExprs_eq_self same.2.2]
  | forBody id init cond step inner =>
      rw [StmtSlot.fill, Stmt.roots, List.forall_mem_append, List.forall_mem_append,
        List.forall_mem_append] at same
      rw [StmtSlot.mapExprs, Stmt.mapExprsOption_eq_self same.1.1.1,
        Expr.map_option_eq_self same.1.1.2, Expr.map_option_eq_self same.1.2, inner.mapExprs_eq_self same.2]
  | whileBody id cond inner =>
      rw [StmtSlot.fill, Stmt.roots, List.forall_mem_cons] at same
      rw [StmtSlot.mapExprs, same.1, inner.mapExprs_eq_self same.2]
  | case id selector before caseId label inner behind =>
      rw [StmtSlot.fill, Stmt.roots, Stmt.rootsOfCases_append, Stmt.rootsOfCases,
        List.forall_mem_cons, List.forall_mem_append, List.forall_mem_append] at same
      rw [StmtSlot.mapExprs, same.1, Stmt.mapExprsCases_eq_self same.2.1,
        inner.mapExprs_eq_self same.2.2.1, Stmt.mapExprsCases_eq_self same.2.2.2]

end

namespace Spot

/-- The place with the outermost expressions around it changed. -/
def mapExprs (change : Expr → Expr) (spot : Spot) : Spot where
  before := spot.before.map (Decl.mapExprs change)
  function := spot.function
  slot := spot.slot.mapExprs change
  behind := spot.behind.map (Decl.mapExprs change)

theorem map_mapExprs_fill (run : List Stmt) (spot : Spot) :
    (spot.fill run).map (Decl.mapExprs change) =
      (spot.mapExprs change).fill (Stmt.mapExprsList change run) := by
  simp only [fill, mapExprs, List.map_append, List.map_cons, Decl.mapExprs, Function.withStmts,
    spot.slot.mapExprsList_fill run]

/-- A place stays as it is if the expressions around it do. -/
theorem mapExprs_eq_self {spot : Spot}
    (same : ∀ e ∈ (spot.fill []).flatMap Decl.roots, change e = e) : spot.mapExprs change = spot := by
  rw [fill, List.flatMap_append, List.flatMap_cons, List.forall_mem_append, List.forall_mem_append,
    Decl.roots, Function.roots, ← Stmt.rootsOfList_eq_flatMap] at same
  have decls : ∀ decls : List Decl, (∀ e ∈ decls.flatMap Decl.roots, change e = e) →
      decls.map (Decl.mapExprs change) = decls := by
    intro decls same
    conv => rhs; rw [← List.map_id decls]
    exact List.map_congr_left fun decl listed =>
      Decl.mapExprs_eq_self fun e isRoot => same e (List.mem_flatMap.mpr ⟨decl, listed, isRoot⟩)
  rw [mapExprs, decls _ same.1, decls _ same.2.2]
  exact congrArg (fun slot => { spot with slot }) (Slot.mapExprs_eq_self same.2.1)

end Spot

namespace Shader

open Whittle.Expr (rewrite changeAt)

variable {shader : Shader} {spot : Spot} {run : List Stmt}

/-- An expression that stands at a place is replaced there. -/
theorem replaceExpr_fill (isAt : shader.decls = spot.fill run) (distinct : shader.ids.Nodup)
    {target : NodeId} (within : target ∈ (Stmt.rootsOfList run).flatMap Expr.ids)
    (replacement : Expr) :
    (shader.replaceExpr target replacement).1 = { shader with
      decls := spot.fill (Stmt.mapExprsList (rewrite (changeAt target fun _ => replacement)) run) } := by
  have distinct' : ((spot.fill run).flatMap Decl.ids).Nodup := by rwa [← isAt]
  have apart := (Spot.nodup_ids_run distinct').2 target
    ((Stmt.ids_rootsOfList_sublist run).subset within)
  have around : ∀ e ∈ (spot.fill []).flatMap Decl.roots,
      e.rewrite (changeAt target fun _ => replacement) = e := by
    intro e listed
    rcases List.mem_flatMap.mp listed with ⟨decl, isDecl, isRoot⟩
    refine Expr.rewrite_changeAt_of_notMem fun inside => apart ?_
    exact List.mem_flatMap.mpr ⟨decl, isDecl, (Decl.ids_roots_sublist decl).subset
      (List.mem_flatMap.mpr ⟨e, isRoot, inside⟩)⟩
  show (shader.modifyExpr? target fun _ => replacement).getD shader = _
  rw [getD_modifyExpr? distinct, mapExprs, isAt, Spot.map_mapExprs_fill, Spot.mapExprs_eq_self around]

end Shader
end Whittle
