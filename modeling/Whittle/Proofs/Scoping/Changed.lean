import Whittle.Proofs.Reduction.ShaderNames
import Whittle.Proofs.Scoping.Lexical

namespace Whittle

/-!
# Scopes after a change of expressions

A change of expressions moves nothing.  So what an expression has become stands where the
expression stood, in scopes that declare the same.
-/

variable {change : Expr → Expr}

theorem Stmt.mapExprsList_eq_map (stmts : List Stmt) :
    mapExprsList change stmts = stmts.map (mapExprs change) := by
  induction stmts with
  | nil => rfl
  | cons s rest inductionHypothesis => exact congrArg (s.mapExprs change :: ·) inductionHypothesis

theorem Stmt.toList_mapExprsOption (s? : Option Stmt) :
    (mapExprsOption change s?).toList = s?.toList.map (mapExprs change) := by
  cases s? <;> rfl

theorem Stmt.flatMap_body_mapExprsCases (cases : List Case) :
    (mapExprsCases change cases).flatMap Case.body =
      (cases.flatMap Case.body).map (mapExprs change) := by
  induction cases with
  | nil => rfl
  | cons one rest inductionHypothesis =>
      cases one with
      | mk id label body =>
          rw [mapExprsCases, List.flatMap_cons, List.flatMap_cons, List.map_append,
            inductionHypothesis, Case.body, Case.body, mapExprsList_eq_map]

namespace Scoping

def Declared.mapExprs (change : Expr → Expr) : Declared → Declared
  | .predefined name ty writable => .predefined name ty writable
  | .ofVar var => .ofVar (var.mapExprs change)
  | .ofParam param => .ofParam param

def changedScopes (change : Expr → Expr) (scopes : List Scope) : List Scope :=
  scopes.map (List.map (Declared.mapExprs change))

theorem Declared.name_mapExprs (declared : Declared) :
    (declared.mapExprs change).name = declared.name := by
  cases declared <;> rfl

theorem declaredIn_map_mapExprs (stmts : List Stmt) :
    declaredIn (stmts.map (Stmt.mapExprs change)) =
      (declaredIn stmts).map (Declared.mapExprs change) := by
  simp only [declaredIn, List.filterMap_map, Function.comp_def, Stmt.declared?_mapExprs,
    ← List.map_filterMap, List.map_map]
  rfl

theorem outermost_map_mapExprs (version : Version) (before : List Decl) :
    outermost version (before.map (Decl.mapExprs change)) =
      (outermost version before).map (Declared.mapExprs change) := by
  have global : ∀ decl : Decl, (decl.mapExprs change).global? =
      decl.global?.map (VarDecl.mapExprs change) := fun decl => by cases decl <;> rfl
  have globals : ((before.map (Decl.mapExprs change)).filterMap Decl.global?).map Declared.ofVar =
      ((before.filterMap Decl.global?).map Declared.ofVar).map (Declared.mapExprs change) := by
    simp only [List.filterMap_map, Function.comp_def, global, ← List.map_filterMap, List.map_map]
    rfl
  unfold outermost
  rw [globals, List.map_cons, List.map_append]
  split <;> rfl

/-- A name selects the declaration that it selected, with its expressions changed. -/
theorem select?_changedScopes (scopes : List Scope) (name : String) :
    select? (changedScopes change scopes) name =
      (select? scopes name).map (Declared.mapExprs change) := by
  have inScope : ∀ scope : Scope,
      (scope.map (Declared.mapExprs change)).reverse.find? (fun declared => declared.name == name) =
        (scope.reverse.find? fun declared => declared.name == name).map (Declared.mapExprs change) := by
    intro scope
    rw [← List.map_reverse, List.find?_map]
    simp only [Function.comp_def, Declared.name_mapExprs]
  induction scopes with
  | nil => rfl
  | cons scope rest inductionHypothesis =>
      rw [select?, changedScopes, select?] at inductionHypothesis
      rw [select?, select?, changedScopes, List.map_cons, List.findSome?_cons, List.findSome?_cons,
        inScope, inductionHypothesis]
      cases scope.reverse.find? fun declared => declared.name == name <;> rfl

theorem ownScope_mapExprs (s : Stmt) :
    ownScope (s.mapExprs change) = (ownScope s).map (Stmt.mapExprs change) := by
  cases s with
  | block id scope stmts => exact Stmt.mapExprsList_eq_map stmts
  | _ => rfl

theorem isBlock_mapExprs (s : Stmt) : isBlock (s.mapExprs change) = isBlock s := by
  cases s <;> rfl

theorem Holds.mapExprs {s : Stmt} {e : Expr} {scopes : List Scope} (holds : Holds s e scopes) :
    Holds (s.mapExprs change) (change e) (changedScopes change scopes) := by
  cases holds with
  | declInit isInit =>
      refine .declInit ?_
      rw [VarDecl.mapExprs, isInit]
      rfl
  | forCond | forStep =>
      rw [changedScopes, List.map_singleton, ← declaredIn_map_mapExprs, ← Stmt.toList_mapExprsOption]
      first | exact .forCond | exact .forStep
  | expr => exact .expr
  | branchCond => exact .branchCond
  | whileCond => exact .whileCond
  | selector => exact .selector
  | ret => exact .ret

theorem Opens.mapExprs {s : Stmt} {already : Scope} {stmts : List Stmt} {around : List Scope}
    (opens : Opens s already stmts around) :
    Opens (s.mapExprs change) (already.map (Declared.mapExprs change))
      (stmts.map (Stmt.mapExprs change)) (changedScopes change around) := by
  cases opens with
  | block =>
      rw [← Stmt.mapExprsList_eq_map]
      exact .block
  | branchTrue =>
      rw [← ownScope_mapExprs]
      exact .branchTrue
  | branchFalse =>
      rw [← ownScope_mapExprs]
      exact .branchFalse
  | forInit =>
      rw [← Stmt.toList_mapExprsOption]
      exact .forInit
  | forBlock =>
      rw [← Stmt.mapExprsList_eq_map, ← declaredIn_map_mapExprs, ← Stmt.toList_mapExprsOption]
      exact .forBlock
  | forBody noBlock =>
      rw [changedScopes, List.map_singleton, List.map_singleton, ← declaredIn_map_mapExprs, ← Stmt.toList_mapExprsOption]
      exact .forBody ((isBlock_mapExprs _).trans noBlock)
  | whileBody =>
      rw [← ownScope_mapExprs]
      exact .whileBody
  | arms =>
      rw [← Stmt.flatMap_body_mapExprsCases]
      exact .arms

theorem Holds.mem_roots {s : Stmt} {e : Expr} {scopes : List Scope} (holds : Holds s e scopes) :
    e ∈ s.roots := by
  cases holds with
  | declInit isInit => exact Option.mem_toList.mpr isInit
  | _ => simp [Stmt.roots]

theorem Opens.roots_subset {s : Stmt} {already : Scope} {stmts : List Stmt} {around : List Scope}
    (opens : Opens s already stmts around) : stmts.flatMap Stmt.roots ⊆ s.roots := by
  have own : ∀ arm : Stmt, (ownScope arm).flatMap Stmt.roots = arm.roots := by
    intro arm
    cases arm with
    | block id scope stmts => exact (Stmt.rootsOfList_eq_flatMap stmts).symm
    | _ => exact List.flatMap_singleton _ _
  cases opens with
  | block => simp [Stmt.roots, Stmt.rootsOfList_eq_flatMap]
  | branchTrue | branchFalse | whileBody => simp [Stmt.roots, Stmt.rootsOfOption, own]
  | @forInit _ init => cases init <;> simp [Stmt.roots, Stmt.rootsOfOption]
  | forBlock | forBody =>
      simp only [Stmt.roots, Stmt.rootsOfList_eq_flatMap, List.flatMap_singleton]
      exact List.subset_append_right _ _
  | arms => simp [Stmt.roots, Stmt.rootsOfCases_eq_flatMap, List.flatMap_assoc]

theorem StandsIn.mem_roots {s : Stmt} {e : Expr} {scopes : List Scope} (stands : StandsIn s e scopes) :
    e ∈ s.roots := by
  induction stands with
  | here holds => exact holds.mem_roots
  | within opens _ inductionHypothesis =>
      exact opens.roots_subset (List.mem_flatMap.mpr ⟨_, List.mem_append_cons_self, inductionHypothesis⟩)

theorem StandsIn.mapExprs {s : Stmt} {e : Expr} {scopes : List Scope} (stands : StandsIn s e scopes) :
    StandsIn (s.mapExprs change) (change e) (changedScopes change scopes) := by
  induction stands with
  | here holds => exact .here holds.mapExprs
  | @within s inner already before behind around e scopes opens _ inductionHypothesis =>
      have opened := @Opens.mapExprs change _ _ _ _ opens
      rw [List.map_append, List.map_cons] at opened
      rw [changedScopes, List.map_append, List.map_cons, List.map_append, ← declaredIn_map_mapExprs]
      exact .within opened inductionHypothesis

variable {shader edited : Shader} {version : Version}

/-- What an expression has become stands where the expression stood. -/
theorem StandsInShader.mapExprs (isEdited : edited.decls = shader.decls.map (Decl.mapExprs change))
    {e e' : Expr} {scopes : List Scope} (stands : StandsInShader shader version e scopes)
    (becomes : ∀ root ∈ shader.roots, e ∈ root.subexprs → e' ∈ (change root).subexprs) :
    StandsInShader edited version e' (changedScopes change scopes) := by
  cases stands with
  | @globalInit before behind var root _ split isInit isPart =>
      have isRoot : root ∈ shader.roots := List.mem_flatMap.mpr
        ⟨.global var, split ▸ List.mem_append_cons_self, Option.mem_toList.mpr isInit⟩
      rw [split, List.map_append, List.map_cons] at isEdited
      rw [changedScopes, List.map_singleton, ← outermost_map_mapExprs]
      refine .globalInit isEdited ?_ (becomes root isRoot isPart)
      rw [VarDecl.mapExprs, isInit]
      rfl
  | @body before behind f inFront after s root _ within split splitBody stands isPart =>
      have isRoot : root ∈ shader.roots := by
        refine List.mem_flatMap.mpr ⟨.function f, split ▸ List.mem_append_cons_self, ?_⟩
        exact List.mem_flatMap.mpr ⟨s, splitBody ▸ List.mem_append_cons_self, stands.mem_roots⟩
      rw [split, List.map_append, List.map_cons, Decl.mapExprs] at isEdited
      have params : (f.params.map Declared.ofParam).map (Declared.mapExprs change) =
          (f.withStmts (Stmt.mapExprsList change f.body.stmts)).params.map Declared.ofParam :=
        List.map_map
      rw [changedScopes, List.map_append, List.map_cons, List.map_singleton, List.map_append, params,
        ← declaredIn_map_mapExprs, ← outermost_map_mapExprs]
      have splitBody' : (f.withStmts (Stmt.mapExprsList change f.body.stmts)).body.stmts =
          inFront.map (Stmt.mapExprs change) ++ s.mapExprs change :: after.map (Stmt.mapExprs change) := by
        rw [Function.withStmts, splitBody, Stmt.mapExprsList_eq_map, List.map_append, List.map_cons]
      exact .body isEdited splitBody' stands.mapExprs (becomes root isRoot isPart)

end Scoping
end Whittle
