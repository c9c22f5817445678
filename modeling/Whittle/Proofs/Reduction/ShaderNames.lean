import Whittle.Proofs.Reduction.Places
import Whittle.Proofs.Syntax.Mapping

namespace Whittle

/-!
# Names in a shader

How often a name is declared in a shader adds up from the run of statements at a place
and what is around it.  A change of expressions declares nothing, and what is referred
to can be read off the expressions alone.
-/

variable {change : Expr → Expr}

mutual

theorem Stmt.substmts_mapExprs (s : Stmt) :
    (s.mapExprs change).substmts = s.substmts.map (Stmt.mapExprs change) := by
  cases s with
  | block id scope stmts =>
      simp only [mapExprs, substmts, List.map_cons, substmtsOfList_mapExprsList]
  | branch id cond whenTrue whenFalse =>
      simp only [mapExprs, substmts, List.map_cons, List.map_append, substmts_mapExprs whenTrue,
        substmtsOfOption_mapExprsOption]
  | forLoop id init cond step body =>
      simp only [mapExprs, substmts, List.map_cons, List.map_append, substmts_mapExprs body,
        substmtsOfOption_mapExprsOption]
  | whileLoop id cond body =>
      simp only [mapExprs, substmts, List.map_cons, substmts_mapExprs body]
  | switch id selector cases =>
      simp only [mapExprs, substmts, List.map_cons, substmtsOfCases_mapExprsCases]
  | decl | expr | ret | breakOut | continueLoop | discard | empty => rfl

theorem Stmt.substmtsOfList_mapExprsList (stmts : List Stmt) :
    substmtsOfList (mapExprsList change stmts) =
      (substmtsOfList stmts).map (Stmt.mapExprs change) := by
  match stmts with
  | [] => rfl
  | s :: rest =>
      simp only [mapExprsList, substmtsOfList, List.map_append, substmts_mapExprs,
        substmtsOfList_mapExprsList]

theorem Stmt.substmtsOfOption_mapExprsOption (s? : Option Stmt) :
    substmtsOfOption (mapExprsOption change s?) =
      (substmtsOfOption s?).map (Stmt.mapExprs change) := by
  match s? with
  | none => rfl
  | some s => simp only [mapExprsOption, substmtsOfOption, substmts_mapExprs]

theorem Stmt.substmtsOfCases_mapExprsCases (cases : List Case) :
    substmtsOfCases (mapExprsCases change cases) =
      (substmtsOfCases cases).map (Stmt.mapExprs change) := by
  match cases with
  | [] => rfl
  | .mk id label body :: rest =>
      simp only [mapExprsCases, substmtsOfCases, List.map_append, substmtsOfList_mapExprsList,
        substmtsOfCases_mapExprsCases]

end

theorem Stmt.declared?_mapExprs (s : Stmt) :
    (s.mapExprs change).declared? = s.declared?.map (VarDecl.mapExprs change) := by
  cases s <;> rfl

namespace Reduction

/-- Other expressions declare nothing else. -/
theorem Names.declared_ofStmts_mapExprsList (stmts : List Stmt) :
    (ofStmts (Stmt.mapExprsList change stmts)).declared = (ofStmts stmts).declared := by
  simp only [ofStmts, ← Stmt.substmtsOfList_eq_flatMap, Stmt.substmtsOfList_mapExprsList,
    List.filterMap_map, List.map_filterMap, Function.comp_def, Stmt.declared?_mapExprs,
    Option.map_map]
  rfl

end Reduction

/-- All names that are declared in declarations of a shader, the local ones
included. -/
def Decl.declaredNames (decls : List Decl) : List String :=
  decls.flatMap fun decl => (Reduction.Names.ofDecl decl).declared

namespace Reduction
namespace Names

theorem declared_ofShader (shader : Shader) :
    (ofShader shader).declared = Decl.declaredNames shader.decls := by
  rw [ofShader, Decl.declaredNames]
  induction shader.decls with
  | nil => rfl
  | cons decl rest inductionHypothesis =>
      exact congrArg ((ofDecl decl).declared ++ ·) inductionHypothesis

theorem referenced_ofDecl (decl : Decl) :
    (ofDecl decl).referenced = (decl.roots.flatMap Expr.subexprs).filterMap Expr.varName? := by
  cases decl <;> rfl

/-- What an expression refers to are the names of the variables among its parts. -/
theorem mem_referenced_ofExpr_iff {e : Expr} {name : String} :
    name ∈ (ofExpr e).referenced ↔ ∃ id, .var id name ∈ e.subexprs := by
  rw [ofExpr, ofExprs, List.flatMap_singleton, List.mem_filterMap]
  constructor
  · rintro ⟨part, isPart, isVar⟩
    cases part <;> cases isVar
    exact ⟨_, isPart⟩
  · rintro ⟨id, isPart⟩
    exact ⟨.var id name, isPart, rfl⟩

/-- The names that are referred to are those of the expressions that are variables. -/
theorem referenced_ofShader (shader : Shader) :
    (ofShader shader).referenced = shader.exprs.filterMap Expr.varName? := by
  rw [ofShader, Shader.exprs, Shader.roots]
  induction shader.decls with
  | nil => rfl
  | cons decl rest inductionHypothesis =>
      rw [List.flatMap_cons, List.flatMap_append, List.filterMap_append, ← inductionHypothesis,
        ← referenced_ofDecl]
      rfl

theorem references_ofShader (shader : Shader) (name : String) :
    (ofShader shader).references name = shader.exprs.countP fun e => e.varName? == some name := by
  rw [references, referenced_ofShader, List.count_filterMap]

end Names
end Reduction

namespace Decl

open Reduction (Names)

theorem declaredNames_mapExprs (decls : List Decl) :
    declaredNames (decls.map (Decl.mapExprs change)) = declaredNames decls := by
  have same : ∀ decl : Decl, (Names.ofDecl (decl.mapExprs change)).declared =
      (Names.ofDecl decl).declared := by
    intro decl
    cases decl with
    | precision | struct | global => rfl
    | function f =>
        simp only [mapExprs, Names.ofDecl, Names.ofFunction, Function.withStmts,
          Names.declared_ofStmts_mapExprsList]
  rw [declaredNames, declaredNames, List.flatMap_map]
  exact congrArg (decls.flatMap ·) (funext same)

/-- What is declared in a shader adds up from the run at a place and what is around
it. -/
theorem count_declaredNames_fill (name : String) (run : List Stmt) (spot : Spot) :
    (declaredNames (spot.fill run)).count name =
      (declaredNames (spot.fill [])).count name + (Names.ofStmts run).declarations name := by
  have inSlot := Names.declarations_fill name run spot.slot
  rw [Names.declarations, Names.declarations] at inSlot
  have function : ∀ run, (Names.ofDecl (.function (spot.function.withStmts run))).declared =
      (spot.function.name :: spot.function.params.map Param.name) ++ (Names.ofStmts run).declared :=
    fun _ => rfl
  simp only [Spot.fill, declaredNames, List.flatMap_append, List.flatMap_cons, List.count_append,
    function, inSlot]
  omega

theorem mem_declaredNames_fill_iff {name : String} {run : List Stmt} {spot : Spot} :
    name ∈ declaredNames (spot.fill run) ↔
      name ∈ declaredNames (spot.fill []) ∨ name ∈ (Names.ofStmts run).declared := by
  have adds := count_declaredNames_fill name run spot
  rw [← List.count_pos_iff, ← List.count_pos_iff, ← List.count_pos_iff, adds, Names.declarations]
  omega

end Decl

open Reduction (Names Unmentioned)

/-- What no name in a shader mentions is not mentioned in a function either. -/
theorem Shader.unmentioned_fill {shader : Shader} {spot : Spot} {run : List Stmt}
    (isAt : shader.decls = spot.fill run) {names : List String}
    (quiet : ∀ name ∈ names, name ∉ (Names.ofShader shader).referenced ∧
      name ∉ (Names.ofShader shader).declared) : Unmentioned names (spot.slot.fill run) := by
  have listed : Decl.function (spot.function.withStmts (spot.slot.fill run)) ∈ shader.decls := by
    simp [isAt, Spot.fill]
  intro name isName
  rw [Names.declared_ofShader, Decl.declaredNames, Names.referenced_ofShader] at quiet
  refine ⟨fun isReferenced => (quiet name isName).1 ?_, fun isDeclared => (quiet name isName).2 ?_⟩
  · rcases List.mem_filterMap.mp isReferenced with ⟨e, isPart, isVar⟩
    refine List.mem_filterMap.mpr ⟨e, ?_, isVar⟩
    rcases List.mem_flatMap.mp isPart with ⟨root, isRoot, isPart⟩
    exact List.mem_flatMap.mpr ⟨root, List.mem_flatMap.mpr ⟨_, listed, isRoot⟩, isPart⟩
  · exact List.mem_flatMap.mpr ⟨_, listed, List.mem_append_right _ isDeclared⟩

end Whittle
