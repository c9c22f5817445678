import Whittle.Proofs.Scoping.Changed

namespace Whittle
namespace Scoping

open Check (Context)
open Check.Context (Placed)
open Reduction (Names Declares)

/-!
# Names that are declared once

What the scopes around a place hold is declared somewhere in the shader.  So a name
that the shader declares once selects the same declaration in all places where it
selects one at all.
-/

/-- The variables that every shader of a version has. -/
def predefined (version : Version) : Scope :=
  .predefined "gl_FragCoord" (.vector .float .four) false ::
    if version.hasFragColor then [.predefined "gl_FragColor" (.vector .float .four) true] else []

def declaredWithin (stmts : List Stmt) : Scope :=
  declaredIn (stmts.flatMap Stmt.substmts)

/-- The variables that a top-level declaration declares, those within it included. -/
def declaredByDecl : Decl → Scope
  | .precision _ | .struct _ => []
  | .global var => [.ofVar var]
  | .function f => f.params.map .ofParam ++ declaredWithin f.body.stmts

/-- All variables that may be referred to somewhere in a shader. -/
def allDeclared (shader : Shader) (version : Version) : Scope :=
  predefined version ++ shader.decls.flatMap declaredByDecl

variable {change : Expr → Expr}

theorem outermost_eq (version : Version) (before : List Decl) :
    outermost version before = predefined version ++ (before.filterMap Decl.global?).map .ofVar :=
  rfl

theorem declaredWithin_append (first second : List Stmt) :
    declaredWithin (first ++ second) = declaredWithin first ++ declaredWithin second := by
  rw [declaredWithin, List.flatMap_append, declaredIn_append]
  rfl

theorem declaredWithin_cons (s : Stmt) (rest : List Stmt) :
    declaredWithin (s :: rest) = declaredWithin [s] ++ declaredWithin rest :=
  declaredWithin_append [s] rest

theorem declaredWithin_block (id scope : NodeId) (stmts : List Stmt) :
    declaredWithin [.block id scope stmts] = declaredWithin stmts := by
  simp [declaredWithin, declaredIn, Stmt.substmts, Stmt.declared?, List.filterMap_cons,
    Stmt.substmtsOfList_eq_flatMap]

theorem declaredWithin_branch (id : NodeId) (cond : Expr) (whenTrue : Stmt)
    (whenFalse : Option Stmt) : declaredWithin [.branch id cond whenTrue whenFalse] =
      declaredWithin [whenTrue] ++ declaredWithin whenFalse.toList := by
  cases whenFalse <;>
    simp [declaredWithin, declaredIn, Stmt.substmts, Stmt.declared?, List.filterMap_cons,
      Stmt.substmtsOfOption]

theorem declaredWithin_forLoop (id : NodeId) (init : Option Stmt) (cond step : Option Expr)
    (body : Stmt) : declaredWithin [.forLoop id init cond step body] =
      declaredWithin init.toList ++ declaredWithin [body] := by
  cases init <;>
    simp [declaredWithin, declaredIn, Stmt.substmts, Stmt.declared?, List.filterMap_cons,
      Stmt.substmtsOfOption]

theorem declaredWithin_whileLoop (id : NodeId) (cond : Expr) (body : Stmt) :
    declaredWithin [.whileLoop id cond body] = declaredWithin [body] := by
  simp [declaredWithin, declaredIn, Stmt.substmts, Stmt.declared?, List.filterMap_cons]

theorem declaredWithin_switch (id : NodeId) (selector : Expr) (cases : List Case) :
    declaredWithin [.switch id selector cases] = declaredWithin (cases.flatMap Case.body) := by
  simp [declaredWithin, declaredIn, Stmt.substmts, Stmt.declared?, List.filterMap_cons,
    Stmt.substmtsOfCases_eq_flatMap, List.flatMap_assoc]

theorem declaredWithin_ownScope (s : Stmt) : declaredWithin (ownScope s) = declaredWithin [s] := by
  cases s with
  | block id scope stmts => exact (declaredWithin_block id scope stmts).symm
  | _ => rfl

/-- What a list declares in its own scope is part of all that it declares. -/
theorem declaredIn_subset (stmts : List Stmt) : declaredIn stmts ⊆ declaredWithin stmts := by
  refine List.map_subset _ (List.filterMap_subset _ fun s listed => ?_)
  exact List.mem_flatMap.mpr ⟨s, listed, s.self_mem_substmts⟩

theorem map_name_declaredWithin (stmts : List Stmt) :
    (declaredWithin stmts).map Declared.name = (Names.ofStmts stmts).declared := by
  rw [declaredWithin, declaredIn, List.map_map]
  rfl

theorem Holds.subset {s : Stmt} {e : Expr} {scopes : List Scope} (holds : Holds s e scopes) :
    ∀ scope ∈ scopes, scope ⊆ declaredWithin [s] := by
  cases holds with
  | forCond | forStep =>
      rw [List.forall_mem_singleton, declaredWithin_forLoop]
      exact List.subset_append_of_subset_left _ (declaredIn_subset _)
  | _ => exact List.forall_mem_nil _

theorem Opens.subset {s : Stmt} {already : Scope} {stmts : List Stmt} {around : List Scope}
    (opens : Opens s already stmts around) :
    declaredWithin stmts ⊆ declaredWithin [s] ∧
      ∀ scope ∈ already :: around, scope ⊆ declaredWithin [s] := by
  rw [List.forall_mem_cons]
  cases opens with
  | block =>
      rw [declaredWithin_block]
      exact ⟨List.Subset.refl _, List.nil_subset _, List.forall_mem_nil _⟩
  | branchTrue =>
      rw [declaredWithin_branch, declaredWithin_ownScope]
      exact ⟨List.subset_append_left _ _, List.nil_subset _, List.forall_mem_nil _⟩
  | branchFalse =>
      rw [declaredWithin_branch, declaredWithin_ownScope]
      exact ⟨List.subset_append_right _ _, List.nil_subset _, List.forall_mem_nil _⟩
  | forInit =>
      rw [declaredWithin_forLoop]
      exact ⟨List.subset_append_left _ _, List.nil_subset _, List.forall_mem_nil _⟩
  | forBlock =>
      rw [declaredWithin_forLoop, declaredWithin_block]
      exact ⟨List.subset_append_right _ _,
        List.subset_append_of_subset_left _ (declaredIn_subset _), List.forall_mem_nil _⟩
  | forBody =>
      rw [declaredWithin_forLoop, List.forall_mem_singleton]
      exact ⟨List.subset_append_right _ _, List.nil_subset _,
        List.subset_append_of_subset_left _ (declaredIn_subset _)⟩
  | whileBody =>
      rw [declaredWithin_whileLoop, declaredWithin_ownScope]
      exact ⟨List.Subset.refl _, List.nil_subset _, List.forall_mem_nil _⟩
  | arms =>
      rw [declaredWithin_switch]
      exact ⟨List.Subset.refl _, List.nil_subset _, List.forall_mem_nil _⟩

theorem StandsIn.subset {s : Stmt} {e : Expr} {scopes : List Scope} (stands : StandsIn s e scopes) :
    ∀ scope ∈ scopes, scope ⊆ declaredWithin [s] := by
  induction stands with
  | here holds => exact holds.subset
  | @within s inner already before behind around e scopes opens _ inductionHypothesis =>
      have opened := opens.subset
      rw [declaredWithin_append, declaredWithin_cons, List.append_subset, List.append_subset,
        List.forall_mem_cons] at opened
      rw [List.forall_mem_append, List.forall_mem_cons, List.append_subset]
      exact ⟨fun scope listed => List.Subset.trans (inductionHypothesis scope listed) opened.1.2.1,
        ⟨opened.2.1, List.Subset.trans (declaredIn_subset before) opened.1.1⟩, opened.2.2⟩

variable {shader : Shader} {version : Version} {types : TypeTable}

theorem outermost_subset {before behind : List Decl} (split : shader.decls = before ++ behind) :
    outermost version before ⊆ allDeclared shader version := by
  rw [outermost_eq, allDeclared, split, List.flatMap_append]
  refine List.append_subset.mpr ⟨List.subset_append_left _ _, fun declared listed => ?_⟩
  rcases List.mem_map.mp listed with ⟨var, isGlobal, rfl⟩
  rcases List.mem_filterMap.mp isGlobal with ⟨decl, isDecl, isVar⟩
  refine List.mem_append_right _ (List.mem_append_left _ (List.mem_flatMap.mpr ⟨decl, isDecl, ?_⟩))
  cases decl <;> cases isVar
  exact List.mem_cons_self

/-- The scopes around a place hold variables of the shader. -/
theorem StandsInShader.subset {e : Expr} {scopes : List Scope}
    (stands : StandsInShader shader version e scopes) :
    ∀ scope ∈ scopes, scope ⊆ allDeclared shader version := by
  cases stands with
  | globalInit split => exact List.forall_mem_singleton.mpr (outermost_subset split)
  | @body before behind f inFront after s root _ within split splitBody stands _ =>
      have isFunction : declaredByDecl (.function f) ⊆ allDeclared shader version := fun declared listed =>
        List.mem_append_right _ (List.mem_flatMap.mpr ⟨_, split ▸ List.mem_append_cons_self, listed⟩)
      rw [declaredByDecl, List.append_subset, splitBody, declaredWithin_append, declaredWithin_cons,
        List.append_subset, List.append_subset] at isFunction
      rw [List.forall_mem_append, List.forall_mem_cons, List.forall_mem_singleton, List.append_subset]
      exact ⟨fun scope listed => List.Subset.trans (stands.subset scope listed) isFunction.2.2.1,
        ⟨isFunction.1, List.Subset.trans (declaredIn_subset inFront) isFunction.2.1⟩,
        outermost_subset split⟩

/-- A part of an expression has the scopes of the whole one. -/
theorem StandsInShader.part {e part : Expr} {scopes : List Scope}
    (stands : StandsInShader shader version e scopes) (isPart : part ∈ e.subexprs) :
    StandsInShader shader version part scopes := by
  cases stands with
  | globalInit split isInit inRoot => exact .globalInit split isInit (Expr.mem_subexprs_trans isPart inRoot)
  | body split splitBody stands inRoot =>
      exact .body split splitBody stands (Expr.mem_subexprs_trans isPart inRoot)

/-- What is selected is in one of the scopes and has the name. -/
theorem exists_mem_of_select? {scopes : List Scope} {name : String} {declared : Declared}
    (selected : select? scopes name = some declared) :
    (∃ scope ∈ scopes, declared ∈ scope) ∧ declared.name = name := by
  rcases List.exists_of_findSome?_eq_some selected with ⟨scope, listed, isFound⟩
  have isName := List.find?_some isFound
  exact ⟨⟨scope, listed, List.mem_reverse.mp (List.mem_of_find?_eq_some isFound)⟩,
    beq_iff_eq.mp isName⟩

/-! ## Reserved names -/

/-- The name is not one of those that no shader may declare. -/
def IsOpen (name : String) : Prop :=
  Check.isReservedName name = false

mutual

/-- Accepted statements declare no reserved names. -/
theorem declares_of_accepts {ctx : Context} {s : Stmt} (accepted : ctx.Accepts s) :
    Declares IsOpen [s] := by
  cases s with
  | decl id var => exact Declares.decl_iff.mpr accepted.2.free.1
  | block id scope stmts => exact Declares.block_iff.mpr (declares_of_acceptsList accepted)
  | branch id cond whenTrue whenFalse =>
      exact Declares.branch_iff.mpr ⟨declares_of_accepts accepted.2.1,
        declares_of_acceptsOption accepted.2.2⟩
  | forLoop id init cond step body =>
      rw [Context.accepts_forLoop_iff] at accepted
      refine Declares.forLoop_iff.mpr ⟨declares_of_acceptsOption accepted.2.1, ?_⟩
      cases body with
      | block bodyId scope stmts =>
          exact Declares.block_iff.mpr (declares_of_acceptsList accepted.2.2.2.2)
      | _ => exact @declares_of_accepts (ctx.header init).inLoop.opened _ accepted.2.2.2.2
  | whileLoop id cond body => exact Declares.whileLoop_iff.mpr (declares_of_accepts accepted.2)
  | switch id selector cases =>
      exact Declares.switch_iff.mpr (declares_of_acceptsCases accepted.2.2.2)
  | expr | ret | breakOut | continueLoop | discard | empty => exact List.forall_mem_nil _

theorem declares_of_acceptsOption {ctx : Context} {s? : Option Stmt}
    (accepted : ctx.AcceptsOption s?) : Declares IsOpen s?.toList := by
  match s? with
  | none => exact List.forall_mem_nil _
  | some s => exact declares_of_accepts accepted

theorem declares_of_acceptsList {ctx : Context} {stmts : List Stmt}
    (accepted : ctx.AcceptsList stmts) : Declares IsOpen stmts := by
  match stmts with
  | [] => exact List.forall_mem_nil _
  | s :: rest =>
      exact Declares.cons_iff.mpr ⟨declares_of_accepts accepted.1, declares_of_acceptsList accepted.2⟩

theorem declares_of_acceptsCases {ctx : Context} {before : List Label} {cases : List Case}
    (accepted : ctx.AcceptsCases before cases) : Declares IsOpen (cases.flatMap Case.body) := by
  match cases with
  | [] => exact List.forall_mem_nil _
  | .mk id label body :: rest =>
      rw [List.flatMap_cons]
      exact Declares.append_iff.mpr ⟨declares_of_acceptsList accepted.2.1,
        declares_of_acceptsCases accepted.2.2⟩

end

theorem isOpen_of_acceptsParams {ctx : Context} {params : List Param}
    (accepted : ctx.AcceptsParams params) : ∀ param ∈ params, IsOpen param.name := by
  induction params generalizing ctx with
  | nil => exact List.forall_mem_nil _
  | cons param rest inductionHypothesis =>
      exact List.forall_mem_cons.mpr ⟨accepted.2.1.1, inductionHypothesis accepted.2.2⟩

theorem isOpen_of_acceptsDecl {ctx : Context} {decl : Decl} (accepted : ctx.AcceptsDecl decl) :
    ∀ declared ∈ declaredByDecl decl, IsOpen declared.name := by
  cases decl with
  | precision | struct => exact List.forall_mem_nil _
  | global var => exact List.forall_mem_singleton.mpr accepted.2.2.free.1
  | function f =>
      have function : ctx.AcceptsFunction f := accepted
      have within := declares_of_acceptsList function.body
      rw [Declares, ← map_name_declaredWithin, List.forall_mem_map] at within
      rw [declaredByDecl, List.forall_mem_append, List.forall_mem_map]
      exact ⟨isOpen_of_acceptsParams function.params, within⟩

theorem isOpen_of_acceptsDecls {ctx : Context} {decls : List Decl}
    (accepted : ctx.AcceptsDecls decls) :
    ∀ declared ∈ decls.flatMap declaredByDecl, IsOpen declared.name := by
  induction decls generalizing ctx with
  | nil => exact List.forall_mem_nil _
  | cons decl rest inductionHypothesis =>
      rw [List.flatMap_cons, List.forall_mem_append]
      exact ⟨isOpen_of_acceptsDecl accepted.1, inductionHypothesis accepted.2⟩

/-- The variables that every shader has are no declarations of any. -/
theorem not_isOpen_of_mem_predefined {declared : Declared} (listed : declared ∈ predefined version) :
    ¬ IsOpen declared.name := by
  have fragCoord : Check.isReservedName "gl_FragCoord" = true := by decide
  have fragColor : Check.isReservedName "gl_FragColor" = true := by decide
  unfold predefined at listed
  rw [IsOpen, Bool.not_eq_false]
  rcases List.mem_cons.mp listed with rfl | listed
  · exact fragCoord
  · split at listed
    · rw [List.mem_singleton.mp listed]
      exact fragColor
    · cases listed

theorem eq_of_mem_predefined {first second : Declared} (isFirst : first ∈ predefined version)
    (isSecond : second ∈ predefined version) (same : first.name = second.name) : first = second := by
  have apart : ((predefined version).map Declared.name).Nodup := by
    unfold predefined
    split <;> decide
  exact List.inj_on_of_nodup_map apart isFirst isSecond same

/-- The names of the variables are declared in the shader. -/
theorem map_name_declaredBy_sublist (decls : List Decl) :
    ((decls.flatMap declaredByDecl).map Declared.name).Sublist (Decl.declaredNames decls) := by
  rw [List.map_flatMap, Decl.declaredNames]
  refine List.Sublist.flatMap_right _ fun decl _ => ?_
  cases decl with
  | precision => exact .slnil
  | struct => exact List.nil_sublist _
  | global => exact .refl _
  | function f =>
      rw [declaredByDecl, List.map_append, List.map_map, map_name_declaredWithin]
      exact .cons _ (.refl _)

private theorem eq_of_count_map_le_one {α β : Type} [BEq β] [LawfulBEq β] {f : α → β} {l : List α} {b : β}
    (few : (l.map f).count b ≤ 1) {first second : α} (isFirst : first ∈ l) (isSecond : second ∈ l)
    (hasFirst : f first = b) (hasSecond : f second = b) : first = second := by
  induction l with
  | nil => cases isFirst
  | cons head rest inductionHypothesis =>
      rw [List.map_cons, List.count_cons] at few
      have absent : f head = b → ∀ a ∈ rest, f a ≠ b := by
        rintro isHead a listed rfl
        rw [isHead, beq_self_eq_true, if_pos rfl] at few
        have := List.count_pos_iff.mpr (List.mem_map_of_mem (f := f) listed)
        omega
      rcases List.mem_cons.mp isFirst with rfl | isFirst <;>
        rcases List.mem_cons.mp isSecond with rfl | isSecond
      · rfl
      · exact absurd hasSecond (absent hasFirst second isSecond)
      · exact absurd hasFirst (absent hasSecond _ ‹_›)
      · exact inductionHypothesis (Nat.le_trans (Nat.le_add_right _ _) few) isFirst isSecond

/-- Of a name that is declared at most once there is one variable. -/
theorem eq_of_mem_allDeclared (follows : shader.FollowsRules version) {name : String}
    (sole : (Names.ofShader shader).declarations name ≤ 1) {first second : Declared}
    (isFirst : first ∈ allDeclared shader version) (isSecond : second ∈ allDeclared shader version)
    (hasFirst : first.name = name) (hasSecond : second.name = name) : first = second := by
  have isOpen := isOpen_of_acceptsDecls follows.decls
  rcases List.mem_append.mp isFirst with isFirst | isFirst <;>
    rcases List.mem_append.mp isSecond with isSecond | isSecond
  · exact eq_of_mem_predefined isFirst isSecond (hasFirst.trans hasSecond.symm)
  · refine absurd (isOpen second isSecond) ?_
    rw [hasSecond, ← hasFirst]
    exact not_isOpen_of_mem_predefined isFirst
  · refine absurd (isOpen first isFirst) ?_
    rw [hasFirst, ← hasSecond]
    exact not_isOpen_of_mem_predefined isSecond
  · rw [Names.declarations, Names.declared_ofShader] at sole
    exact eq_of_count_map_le_one
      (Nat.le_trans ((map_name_declaredBy_sublist shader.decls).count_le name) sole) isFirst isSecond hasFirst hasSecond

/-- A name that is declared at most once selects one declaration throughout. -/
theorem StandsInShader.select?_eq (follows : shader.FollowsRules version) {name : String}
    (sole : (Names.ofShader shader).declarations name ≤ 1) {e e' : Expr} {scopes scopes' : List Scope}
    (stands : StandsInShader shader version e scopes)
    (stands' : StandsInShader shader version e' scopes') {declared declared' : Declared}
    (selected : select? scopes name = some declared)
    (selected' : select? scopes' name = some declared') : declared' = declared := by
  rcases exists_mem_of_select? selected with ⟨⟨scope, listed, isMember⟩, isName⟩
  rcases exists_mem_of_select? selected' with ⟨⟨scope', listed', isMember'⟩, isName'⟩
  exact eq_of_mem_allDeclared follows sole (stands'.subset scope' listed' isMember')
    (stands.subset scope listed isMember) isName' isName

/-- A change of expressions changes the variables in these. -/
theorem allDeclared_mapExprs (shader : Shader) (version : Version) :
    allDeclared (shader.mapExprs change) version =
      (allDeclared shader version).map (Declared.mapExprs change) := by
  have initially : predefined version = (predefined version).map (Declared.mapExprs change) := by
    unfold predefined
    split <;> rfl
  have each : ∀ decl : Decl, declaredByDecl (decl.mapExprs change) =
      (declaredByDecl decl).map (Declared.mapExprs change) := by
    intro decl
    cases decl with
    | precision | struct | global => rfl
    | function f =>
        simp only [Decl.mapExprs, declaredByDecl, Function.withStmts, declaredWithin,
          ← Stmt.substmtsOfList_eq_flatMap, Stmt.substmtsOfList_mapExprsList, declaredIn_map_mapExprs,
          List.map_append, List.map_map]
        rfl
  rw [allDeclared, allDeclared, List.map_append, ← initially, List.map_flatMap, Shader.mapExprs,
    List.flatMap_map]
  exact congrArg (_ ++ shader.decls.flatMap ·) (funext each)

/-- After a change of expressions, a name that is declared at most once selects the same
declaration, with its expressions changed. -/
theorem StandsInShader.select?_mapExprs {edited : Shader}
    (isEdited : edited.decls = shader.decls.map (Decl.mapExprs change))
    (follows : shader.FollowsRules version) {name : String}
    (sole : (Names.ofShader shader).declarations name ≤ 1) {e e' : Expr} {scopes scopes' : List Scope}
    (stands : StandsInShader shader version e scopes)
    (stands' : StandsInShader edited version e' scopes') {declared declared' : Declared}
    (selected : select? scopes name = some declared)
    (selected' : select? scopes' name = some declared') :
    declared' = declared.mapExprs change := by
  rcases exists_mem_of_select? selected with ⟨⟨scope, listed, isMember⟩, isName⟩
  rcases exists_mem_of_select? selected' with ⟨⟨scope', listed', isMember'⟩, isName'⟩
  have same : allDeclared edited version = allDeclared (shader.mapExprs change) version := by
    rw [allDeclared, isEdited]
    rfl
  have inEdited := stands'.subset scope' listed' isMember'
  rw [same, allDeclared_mapExprs] at inEdited
  rcases List.mem_map.mp inEdited with ⟨original, isOriginal, rfl⟩
  rw [Declared.name_mapExprs] at isName'
  rw [eq_of_mem_allDeclared follows sole isOriginal (stands.subset scope listed isMember) isName' isName]

/-- A part of a shader belongs to one of the outermost expressions. -/
theorem eq_of_mem_placed (distinct : shader.ids.Nodup) {one other : Placed}
    (listed : one ∈ shader.placed version) (listed' : other ∈ shader.placed version) {part : Expr}
    (isPart : part ∈ one.e.subexprs) (isPart' : part ∈ other.e.subexprs) : one = other := by
  have apart : ((shader.placed version).flatMap fun one => one.e.subexprs.map Expr.id).Nodup := by
    have ids := distinct.sublist (Shader.map_id_exprs_sublist shader)
    rwa [Shader.exprs, ← Shader.map_e_placed shader version, List.flatMap_map, List.map_flatMap] at ids
  exact eq_of_mem_flatMap apart listed listed' (List.mem_map_of_mem isPart)
    (List.mem_map_of_mem isPart')

/-- The context in which an expression is placed mirrors the scopes around it. -/
theorem exists_mirrors (checked : shader.check version = .ok types) {one : Placed}
    (listed : one ∈ shader.placed version) :
    ∃ scopes, StandsInShader shader version one.e scopes ∧ Mirrors one.ctx scopes := by
  have valid := Shader.isValid_iff.mp ⟨types, checked⟩
  have isExpr : one.e ∈ shader.exprs :=
    Shader.mem_exprs_iff.mpr ⟨one, listed, one.e.self_mem_subexprs⟩
  rcases exists_standsInShader version isExpr with ⟨scopes, stands⟩
  rcases stands.exists_placed valid.2 with ⟨other, listed', isPart, mirrors⟩
  cases eq_of_mem_placed valid.1 listed listed' one.e.self_mem_subexprs isPart
  exact ⟨scopes, stands, mirrors⟩

/-- A name that is declared at most once stands for the same wherever it stands for
something. -/
theorem lookup?_eq_of_mem_placed (checked : shader.check version = .ok types) {name : String}
    (sole : (Names.ofShader shader).declarations name ≤ 1) {one other : Placed}
    (listed : one ∈ shader.placed version) (listed' : other ∈ shader.placed version)
    (visible : (one.ctx.lookup? name).isSome) (visible' : (other.ctx.lookup? name).isSome) :
    other.ctx.lookup? name = one.ctx.lookup? name := by
  rcases exists_mirrors checked listed with ⟨scopes, stands, mirrors⟩
  rcases exists_mirrors checked listed' with ⟨scopes', stands', mirrors'⟩
  rw [mirrors name, Option.isSome_map] at visible
  rw [mirrors' name, Option.isSome_map] at visible'
  rcases Option.isSome_iff_exists.mp visible with ⟨declared, selected⟩
  rcases Option.isSome_iff_exists.mp visible' with ⟨declared', selected'⟩
  have same := stands.select?_eq (Shader.isValid_iff.mp ⟨types, checked⟩).2 sole stands' selected selected'
  rw [mirrors name, mirrors' name, selected, selected', same]

end Scoping
end Whittle
