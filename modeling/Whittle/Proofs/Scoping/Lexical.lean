import Whittle.Proofs.Typing.Slots

namespace Whittle
namespace Scoping

/-!
# Lexical scoping

Which declaration a variable name selects depends on where the name stands, and
on nothing else.  The rules are stated here on the tree: a path leads from a
declaration of the shader down to an expression, and each scope that it enters
holds what was declared in it before.  No context is passed along, so this is
another account of scoping than that of the check, and the two are shown to
agree.
-/

/-- A declaration that the name of a variable may select. -/
inductive Declared where
  | predefined (name : String) (ty : Ty) (writable : Bool)
  | ofVar (var : VarDecl)
  | ofParam (param : Param)

namespace Declared

def name : Declared → String
  | .predefined name _ _ => name
  | .ofVar var => var.name
  | .ofParam param => param.name

def ty : Declared → Ty
  | .predefined _ ty _ => ty
  | .ofVar var => var.ty
  | .ofParam param => param.ty

/-- Whether what is declared may be written. -/
def writable : Declared → Bool
  | .predefined _ _ writable => writable
  | .ofVar var => Check.isWritable var.qualifier
  | .ofParam _ => true

end Declared

abbrev Scope := List Declared

/-- The declaration that a name selects: in the innermost scope that declares the
name at all, the nearest one before. -/
def select? (scopes : List Scope) (name : String) : Option Declared :=
  scopes.findSome? fun scope => scope.reverse.find? fun declared => declared.name == name

def declaredIn (stmts : List Stmt) : Scope :=
  (stmts.filterMap Stmt.declared?).map .ofVar

/-- The outermost scope behind some declarations: the variables that every shader
of a version has, and the globals. -/
def outermost (version : Version) (before : List Decl) : Scope :=
  .predefined "gl_FragCoord" (.vector .float .four) false ::
    ((if version.hasFragColor then [.predefined "gl_FragColor" (.vector .float .four) true] else []) ++
      (before.filterMap Decl.global?).map .ofVar)

/-- The statements that share the scope of a branch or of the body of a loop: a
block makes no second scope there. -/
def ownScope : Stmt → List Stmt
  | .block _ _ stmts => stmts
  | s => [s]

def isBlock : Stmt → Bool
  | .block .. => true
  | _ => false

/-- The expression belongs to the statement itself, and these are the scopes that
the statement opens around it, from the inside to the outside. -/
inductive Holds : Stmt → Expr → List Scope → Prop where
  | declInit {id : NodeId} {var : VarDecl} {e : Expr} (isInit : var.init = some e) :
      Holds (.decl id var) e []
  | expr {id : NodeId} {e : Expr} : Holds (.expr id e) e []
  | branchCond {id : NodeId} {cond : Expr} {whenTrue : Stmt} {whenFalse : Option Stmt} :
      Holds (.branch id cond whenTrue whenFalse) cond []
  | forCond {id : NodeId} {init : Option Stmt} {cond : Expr} {step : Option Expr} {body : Stmt} :
      Holds (.forLoop id init (some cond) step body) cond [declaredIn init.toList]
  | forStep {id : NodeId} {init : Option Stmt} {cond : Option Expr} {step : Expr} {body : Stmt} :
      Holds (.forLoop id init cond (some step) body) step [declaredIn init.toList]
  | whileCond {id : NodeId} {cond : Expr} {body : Stmt} : Holds (.whileLoop id cond body) cond []
  | selector {id : NodeId} {selector : Expr} {cases : List Case} :
      Holds (.switch id selector cases) selector []
  | ret {id : NodeId} {e : Expr} : Holds (.ret id (some e)) e []

/-- The statement opens a scope for some statements.  In this scope there is
`already` declared in front of them, and the scopes of `around` are opened around
it. -/
inductive Opens : Stmt → (already : Scope) → List Stmt → (around : List Scope) → Prop where
  | block {id scope : NodeId} {stmts : List Stmt} : Opens (.block id scope stmts) [] stmts []
  | branchTrue {id : NodeId} {cond : Expr} {whenTrue : Stmt} {whenFalse : Option Stmt} :
      Opens (.branch id cond whenTrue whenFalse) [] (ownScope whenTrue) []
  | branchFalse {id : NodeId} {cond : Expr} {whenTrue whenFalse : Stmt} :
      Opens (.branch id cond whenTrue (some whenFalse)) [] (ownScope whenFalse) []
  | forInit {id : NodeId} {init : Option Stmt} {cond step : Option Expr} {body : Stmt} :
      Opens (.forLoop id init cond step body) [] init.toList []
  | forBlock {id bodyId scope : NodeId} {init : Option Stmt} {cond step : Option Expr}
      {stmts : List Stmt} :
      Opens (.forLoop id init cond step (.block bodyId scope stmts)) (declaredIn init.toList) stmts []
  | forBody {id : NodeId} {init : Option Stmt} {cond step : Option Expr} {body : Stmt}
      (noBlock : isBlock body = false) :
      Opens (.forLoop id init cond step body) [] [body] [declaredIn init.toList]
  | whileBody {id : NodeId} {cond : Expr} {body : Stmt} :
      Opens (.whileLoop id cond body) [] (ownScope body) []
  | arms {id : NodeId} {selector : Expr} {cases : List Case} :
      Opens (.switch id selector cases) [] (cases.flatMap Case.body) []

/-- The expression stands in the statement and in no other expression, and these
are the scopes that are opened around it on the way there, from the inside to the
outside. -/
inductive StandsIn : Stmt → Expr → List Scope → Prop where
  | here {s : Stmt} {e : Expr} {scopes : List Scope} (holds : Holds s e scopes) : StandsIn s e scopes
  | within {s inner : Stmt} {already : Scope} {before behind : List Stmt} {around : List Scope}
      {e : Expr} {scopes : List Scope}
      (opens : Opens s already (before ++ inner :: behind) around) (stands : StandsIn inner e scopes) :
      StandsIn s e (scopes ++ (already ++ declaredIn before) :: around)

/-- The expression is part of the shader, and these are the scopes around it, from
the inside to the outside.  A part of an expression has the scopes of the whole
one; the parameters of a function share a scope with its body. -/
inductive StandsInShader (shader : Shader) (version : Version) : Expr → List Scope → Prop where
  | globalInit {before behind : List Decl} {var : VarDecl} {root e : Expr}
      (split : shader.decls = before ++ .global var :: behind) (isInit : var.init = some root)
      (isPart : e ∈ root.subexprs) :
      StandsInShader shader version e [outermost version before]
  | body {before behind : List Decl} {f : Function} {inFront after : List Stmt} {s : Stmt}
      {root e : Expr} {scopes : List Scope} (split : shader.decls = before ++ .function f :: behind)
      (splitBody : f.body.stmts = inFront ++ s :: after) (stands : StandsIn s root scopes)
      (isPart : e ∈ root.subexprs) :
      StandsInShader shader version e
        (scopes ++ [f.params.map .ofParam ++ declaredIn inFront, outermost version before])

variable {scope : Scope} {scopes : List Scope}

/-- A further declaration in the innermost scope is selected by its own name, and
changes nothing for other names. -/
theorem select?_append (scope : Scope) (declared : Declared) (scopes : List Scope) (name : String) :
    select? ((scope ++ [declared]) :: scopes) name =
      if name = declared.name then some declared else select? (scope :: scopes) name := by
  simp only [select?, List.findSome?_cons, List.reverse_append, List.reverse_singleton,
    List.singleton_append, List.find?_cons]
  by_cases same : name = declared.name
  · simp [same]
  · simp [same, beq_eq_false_iff_ne.mpr (Ne.symm same)]

theorem declaredIn_append (first second : List Stmt) :
    declaredIn (first ++ second) = declaredIn first ++ declaredIn second := by
  rw [declaredIn, List.filterMap_append, List.map_append]
  rfl

open Check (Context)
open Check.Context (Placed)

def Declared.binding (declared : Declared) : Check.Binding :=
  ⟨declared.ty, declared.writable⟩

/-- In the context a name stands for the declaration that it selects in the
scopes. -/
def Mirrors (ctx : Context) (scopes : List Scope) : Prop :=
  ∀ name, ctx.lookup? name = (select? scopes name).map Declared.binding

namespace Mirrors

variable {ctx : Context}

theorem opened (mirrors : Mirrors ctx scopes) : Mirrors ctx.opened ([] :: scopes) :=
  mirrors

theorem declared (mirrors : Mirrors ctx (scope :: scopes)) (declared : Declared)
    (notReserved : Check.isReservedName declared.name = false) :
    Mirrors (ctx.declared declared.name declared.binding) ((scope ++ [declared]) :: scopes) := by
  intro name
  rw [Context.lookup?_declared, select?_append, mirrors name]
  by_cases same : name = declared.name
  · rw [if_pos ⟨notReserved, same⟩, if_pos same]
    rfl
  · rw [if_neg fun both => same both.2, if_neg same]

theorem behind {s : Stmt} (mirrors : Mirrors ctx (scope :: scopes)) (accepted : ctx.Accepts s) :
    Mirrors (ctx.behind s) ((scope ++ declaredIn [s]) :: scopes) := by
  cases s with
  | decl id var => exact mirrors.declared (.ofVar var) accepted.2.free.1
  | _ =>
      rw [show declaredIn _ = [] from rfl, List.append_nil]
      exact mirrors

theorem behindList {stmts : List Stmt} (mirrors : Mirrors ctx (scope :: scopes))
    (accepted : ctx.AcceptsList stmts) :
    Mirrors (ctx.behindList stmts) ((scope ++ declaredIn stmts) :: scopes) := by
  induction stmts generalizing ctx scope with
  | nil =>
      rw [show declaredIn [] = [] from rfl, List.append_nil]
      exact mirrors
  | cons s rest inductionHypothesis =>
      have next := inductionHypothesis (mirrors.behind accepted.1) accepted.2
      rwa [List.append_assoc, ← declaredIn_append] at next

theorem behindParams {params : List Param} (mirrors : Mirrors ctx (scope :: scopes))
    (accepted : ctx.AcceptsParams params) :
    Mirrors (ctx.behindParams params) ((scope ++ params.map .ofParam) :: scopes) := by
  induction params generalizing ctx scope with
  | nil =>
      rw [List.map_nil, List.append_nil]
      exact mirrors
  | cons param rest inductionHypothesis =>
      have next := inductionHypothesis (mirrors.declared (.ofParam param) accepted.2.1.1) accepted.2.2
      rwa [List.append_assoc] at next

/-- The header of a loop has the initialiser in its scope. -/
theorem header {init : Option Stmt} (mirrors : Mirrors ctx scopes)
    (isLoopInit : ∀ s ∈ init, s.isLoopInit) (accepted : ctx.opened.AcceptsOption init) :
    Mirrors (ctx.header init) (declaredIn init.toList :: scopes) := by
  cases init with
  | none => exact mirrors.opened
  | some s =>
      rw [Context.header, if_pos (isLoopInit s rfl)]
      exact mirrors.opened.behind accepted

theorem behindDecl {decl : Decl} {decls : List Decl} {version : Version}
    (mirrors : Mirrors ctx [outermost version decls]) (accepted : ctx.AcceptsDecl decl) :
    Mirrors (ctx.behindDecl decl) [outermost version (decls ++ [decl])] := by
  cases decl with
  | precision decl =>
      have same : outermost version (decls ++ [.precision decl]) = outermost version decls := by
        simp [outermost, Decl.global?]
      rw [same]
      exact mirrors
  | struct decl =>
      have same : outermost version (decls ++ [.struct decl]) = outermost version decls := by
        simp [outermost, Decl.global?]
      rw [same, Context.behindDecl]
      split <;> exact mirrors
  | function f =>
      have same : outermost version (decls ++ [.function f]) = outermost version decls := by
        simp [outermost, Decl.global?]
      rw [same, Context.behindDecl]
      split <;> exact mirrors
  | global var =>
      have longer : outermost version (decls ++ [.global var]) =
          outermost version decls ++ [.ofVar var] := by
        simp [outermost, Decl.global?]
      have notTaken : ctx.taken.contains var.name = false := by
        simpa using accepted.1
      have atTop : Mirrors (ctx.taking var.name) [outermost version decls] := mirrors
      rw [longer, Context.behindDecl, notTaken]
      exact atTop.declared (.ofVar var) accepted.2.2.free.1

theorem initial (version : Version) : Mirrors (.initial version) [outermost version []] := by
  intro name
  simp only [Context.lookup?, Context.initial, Context.predefined, select?, outermost]
  by_cases isCoord : name = "gl_FragCoord"
  · cases version.hasFragColor <;> subst isCoord <;> rfl
  · by_cases isColor : name = "gl_FragColor"
    · cases version.hasFragColor <;> subst isColor <;> rfl
    · have noCoord : (name == "gl_FragCoord") = false := beq_eq_false_iff_ne.mpr isCoord
      have noColor : (name == "gl_FragColor") = false := beq_eq_false_iff_ne.mpr isColor
      cases version.hasFragColor <;>
        simp [List.lookup_cons, noCoord, noColor, Declared.name, Ne.symm isCoord, Ne.symm isColor]

end Mirrors

/-- The context in the scope of a branch or of the body of a loop.  A block there
opens a scope of its own, around which there is one that stays empty. -/
def inOwnScope (ctx : Context) : Stmt → Context
  | .block .. => ctx.opened.opened
  | _ => ctx.opened

theorem placedList_ownScope (ctx : Context) (s : Stmt) :
    (inOwnScope ctx s).placedList (ownScope s) = ctx.opened.placed s := by
  cases s with
  | block => rfl
  | _ => exact List.append_nil _

theorem acceptsList_ownScope {ctx : Context} {s : Stmt} (accepted : ctx.opened.Accepts s) :
    (inOwnScope ctx s).AcceptsList (ownScope s) := by
  cases s with
  | block => exact accepted
  | _ => exact ⟨accepted, trivial⟩

theorem Mirrors.inOwnScope {ctx : Context} (mirrors : Mirrors ctx scopes) (s : Stmt) :
    Mirrors (Scoping.inOwnScope ctx s) ([] :: scopes) := by
  cases s <;> exact mirrors

/-- The cases of a switch are checked as one list of statements. -/
theorem placedCases_eq_placedList (ctx : Context) (cases : List Case) :
    ctx.placedCases cases = ctx.placedList (cases.flatMap Case.body) := by
  induction cases generalizing ctx with
  | nil => rfl
  | cons one rest inductionHypothesis =>
      cases one with
      | mk id label body =>
          rw [Context.placedCases, inductionHypothesis, List.flatMap_cons,
            Context.placedList_append]
          rfl

theorem acceptsList_of_acceptsCases {ctx : Context} {before : List Label} {cases : List Case}
    (accepted : ctx.AcceptsCases before cases) : ctx.AcceptsList (cases.flatMap Case.body) := by
  induction cases generalizing ctx before with
  | nil => trivial
  | cons one rest inductionHypothesis =>
      cases one with
      | mk id label body =>
          rw [List.flatMap_cons, Context.acceptsList_append_iff]
          exact ⟨accepted.2.1, inductionHypothesis accepted.2.2⟩

/-! ## Where an expression stands the check has its scopes -/

/-- What an accepted statement holds is placed in a context that mirrors the scopes
around it. -/
theorem Holds.exists_placed {s : Stmt} {e : Expr} {within : List Scope} (holds : Holds s e within)
    {ctx : Context} (mirrors : Mirrors ctx scopes) (accepted : ctx.Accepts s) :
    ∃ one ∈ ctx.placed s, one.e = e ∧ Mirrors one.ctx (within ++ scopes) := by
  cases holds with
  | declInit isInit =>
      rw [Context.placed, isInit]
      exact ⟨⟨ctx, e⟩, List.mem_singleton_self _, rfl, mirrors⟩
  | expr | ret => exact ⟨⟨ctx, e⟩, List.mem_singleton_self _, rfl, mirrors⟩
  | branchCond | whileCond | selector => exact ⟨⟨ctx, e⟩, List.mem_cons_self, rfl, mirrors⟩
  | forCond =>
      rw [Context.placed_forLoop]
      unfold Context.Accepts at accepted
      exact ⟨⟨_, e⟩, List.mem_append_right _ (List.mem_append_left _ (List.mem_singleton_self _)),
        rfl, mirrors.header accepted.1 accepted.2.1⟩
  | forStep =>
      rw [Context.placed_forLoop]
      unfold Context.Accepts at accepted
      exact ⟨⟨_, e⟩, List.mem_append_right _ (List.mem_append_right _ (List.mem_append_left _
        (List.mem_singleton_self _))), rfl, mirrors.header accepted.1 accepted.2.1⟩

/-- The statements of a scope that an accepted statement opens are accepted in a
context that mirrors this scope and those around it. -/
theorem Opens.exists_context {s : Stmt} {already : Scope} {stmts : List Stmt}
    {around : List Scope} (opens : Opens s already stmts around) {ctx : Context}
    (mirrors : Mirrors ctx scopes) (accepted : ctx.Accepts s) :
    ∃ ctx' : Context, Mirrors ctx' (already :: (around ++ scopes)) ∧ ctx'.AcceptsList stmts ∧
      ctx'.placedList stmts ⊆ ctx.placed s := by
  cases opens with
  | block => exact ⟨ctx.opened, mirrors.opened, accepted, List.Subset.refl _⟩
  | branchTrue =>
      refine ⟨_, mirrors.inOwnScope _, acceptsList_ownScope accepted.2.1, ?_⟩
      rw [placedList_ownScope, Context.placed]
      exact fun one listed => List.mem_cons_of_mem _ (List.mem_append_left _ listed)
  | branchFalse =>
      refine ⟨_, mirrors.inOwnScope _, acceptsList_ownScope accepted.2.2, ?_⟩
      rw [placedList_ownScope, Context.placed]
      exact fun one listed => List.mem_cons_of_mem _ (List.mem_append_right _ listed)
  | whileBody =>
      have inLoop : Mirrors ctx.inLoop scopes := mirrors
      refine ⟨_, inLoop.inOwnScope _, acceptsList_ownScope accepted.2, ?_⟩
      rw [placedList_ownScope, Context.placed]
      exact List.subset_cons_self _ _
  | arms =>
      refine ⟨ctx.inSwitch.opened, mirrors, acceptsList_of_acceptsCases accepted.2.2.2, ?_⟩
      rw [← placedCases_eq_placedList, Context.placed]
      exact List.subset_cons_self _ _
  | @forInit _ init =>
      rw [Context.placed_forLoop]
      unfold Context.Accepts at accepted
      cases init with
      | none => exact ⟨ctx.opened, mirrors.opened, trivial, List.nil_subset _⟩
      | some s =>
          refine ⟨ctx.opened, mirrors.opened, ⟨accepted.2.1, trivial⟩, ?_⟩
          rw [show ctx.opened.placedList (some s).toList = ctx.opened.placed s from List.append_nil _]
          exact List.subset_append_left _ _
  | forBlock =>
      rw [Context.placed_forLoop]
      unfold Context.Accepts at accepted
      have header := mirrors.header accepted.1 accepted.2.1
      refine ⟨(ctx.header _).inLoop, header, accepted.2.2.2.2, fun one listed => ?_⟩
      exact List.mem_append_right _ (List.mem_append_right _ (List.mem_append_right _ listed))
  | @forBody _ init _ _ body noBlock =>
      rw [Context.accepts_forLoop_iff] at accepted
      rw [Context.placed_forLoop]
      have header := mirrors.header accepted.1 accepted.2.1
      refine ⟨(ctx.header init).inLoop.opened, header.opened, ?_, fun one listed => ?_⟩
      · cases body with
        | block => cases noBlock
        | _ => exact ⟨accepted.2.2.2.2, trivial⟩
      · refine List.mem_append_right _ (List.mem_append_right _ (List.mem_append_right _ ?_))
        rw [Context.placedList, Context.placedList, List.append_nil] at listed
        cases body with
        | block => cases noBlock
        | _ => exact listed

/-- An expression that stands in an accepted statement is placed there in a context
that mirrors the scopes around it. -/
theorem StandsIn.exists_placed {s : Stmt} {e : Expr} {within : List Scope}
    (stands : StandsIn s e within) {ctx : Context} (mirrors : Mirrors ctx scopes)
    (accepted : ctx.Accepts s) :
    ∃ one ∈ ctx.placed s, one.e = e ∧ Mirrors one.ctx (within ++ scopes) := by
  induction stands generalizing ctx scopes with
  | here holds => exact holds.exists_placed mirrors accepted
  | within opens _ inductionHypothesis =>
      rcases opens.exists_context mirrors accepted with ⟨ctx', mirrors', acceptedList, arePlaced⟩
      rw [Context.acceptsList_append_iff] at acceptedList
      rcases inductionHypothesis (mirrors'.behindList acceptedList.1) acceptedList.2.1 with
        ⟨one, listed, same, atPlace⟩
      refine ⟨one, arePlaced ?_, same, ?_⟩
      · rw [Context.placedList_append]
        exact List.mem_append_right _ (List.mem_append_left _ listed)
      · rwa [List.append_assoc]

/-- Every outermost expression of the statement stands in it. -/
def HasPlaces (s : Stmt) : Prop :=
  ∀ e ∈ s.roots, ∃ scopes, StandsIn s e scopes

theorem Opens.exists_standsIn {s : Stmt} {already : Scope} {stmts : List Stmt}
    {around : List Scope} (opens : Opens s already stmts around)
    (each : ∀ inner ∈ stmts, HasPlaces inner) {e : Expr} (isRoot : e ∈ stmts.flatMap Stmt.roots) :
    ∃ scopes, StandsIn s e scopes := by
  rcases List.mem_flatMap.mp isRoot with ⟨inner, listed, isRootWithin⟩
  rcases List.append_of_mem listed with ⟨before, behind, rfl⟩
  rcases each inner listed e isRootWithin with ⟨scopes, stands⟩
  exact ⟨_, .within opens stands⟩

theorem Opens.exists_standsIn_of_sole {s inner : Stmt} {already : Scope} {around : List Scope}
    (opens : Opens s already [inner] around) {e : Expr} {scopes : List Scope}
    (stands : StandsIn inner e scopes) : ∃ scopes, StandsIn s e scopes :=
  ⟨_, @StandsIn.within s inner already [] [] around e scopes opens stands⟩

/-- What stands in a branch or in the body of a loop stands in the whole
statement. -/
theorem Opens.exists_standsIn_of_ownScope {s arm : Stmt} (opens : Opens s [] (ownScope arm) [])
    {e : Expr} {scopes : List Scope} (stands : StandsIn arm e scopes) :
    ∃ scopes, StandsIn s e scopes := by
  cases arm with
  | block id scope stmts =>
      cases stands with
      | here holds => cases holds
      | within inner stands =>
          cases inner with
          | block => exact ⟨_, .within opens stands⟩
  | _ => exact opens.exists_standsIn_of_sole stands

mutual

theorem hasPlaces (s : Stmt) : HasPlaces s := by
  intro e isRoot
  cases s with
  | decl id var => exact ⟨_, .here (.declInit (Option.mem_toList.mp isRoot))⟩
  | expr id root =>
      cases List.mem_singleton.mp isRoot
      exact ⟨_, .here .expr⟩
  | block id scope stmts =>
      rw [Stmt.roots, Stmt.rootsOfList_eq_flatMap] at isRoot
      exact Opens.block.exists_standsIn (hasPlaces_of_mem stmts) isRoot
  | branch id cond whenTrue whenFalse =>
      rcases List.mem_cons.mp isRoot with rfl | isRoot
      · exact ⟨_, .here .branchCond⟩
      · rcases List.mem_append.mp isRoot with inTrue | inFalse
        · rcases hasPlaces whenTrue e inTrue with ⟨scopes, stands⟩
          exact Opens.branchTrue.exists_standsIn_of_ownScope stands
        · cases whenFalse with
          | none => cases inFalse
          | some arm =>
              rcases hasPlaces arm e inFalse with ⟨scopes, stands⟩
              exact Opens.branchFalse.exists_standsIn_of_ownScope stands
  | forLoop id init cond step body =>
      rw [Stmt.roots, List.mem_append, List.mem_append, List.mem_append, Option.mem_toList,
        Option.mem_toList] at isRoot
      rcases isRoot with ((inInit | rfl) | rfl) | inBody
      · cases init with
        | none => cases inInit
        | some s =>
            rcases hasPlaces s e inInit with ⟨scopes, stands⟩
            exact Opens.forInit.exists_standsIn_of_sole stands
      · exact ⟨_, .here .forCond⟩
      · exact ⟨_, .here .forStep⟩
      · rcases hasPlaces body e inBody with ⟨scopes, stands⟩
        cases isBody : isBlock body with
        | false => exact (Opens.forBody isBody).exists_standsIn_of_sole stands
        | true =>
            cases body with
            | block bodyId scope stmts =>
                cases stands with
                | here holds => cases holds
                | within inner stands =>
                    cases inner with
                    | block => exact ⟨_, .within .forBlock stands⟩
            | _ => cases isBody
  | whileLoop id cond body =>
      rcases List.mem_cons.mp isRoot with rfl | inBody
      · exact ⟨_, .here .whileCond⟩
      · rcases hasPlaces body e inBody with ⟨scopes, stands⟩
        exact Opens.whileBody.exists_standsIn_of_ownScope stands
  | switch id selector cases =>
      rcases List.mem_cons.mp isRoot with rfl | inCases
      · exact ⟨_, .here .selector⟩
      · rw [Stmt.rootsOfCases_eq_flatMap, ← List.flatMap_assoc] at inCases
        exact Opens.arms.exists_standsIn (hasPlaces_of_mem_cases cases) inCases
  | ret id value =>
      cases Option.mem_toList.mp isRoot
      exact ⟨_, .here .ret⟩
  | breakOut | continueLoop | discard | empty => cases isRoot

theorem hasPlaces_of_mem (stmts : List Stmt) : ∀ s ∈ stmts, HasPlaces s := by
  match stmts with
  | [] => exact List.forall_mem_nil _
  | s :: rest => exact List.forall_mem_cons.mpr ⟨hasPlaces s, hasPlaces_of_mem rest⟩

theorem hasPlaces_of_mem_cases (cases : List Case) :
    ∀ s ∈ cases.flatMap Case.body, HasPlaces s := by
  match cases with
  | [] => exact List.forall_mem_nil _
  | .mk id label body :: rest =>
      exact List.forall_mem_append.mpr ⟨hasPlaces_of_mem body, hasPlaces_of_mem_cases rest⟩

end

variable {shader : Shader} {version : Version} {types : TypeTable}

theorem Mirrors.behindDecls {ctx : Context} {decls before : List Decl}
    (mirrors : Mirrors ctx [outermost version before]) (accepted : ctx.AcceptsDecls decls) :
    Mirrors (ctx.behindDecls decls) [outermost version (before ++ decls)] := by
  induction decls generalizing ctx before with
  | nil =>
      rw [List.append_nil]
      exact mirrors
  | cons decl rest inductionHypothesis =>
      have next := inductionHypothesis (mirrors.behindDecl accepted.1) accepted.2
      rwa [List.append_assoc] at next

/-- Every part of a shader stands somewhere in it. -/
theorem exists_standsInShader (version : Version) {e : Expr} (listed : e ∈ shader.exprs) :
    ∃ scopes, StandsInShader shader version e scopes := by
  rcases List.mem_flatMap.mp listed with ⟨root, isRoot, isPart⟩
  rcases List.mem_flatMap.mp isRoot with ⟨decl, isDecl, isRoot⟩
  rcases List.append_of_mem isDecl with ⟨before, behind, split⟩
  cases decl with
  | precision | struct => cases isRoot
  | global var => exact ⟨_, .globalInit split (Option.mem_toList.mp isRoot) isPart⟩
  | function f =>
      rcases List.mem_flatMap.mp isRoot with ⟨s, isMember, isRoot⟩
      rcases List.append_of_mem isMember with ⟨inFront, after, splitBody⟩
      rcases hasPlaces s root isRoot with ⟨scopes, stands⟩
      exact ⟨_, .body split splitBody stands isPart⟩

/-- Where an expression of a shader that follows the rules stands, its context
mirrors the scopes around it. -/
theorem StandsInShader.exists_placed {e : Expr} {scopes : List Scope}
    (stands : StandsInShader shader version e scopes) (follows : shader.FollowsRules version) :
    ∃ one ∈ shader.placed version, e ∈ one.e.subexprs ∧ Mirrors one.ctx scopes := by
  have decls := follows.decls
  cases stands with
  | @globalInit before behind var root _ split isInit isPart =>
      rw [split, Context.acceptsDecls_append_iff] at decls
      have mirrors := (Mirrors.initial version).behindDecls decls.1
      refine ⟨⟨((Context.initial version).behindDecls before).taking var.name, root⟩, ?_, isPart,
        mirrors⟩
      rw [Shader.placed, split, Context.placedDecls_append]
      refine List.mem_append_right _ (List.mem_append_left _ ?_)
      rw [Context.placedDecl, isInit]
      exact List.mem_singleton_self _
  | @body before behind f inFront after s root _ inner split splitBody stands isPart =>
      rw [split, Context.acceptsDecls_append_iff] at decls
      have function : Context.AcceptsFunction _ f := decls.2.1
      have mirrors := (Mirrors.initial version).behindDecls decls.1
      have inBody := mirrors.opened.behindParams function.params
      have accepted := function.body
      rw [splitBody, Context.acceptsList_append_iff] at accepted
      have inFunction : Mirrors (Context.inFunction _ f) [_, outermost version before] := inBody
      have atStmt := inFunction.behindList accepted.1
      rcases stands.exists_placed atStmt accepted.2.1 with ⟨one, listed, rfl, atPlace⟩
      refine ⟨one, ?_, isPart, atPlace⟩
      rw [Shader.placed, split, Context.placedDecls_append]
      refine List.mem_append_right _ (List.mem_append_left _ ?_)
      rw [Context.placedDecl, splitBody, Context.placedList_append]
      exact List.mem_append_right _ (List.mem_append_left _ listed)

/-- The check resolves variables lexically.  A reference in a valid shader stands
somewhere, and wherever it does, its name selects a declaration in the scopes
around it, whose type is the one that the check finds. -/
theorem exists_select?_of_check (checked : shader.check version = .ok types) {id : NodeId}
    {name : String} (listed : .var id name ∈ shader.exprs) :
    (∃ scopes, StandsInShader shader version (.var id name) scopes) ∧
      ∀ scopes, StandsInShader shader version (.var id name) scopes →
        ∃ declared, select? scopes name = some declared ∧ types[id]? = some declared.ty := by
  refine ⟨exists_standsInShader version listed, fun scopes stands => ?_⟩
  have follows := (Shader.isValid_iff.mp ⟨types, checked⟩).2
  rcases stands.exists_placed follows with ⟨one, isPlaced, isPart, mirrors⟩
  rcases Shader.types_eq_typeOf checked isPlaced isPart with ⟨typed, isTy⟩
  rw [Context.typeOf, mirrors name, Option.map_map] at typed isTy
  rw [Option.isSome_map, Option.isSome_iff_exists] at typed
  rcases typed with ⟨declared, selected⟩
  refine ⟨declared, selected, ?_⟩
  rw [show types[id]? = _ from isTy, selected]
  rfl

/-- The shader `float x; void main() { float y = x; { int x = 1; int z = x; } }`. -/
def shadowing : Shader :=
  .ofDecls .essl100 [.global ⟨.unnumbered, none, .float, "x", none⟩,
    .function ⟨.unnumbered, .void, "main", [], ⟨.unnumbered,
      [.decl .unnumbered ⟨.unnumbered, none, .float, "y", some (.var .unnumbered "x")⟩,
       .block .unnumbered .unnumbered
        [.decl .unnumbered ⟨.unnumbered, none, .int, "x", some (.int .unnumbered 1)⟩,
         .decl .unnumbered ⟨.unnumbered, none, .int, "z", some (.var .unnumbered "x")⟩]]⟩⟩]

/-- The first `x` is the global, the second one the local that hides it. -/
theorem exists_select?_shadowing :
    ∃ types, shadowing.check .essl100 = .ok types ∧ Expr.var 5 "x" ∈ shadowing.exprs ∧
      Expr.var 13 "x" ∈ shadowing.exprs ∧ types[5]? = some .float ∧ types[13]? = some .int := by
  have isValid : (shadowing.check .essl100).toOption.isSome = true := by decide
  cases checked : shadowing.check .essl100 with
  | error problems =>
      rw [checked] at isValid
      cases isValid
  | ok types =>
      have first : Expr.var 5 "x" ∈ shadowing.exprs := List.mem_cons_self
      have second : Expr.var 13 "x" ∈ shadowing.exprs :=
        List.mem_cons_of_mem _ (List.mem_cons_of_mem _ List.mem_cons_self)
      have firstStands := @StandsInShader.body shadowing .essl100 [_] [] _ [] [_] _ (.var 5 "x") _ _
        rfl rfl (.here (.declInit rfl)) (Expr.self_mem_subexprs _)
      have secondStands := @StandsInShader.body shadowing .essl100 [_] [] _ [_] [] _ (.var 13 "x") _ _
        rfl rfl (@StandsIn.within _ _ [] [_] [] [] _ _ .block (.here (.declInit rfl)))
        (Expr.self_mem_subexprs _)
      rcases (exists_select?_of_check checked first).2 _ firstStands with ⟨global, isGlobal, isFloat⟩
      rcases (exists_select?_of_check checked second).2 _ secondStands with ⟨inner, isInner, isInt⟩
      cases isGlobal
      cases isInner
      exact ⟨types, rfl, first, second, isFloat, isInt⟩

end Scoping
end Whittle
