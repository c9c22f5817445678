import Whittle.Proofs.Reduction.Parts
import Whittle.Proofs.Typing.Placement

namespace Whittle
namespace Check
namespace Context

open Reduction (Names Jumps)

/-!
# What a piece of program needs of its context

A piece of program looks at its context through the names it mentions, the jumps
that leave it, and the returns in it.  So it may move to another context that
agrees in these: it is accepted there if it was accepted where it came from.
-/

/-- The second context knows what the first one knows at the top level, and the
same of these variables. -/
structure Covers (names : List String) (ctx ctx' : Context) : Prop where
  version : ctx'.version = ctx.version
  structs : ∀ name decl, ctx.struct? name = some decl → ctx'.struct? name = some decl
  calls : ∀ callee args ty, ctx.call callee args = .ok ty → ctx'.call callee args = .ok ty
  lookups : ∀ name ∈ names, ctx'.lookup? name = ctx.lookup? name

/-- The second context has room for statements of the first one: it covers their
variables, leaves the names free that they declare, lets the same jumps out, and
asks the same of their returns. -/
structure Hosts (stmts : List Stmt) (ctx ctx' : Context) : Prop
    extends Covers (Names.ofStmts stmts).referenced ctx ctx' where
  free : ∀ name ∈ Stmt.declaredBy stmts,
    ctx.inner.lookup name = none → ctx'.inner.lookup name = none
  breaks : (Jumps.ofStmts stmts).breaks ≠ 0 → (ctx.loops ≠ 0 ∨ ctx.switches ≠ 0) →
    ctx'.loops ≠ 0 ∨ ctx'.switches ≠ 0
  continues : (Jumps.ofStmts stmts).continues ≠ 0 → ctx.loops ≠ 0 → ctx'.loops ≠ 0
  returns : stmts.any Stmt.holdsReturn = true → ctx'.returnTy = ctx.returnTy

variable {names names' : List String} {ctx ctx' : Context}

theorem lookup?_bound (ctx : Context) (name other : String) (binding : Binding) :
    (ctx.bound name binding).lookup? other =
      if other = name then some binding else ctx.lookup? other := by
  simp only [lookup?, bound, List.findSome?_cons, List.lookup_cons]
  by_cases same : other = name
  · simp [same]
  · simp [same, beq_eq_false_iff_ne.mpr same]

theorem lookup?_declared (ctx : Context) (name other : String) (binding : Binding) :
    (ctx.declared name binding).lookup? other =
      if isReservedName name = false ∧ other = name then some binding else ctx.lookup? other := by
  unfold declared
  split
  · rename_i isReserved
    simp [isReserved]
  · rename_i notReserved
    rw [lookup?_bound]
    simp [notReserved]

theorem inner_declared (ctx : Context) (name other : String) (binding : Binding) :
    (ctx.declared name binding).inner.lookup other =
      if isReservedName name = false ∧ other = name then some binding else ctx.inner.lookup other := by
  unfold declared
  split
  · rename_i isReserved
    simp [isReserved]
  · rename_i notReserved
    by_cases same : other = name
    · simp [bound, same, notReserved]
    · simp [bound, List.lookup_cons, same, beq_eq_false_iff_ne.mpr same]

theorem call_declared (ctx : Context) (name : String) (binding : Binding) :
    (ctx.declared name binding).call = ctx.call := by
  unfold declared
  split <;> rfl

theorem struct?_declared (ctx : Context) (name : String) (binding : Binding) :
    (ctx.declared name binding).struct? = ctx.struct? := by
  unfold declared
  split <;> rfl

theorem version_declared (ctx : Context) (name : String) (binding : Binding) :
    (ctx.declared name binding).version = ctx.version := by
  unfold declared
  split <;> rfl

/-- Where the structs are known, they have their members. -/
theorem member_eq_ok_of_structs
    (structs : ∀ name decl, ctx.struct? name = some decl → ctx'.struct? name = some decl)
    {base ty : Ty} {field : String} (isMember : ctx.member base field = .ok ty) :
    ctx'.member base field = .ok ty := by
  cases base with
  | void | scalar | vector => exact isMember
  | struct name =>
      simp only [Context.member] at isMember ⊢
      cases isDecl : ctx.struct? name with
      | none => simp [isDecl] at isMember
      | some decl => rwa [isDecl, ← structs name decl isDecl] at isMember

/-- Where the structs are the same, they have the same members. -/
theorem member_eq_of_structs (structs : ∀ name, ctx'.struct? name = ctx.struct? name) (base : Ty)
    (field : String) : ctx'.member base field = ctx.member base field := by
  cases base with
  | void | scalar | vector => rfl
  | struct name => simp only [Context.member, structs name]

/-- A type is known where the structs that it may be are known. -/
theorem Knows.of_structs {ty : Ty} {voidAllowed : Bool} (known : ctx.Knows ty voidAllowed)
    (structs : ∀ name, ty = .struct name → (ctx.struct? name).isSome → (ctx'.struct? name).isSome) :
    ctx'.Knows ty voidAllowed := by
  cases ty with
  | void | scalar | vector => exact known
  | struct name => exact structs name rfl known

namespace Covers

theorem mono (covers : Covers names ctx ctx') (fewer : names' ⊆ names) : Covers names' ctx ctx' :=
  { covers with lookups := fun name listed => covers.lookups name (fewer listed) }

theorem opened (covers : Covers names ctx ctx') : Covers names ctx.opened ctx'.opened :=
  { covers with lookups := covers.lookups }

theorem inLoop (covers : Covers names ctx ctx') : Covers names ctx.inLoop ctx'.inLoop :=
  { covers with lookups := covers.lookups }

theorem inSwitch (covers : Covers names ctx ctx') : Covers names ctx.inSwitch ctx'.inSwitch :=
  { covers with lookups := covers.lookups }

theorem declared (covers : Covers names ctx ctx') (name : String) (binding : Binding) :
    Covers names (ctx.declared name binding) (ctx'.declared name binding) where
  version := by rw [version_declared, version_declared, covers.version]
  structs := by rw [struct?_declared, struct?_declared]; exact covers.structs
  calls := by rw [call_declared, call_declared]; exact covers.calls
  lookups other listed := by rw [lookup?_declared, lookup?_declared, covers.lookups other listed]

theorem behind (covers : Covers names ctx ctx') (s : Stmt) :
    Covers names (ctx.behind s) (ctx'.behind s) := by
  cases s with
  | decl id var => exact covers.declared _ _
  | _ => exact covers

theorem header (covers : Covers names ctx ctx') (init : Option Stmt) :
    Covers names (ctx.header init) (ctx'.header init) := by
  cases init with
  | none => exact covers.opened
  | some s =>
      unfold Context.header
      dsimp only
      split
      · exact covers.opened.behind s
      · exact covers.opened

theorem knows (covers : Covers names ctx ctx') {ty : Ty} {voidAllowed : Bool}
    (known : ctx.Knows ty voidAllowed) : ctx'.Knows ty voidAllowed := by
  refine known.of_structs fun name _ isKnown => ?_
  rcases Option.isSome_iff_exists.mp isKnown with ⟨decl, isDecl⟩
  exact Option.isSome_of_eq_some (covers.structs name decl isDecl)

theorem member (covers : Covers names ctx ctx') {base ty : Ty} {field : String}
    (isMember : ctx.member base field = .ok ty) : ctx'.member base field = .ok ty :=
  member_eq_ok_of_structs covers.structs isMember

/-- A typed expression has its type in a covering context as well, and may be
written there if it may be written here. -/
theorem typeOf_and_mayWrite (covers : Covers names ctx ctx') {e : Expr}
    (within : (Names.ofExpr e).referenced ⊆ names) (typed : (ctx.typeOf e).isSome) :
    ctx'.typeOf e = ctx.typeOf e ∧ ctx'.mayWrite e = ctx.mayWrite e := by
  induction e using Expr.children_induction with
  | step e inductionHypothesis =>
      have parts : ∀ child ∈ e.children,
          ctx'.typeOf child = ctx.typeOf child ∧ ctx'.mayWrite child = ctx.mayWrite child := by
        intro child isChild
        refine inductionHypothesis child isChild (fun name listed => within ?_)
          (isSome_of_mem_children typed isChild)
        simp only [Names.ofExpr, Names.ofExprs, List.flatMap_singleton, List.mem_filterMap] at listed ⊢
        rcases listed with ⟨part, isPart, isName⟩
        exact ⟨part, Expr.mem_subexprs_trans isPart (Expr.mem_subexprs_of_mem_children isChild), isName⟩
      rcases Option.isSome_iff_exists.mp typed with ⟨ty, isTy⟩
      cases e with
      | int | float | bool => exact ⟨rfl, rfl⟩
      | var id name =>
          have listed : name ∈ names := within (by
            simp [Names.ofExpr, Names.ofExprs, Expr.subexprs, Expr.varName?])
          simp only [Context.typeOf, Context.mayWrite, covers.lookups name listed, and_self]
      | call id callee args =>
          rcases typeOf_call_eq_some_iff.mp isTy with ⟨tys, areTys, isCall⟩
          have sameArgs : ctx'.typesOf args = ctx.typesOf args := by
            clear typed isTy areTys within inductionHypothesis
            induction args with
            | nil => rfl
            | cons e rest inductionHypothesis =>
                rw [typesOf, typesOf, (parts e List.mem_cons_self).1,
                  inductionHypothesis fun child listed => parts child (List.mem_cons_of_mem _ listed)]
          refine ⟨?_, rfl⟩
          rw [isTy, typeOf_call_eq_some_iff]
          exact ⟨tys, sameArgs.trans areTys, covers.calls callee tys ty isCall⟩
      | member id base field =>
          have sameBase := parts base List.mem_cons_self
          rcases typeOf_member_eq_some_iff.mp isTy with ⟨baseTy, isBase, isMember⟩
          refine ⟨?_, by rw [Context.mayWrite, Context.mayWrite, sameBase.1, sameBase.2]⟩
          rw [isTy, typeOf_member_eq_some_iff]
          exact ⟨baseTy, sameBase.1.trans isBase, covers.member isMember⟩
      | _ =>
          simp only [Expr.children, List.forall_mem_cons] at parts
          simp only [Context.typeOf, Context.mayWrite, parts, and_self]

theorem typeOf_eq_some (covers : Covers names ctx ctx') {e : Expr} {ty : Ty}
    (within : (Names.ofExpr e).referenced ⊆ names) (isTy : ctx.typeOf e = some ty) :
    ctx'.typeOf e = some ty :=
  (covers.typeOf_and_mayWrite within (Option.isSome_of_eq_some isTy)).1.trans isTy

theorem typeOf_isSome (covers : Covers names ctx ctx') {e : Expr}
    (within : (Names.ofExpr e).referenced ⊆ names) (typed : (ctx.typeOf e).isSome) :
    (ctx'.typeOf e).isSome := by
  rwa [(covers.typeOf_and_mayWrite within typed).1]

end Covers

namespace Hosts

variable {stmts outer : List Stmt} {s : Stmt}

/-- What is hosted has its parts hosted in a new scope, where nothing is declared
yet. -/
theorem opened (hosts : Hosts outer ctx ctx')
    (referenced : (Names.ofStmts stmts).referenced ⊆ (Names.ofStmts outer).referenced)
    (breaks : (Jumps.ofStmts stmts).breaks ≠ 0 → (Jumps.ofStmts outer).breaks ≠ 0)
    (continues : (Jumps.ofStmts stmts).continues ≠ 0 → (Jumps.ofStmts outer).continues ≠ 0)
    (returns : stmts.any Stmt.holdsReturn = true → outer.any Stmt.holdsReturn = true) :
    Hosts stmts ctx.opened ctx'.opened where
  toCovers := hosts.toCovers.opened.mono referenced
  free _ _ isFree := isFree
  breaks leaves := hosts.breaks (breaks leaves)
  continues leaves := hosts.continues (continues leaves)
  returns holds := hosts.returns (returns holds)

/-- Within a loop no jump can go wrong. -/
theorem inLoop {inner inner' : Context} (covers : Covers names inner inner')
    (referenced : (Names.ofStmts stmts).referenced ⊆ names) (sameScope : inner'.inner = inner.inner)
    (returns : stmts.any Stmt.holdsReturn = true → inner'.returnTy = inner.returnTy) :
    Hosts stmts inner.inLoop inner'.inLoop where
  toCovers := covers.inLoop.mono referenced
  free name _ isFree := by
    change inner'.inner.lookup name = none
    rwa [sameScope]
  breaks _ _ := Or.inl (Nat.succ_ne_zero _)
  continues _ _ := Nat.succ_ne_zero _
  returns := returns

end Hosts

theorem behind_inner_eq {s : Stmt} (same : ctx'.inner = ctx.inner) :
    (ctx'.behind s).inner = (ctx.behind s).inner := by
  cases s with
  | decl id var =>
      simp only [behind, behindVar, declared]
      split
      · exact same
      · simp only [bound, same]
  | _ => exact same

theorem behind_loops (ctx : Context) (s : Stmt) : (ctx.behind s).loops = ctx.loops := by
  cases s with
  | decl id var => simp only [behind, behindVar, declared]; split <;> rfl
  | _ => rfl

theorem behind_switches (ctx : Context) (s : Stmt) : (ctx.behind s).switches = ctx.switches := by
  cases s with
  | decl id var => simp only [behind, behindVar, declared]; split <;> rfl
  | _ => rfl

theorem behind_returnTy (ctx : Context) (s : Stmt) : (ctx.behind s).returnTy = ctx.returnTy := by
  cases s with
  | decl id var => simp only [behind, behindVar, declared]; split <;> rfl
  | _ => rfl

theorem header_inner (ctx ctx' : Context) (init : Option Stmt) :
    (ctx'.header init).inner = (ctx.header init).inner := by
  cases init with
  | none => rfl
  | some s =>
      simp only [header]
      split
      · exact behind_inner_eq rfl
      · rfl

theorem header_returnTy (ctx : Context) (init : Option Stmt) :
    (ctx.header init).returnTy = ctx.returnTy := by
  cases init with
  | none => rfl
  | some s =>
      simp only [header]
      split
      · exact behind_returnTy _ _
      · rfl

namespace Hosts

variable {stmts outer : List Stmt} {s : Stmt} {rest : List Stmt}

theorem head (hosts : Hosts (s :: rest) ctx ctx') : Hosts [s] ctx ctx' where
  toCovers := hosts.toCovers.mono (by
    rw [Names.ofStmts_cons s rest]
    exact List.subset_append_left _ _)
  free name listed := hosts.free name (by
    rw [← List.singleton_append, Stmt.declaredBy_append]
    exact List.mem_append_left _ listed)
  breaks leaves := hosts.breaks (by
    rw [Jumps.ofStmts_singleton] at leaves
    simp only [Jumps.ofStmts, Jumps.add]
    omega)
  continues leaves := hosts.continues (by
    rw [Jumps.ofStmts_singleton] at leaves
    simp only [Jumps.ofStmts, Jumps.add]
    omega)
  returns holds := hosts.returns (by
    rw [List.any_cons, List.any_nil, Bool.or_false] at holds
    rw [List.any_cons, holds, Bool.true_or])

theorem tail (hosts : Hosts (s :: rest) ctx ctx') : Hosts rest (ctx.behind s) (ctx'.behind s) where
  toCovers := (hosts.toCovers.behind s).mono (by
    rw [Names.ofStmts_cons]
    exact List.subset_append_right _ _)
  free name listed isFree := by
    have before := hosts.free name (by
      rw [← List.singleton_append, Stmt.declaredBy_append]
      exact List.mem_append_right _ listed)
    cases s with
    | decl id var =>
        rw [behind, behindVar, inner_declared] at isFree ⊢
        split at isFree
        · cases isFree
        · rename_i differ
          rw [if_neg differ]
          exact before isFree
    | _ => exact before isFree
  breaks leaves := by
    simp only [behind_loops, behind_switches]
    exact hosts.breaks (by
      simp only [Jumps.ofStmts, Jumps.add]
      omega)
  continues leaves := by
    simp only [behind_loops]
    exact hosts.continues (by
      simp only [Jumps.ofStmts, Jumps.add]
      omega)
  returns holds := by
    simp only [behind_returnTy]
    exact hosts.returns (by rw [List.any_cons, holds, Bool.or_true])

/-- A run of statements in a list is hosted behind those in front of it. -/
theorem behindList {first second : List Stmt} (hosts : Hosts (first ++ second) ctx ctx') :
    Hosts second (ctx.behindList first) (ctx'.behindList first) := by
  induction first generalizing ctx ctx' with
  | nil => exact hosts
  | cons s rest inductionHypothesis => exact inductionHypothesis hosts.tail

theorem initial {first second : List Stmt} (hosts : Hosts (first ++ second) ctx ctx') :
    Hosts first ctx ctx' where
  toCovers := hosts.toCovers.mono (by
    rw [Names.ofStmts_append]
    exact List.subset_append_left _ _)
  free name listed := hosts.free name (by
    rw [Stmt.declaredBy_append]
    exact List.mem_append_left _ listed)
  breaks leaves := hosts.breaks (by
    simp only [Jumps.ofStmts_append, Jumps.add]
    omega)
  continues leaves := hosts.continues (by
    simp only [Jumps.ofStmts_append, Jumps.add]
    omega)
  returns holds := hosts.returns (by rw [List.any_append, holds, Bool.true_or])

end Hosts

/-! ## Statements -/

theorem Covers.acceptsVar {var : VarDecl} (covers : Covers names ctx ctx')
    (within : (Names.ofExprs var.init.toList).referenced ⊆ names)
    (free : ctx.inner.lookup var.name = none → ctx'.inner.lookup var.name = none)
    (accepted : ctx.AcceptsVar var) : ctx'.AcceptsVar var where
  known := covers.knows accepted.known
  isSet := accepted.isSet
  initialised init isInit := by
    refine covers.typeOf_eq_some ?_ (accepted.initialised init isInit)
    rwa [Option.mem_def.mp isInit] at within
  free := ⟨accepted.free.1, free accepted.free.2⟩

theorem Covers.acceptsReturn {value : Option Expr} (covers : Covers names ctx ctx')
    (within : (Names.ofExprs value.toList).referenced ⊆ names)
    (sameTy : ctx'.returnTy = ctx.returnTy) (accepted : ctx.AcceptsReturn value) :
    ctx'.AcceptsReturn value := by
  unfold AcceptsReturn at accepted ⊢
  rw [sameTy]
  cases value with
  | none => split at accepted <;> simp_all
  | some e =>
      cases isTy : ctx.returnTy with
      | none => simp [isTy] at accepted
      | some expected =>
          rw [isTy] at accepted
          exact ⟨accepted.1, covers.typeOf_eq_some within accepted.2⟩

/-- Whether the body of a loop is accepted, which has one scope with the header if
it is a block. -/
def AcceptsBody (ctx : Context) : Stmt → Prop
  | .block _ _ stmts => ctx.AcceptsList stmts
  | s => ctx.opened.Accepts s

theorem accepts_forLoop_iff {ctx : Context} {id : NodeId} {init : Option Stmt}
    {cond step : Option Expr} {body : Stmt} :
    ctx.Accepts (.forLoop id init cond step body) ↔
      (∀ s ∈ init, s.isLoopInit) ∧ ctx.opened.AcceptsOption init ∧
        (∀ e ∈ cond, (ctx.header init).typeOf e = some .bool) ∧
        (∀ e ∈ step, ((ctx.header init).typeOf e).isSome) ∧
        (ctx.header init).inLoop.AcceptsBody body := by
  cases body <;> exact .rfl

theorem referenced_ofStmts_decl (id : NodeId) (var : VarDecl) :
    (Names.ofStmts [.decl id var]).referenced = (Names.ofExprs var.init.toList).referenced := by
  simp [Names.ofStmts, Names.ofExprs, Stmt.roots]

theorem referenced_ofStmts_expr (id : NodeId) (e : Expr) :
    (Names.ofStmts [.expr id e]).referenced = (Names.ofExpr e).referenced := by
  simp [Names.ofStmts, Names.ofExpr, Stmt.roots]

namespace Hosts

variable {id : NodeId} {s body : Stmt} {stmts : List Stmt} {init : Option Stmt}
  {cond step : Option Expr}

theorem inBlock {scope : NodeId} (hosts : Hosts [.block id scope stmts] ctx ctx') :
    Hosts stmts ctx.opened ctx'.opened := by
  refine hosts.opened ?_ ?_ ?_ ?_
  · rw [Names.ofStmts_block]
    exact List.Subset.refl _
  · exact fun leaves => by rwa [Jumps.ofStmts_singleton, Jumps.ofStmt]
  · exact fun leaves => by rwa [Jumps.ofStmts_singleton, Jumps.ofStmt]
  · exact fun holds => by rwa [List.any_cons, List.any_nil, Bool.or_false, Stmt.holdsReturn_block]

theorem whenTrue {cond : Expr} {other : Option Stmt}
    (hosts : Hosts [.branch id cond s other] ctx ctx') : Hosts [s] ctx.opened ctx'.opened := by
  refine hosts.opened ?_ ?_ ?_ ?_
  · rw [Names.ofStmts_branch]
    intro name listed
    exact List.mem_append_right _ (List.mem_append_left _ listed)
  · intro leaves
    simp only [Jumps.ofStmts_singleton, Jumps.ofStmt, Jumps.add] at leaves ⊢
    omega
  · intro leaves
    simp only [Jumps.ofStmts_singleton, Jumps.ofStmt, Jumps.add] at leaves ⊢
    omega
  · intro holds
    simp only [List.any_cons, List.any_nil, Bool.or_false, Stmt.holdsReturn_branch] at holds ⊢
    rw [holds, Bool.true_or]

theorem whenFalse {cond : Expr} {other : Stmt}
    (hosts : Hosts [.branch id cond other (some s)] ctx ctx') : Hosts [s] ctx.opened ctx'.opened := by
  refine hosts.opened ?_ ?_ ?_ ?_
  · rw [Names.ofStmts_branch]
    intro name listed
    exact List.mem_append_right _ (List.mem_append_right _ listed)
  · intro leaves
    simp only [Jumps.ofStmts_singleton, Jumps.ofStmt, Jumps.ofOption, Jumps.add] at leaves ⊢
    omega
  · intro leaves
    simp only [Jumps.ofStmts_singleton, Jumps.ofStmt, Jumps.ofOption, Jumps.add] at leaves ⊢
    omega
  · intro holds
    simp only [List.any_cons, List.any_nil, Bool.or_false, Stmt.holdsReturn_branch,
      Option.any_some] at holds ⊢
    rw [holds, Bool.or_true]

/-- No jump leaves the first part of the header of a loop. -/
theorem loopInit (hosts : Hosts [.forLoop id (some s) cond step body] ctx ctx')
    (isInit : s.isLoopInit = true) : Hosts [s] ctx.opened ctx'.opened := by
  have noJumps : Jumps.ofStmts [s] = Jumps.none := by
    cases s <;> simp_all [Stmt.isLoopInit, Jumps.ofStmts, Jumps.ofStmt, Jumps.add, Jumps.none]
  refine hosts.opened ?_ ?_ ?_ ?_
  · rw [Names.ofStmts_forLoop]
    exact List.subset_append_left _ _
  · exact fun leaves => absurd (congrArg Jumps.breaks noJumps) leaves
  · exact fun leaves => absurd (congrArg Jumps.continues noJumps) leaves
  · intro holds
    rw [List.any_cons, List.any_nil, Bool.or_false] at holds ⊢
    rw [Stmt.holdsReturn_forLoop, Option.any_some, holds, Bool.true_or]

/-- The statements of the body of a `for` loop are hosted behind its header, in its
scope or in a new one. -/
theorem forBody (hosts : Hosts [.forLoop id init cond step body] ctx ctx')
    (referenced : (Names.ofStmts stmts).referenced = (Names.ofStmts [body]).referenced)
    (returns : stmts.any Stmt.holdsReturn = body.holdsReturn) :
    Hosts stmts (ctx.header init).inLoop (ctx'.header init).inLoop := by
  have names := hosts.toCovers
  rw [Names.ofStmts_forLoop] at names
  refine Hosts.inLoop (names.header init) ?_ (header_inner ctx ctx' init) fun holds => ?_
  · rw [referenced]
    exact fun name listed => List.mem_append_right _ (List.mem_append_right _
      (List.mem_append_right _ listed))
  · rw [header_returnTy, header_returnTy]
    refine hosts.returns ?_
    rw [List.any_cons, List.any_nil, Bool.or_false, Stmt.holdsReturn_forLoop, ← returns, holds,
      Bool.or_true]

theorem whileBody {cond : Expr} (hosts : Hosts [.whileLoop id cond body] ctx ctx') :
    Hosts [body] ctx.inLoop.opened ctx'.inLoop.opened := by
  have names := hosts.toCovers
  rw [Names.ofStmts_whileLoop] at names
  refine Hosts.inLoop names.opened (List.subset_append_right _ _) rfl fun holds => hosts.returns ?_
  rwa [List.any_cons, List.any_nil, Bool.or_false, Stmt.holdsReturn_whileLoop,
    ← Bool.or_false body.holdsReturn]

theorem arms {selector : Expr} {cases : List Case} (hosts : Hosts [.switch id selector cases] ctx ctx') :
    Hosts (cases.flatMap Case.body) ctx.inSwitch.opened ctx'.inSwitch.opened where
  toCovers := by
    have names := hosts.toCovers
    rw [Names.ofStmts_switch] at names
    exact names.inSwitch.opened.mono (List.subset_append_right _ _)
  free _ _ isFree := isFree
  breaks _ _ := Or.inr (Nat.succ_ne_zero _)
  continues leaves := hosts.continues (by rwa [Jumps.ofStmts_singleton, Jumps.ofStmt, Jumps.ofCases_eq])
  returns holds := hosts.returns (by
    rwa [List.any_cons, List.any_nil, Bool.or_false, Stmt.holdsReturn_switch])

end Hosts

mutual

/-- An accepted statement is accepted wherever it is hosted. -/
theorem accepts_of_hosts {ctx ctx' : Context} {s : Stmt} (hosts : Hosts [s] ctx ctx')
    (accepted : ctx.Accepts s) : ctx'.Accepts s := by
  cases s with
  | decl id var =>
      refine ⟨accepted.1, hosts.toCovers.acceptsVar ?_ (hosts.free var.name (by
        simp [Stmt.declaredBy, Stmt.declared?])) accepted.2⟩
      rw [referenced_ofStmts_decl]
      exact List.Subset.refl _
  | expr id e =>
      exact hosts.toCovers.typeOf_isSome
        (by rw [referenced_ofStmts_expr]; exact List.Subset.refl _) accepted
  | block id scope stmts => exact acceptsList_of_hosts hosts.inBlock accepted
  | branch id cond whenTrue whenFalse =>
      have names := hosts.toCovers
      rw [Names.ofStmts_branch] at names
      refine ⟨names.typeOf_eq_some (List.subset_append_left _ _) accepted.1,
        accepts_of_hosts hosts.whenTrue accepted.2.1, ?_⟩
      cases whenFalse with
      | none => trivial
      | some s => exact accepts_of_hosts (s := s) hosts.whenFalse accepted.2.2
  | forLoop id init cond step body =>
      have names := hosts.toCovers
      rw [Names.ofStmts_forLoop] at names
      have header := names.header init
      rw [accepts_forLoop_iff] at accepted ⊢
      refine ⟨accepted.1, ?_, fun e isCond => ?_, fun e isStep => ?_, ?_⟩
      · cases init with
        | none => trivial
        | some s => exact accepts_of_hosts (s := s) (hosts.loopInit (accepted.1 s rfl)) accepted.2.1
      · refine header.typeOf_eq_some (fun name listed => ?_) (accepted.2.2.1 e isCond)
        rw [Option.mem_def.mp isCond]
        exact List.mem_append_right _ (List.mem_append_left _ listed)
      · refine header.typeOf_isSome (fun name listed => ?_) (accepted.2.2.2.1 e isStep)
        rw [Option.mem_def.mp isStep]
        exact List.mem_append_right _ (List.mem_append_right _ (List.mem_append_left _ listed))
      · have inBody := accepted.2.2.2.2
        cases body with
        | block id scope stmts =>
            exact acceptsList_of_hosts
              (hosts.forBody (by rw [Names.ofStmts_block]) (Stmt.holdsReturn_block _ _ _).symm) inBody
        | _ =>
            have hosted := hosts.forBody rfl (by rw [List.any_cons, List.any_nil, Bool.or_false])
            exact accepts_of_hosts
              (hosted.opened (List.Subset.refl _) (fun leaves => leaves) (fun leaves => leaves)
                fun holds => holds) inBody
  | whileLoop id cond body =>
      have names := hosts.toCovers
      rw [Names.ofStmts_whileLoop] at names
      exact ⟨names.typeOf_eq_some (List.subset_append_left _ _) accepted.1,
        accepts_of_hosts hosts.whileBody accepted.2⟩
  | switch id selector cases =>
      have names := hosts.toCovers
      rw [Names.ofStmts_switch] at names
      exact ⟨by rw [names.version]; exact accepted.1,
        names.typeOf_eq_some (List.subset_append_left _ _) accepted.2.1, accepted.2.2.1,
        acceptsCases_of_hosts hosts.arms accepted.2.2.2⟩
  | ret id value =>
      refine hosts.toCovers.acceptsReturn ?_ (hosts.returns rfl) accepted
      simp [Names.ofStmts, Stmt.roots]
  | breakOut id => exact hosts.breaks (by simp [Jumps.ofStmts_singleton, Jumps.ofStmt]) accepted
  | continueLoop id => exact hosts.continues (by simp [Jumps.ofStmts_singleton, Jumps.ofStmt]) accepted
  | discard | empty => trivial

theorem acceptsList_of_hosts {ctx ctx' : Context} {stmts : List Stmt} (hosts : Hosts stmts ctx ctx')
    (accepted : ctx.AcceptsList stmts) : ctx'.AcceptsList stmts := by
  match stmts with
  | [] => trivial
  | s :: rest =>
      exact ⟨accepts_of_hosts hosts.head accepted.1, acceptsList_of_hosts hosts.tail accepted.2⟩

theorem acceptsCases_of_hosts {ctx ctx' : Context} {before : List Label} {cases : List Case}
    (hosts : Hosts (cases.flatMap Case.body) ctx ctx') (accepted : ctx.AcceptsCases before cases) :
    ctx'.AcceptsCases before cases := by
  match cases with
  | [] => trivial
  | .mk id label body :: rest =>
      exact ⟨accepted.1, acceptsList_of_hosts hosts.initial accepted.2.1,
        acceptsCases_of_hosts hosts.behindList accepted.2.2⟩

end

end Context
end Check
end Whittle
