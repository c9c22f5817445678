import Whittle.Syntax.Target

namespace Whittle

/-!
# Trees that differ in one place

An edit by identifier leaves a tree as it is but for one node.  What this does
to the tree is said here by relations: two trees are related if they differ in
one place, and there as a given relation says.  A statement about an edit then
is an induction on the path from the root to that place, which has no branches,
whereas the searches themselves branch over lists, options and cases.
-/

/-- The expressions differ in one part, and there as `R` says. -/
inductive Expr.Inside (R : Expr → Expr → Prop) : Expr → Expr → Prop where
  | here {e e' : Expr} (changed : R e e') : Inside R e e'
  | unary {id : NodeId} {op : UnaryOp} {operand operand' : Expr}
      (inner : Inside R operand operand') :
      Inside R (.unary id op operand) (.unary id op operand')
  | binaryLeft {id : NodeId} {op : BinaryOp} {lhs lhs' rhs : Expr} (inner : Inside R lhs lhs') :
      Inside R (.binary id op lhs rhs) (.binary id op lhs' rhs)
  | binaryRight {id : NodeId} {op : BinaryOp} {lhs rhs rhs' : Expr} (inner : Inside R rhs rhs') :
      Inside R (.binary id op lhs rhs) (.binary id op lhs rhs')
  | assignTarget {id : NodeId} {op : AssignOp} {target target' value : Expr}
      (inner : Inside R target target') :
      Inside R (.assign id op target value) (.assign id op target' value)
  | assignValue {id : NodeId} {op : AssignOp} {target value value' : Expr}
      (inner : Inside R value value') :
      Inside R (.assign id op target value) (.assign id op target value')
  | ternaryCond {id : NodeId} {cond cond' whenTrue whenFalse : Expr}
      (inner : Inside R cond cond') :
      Inside R (.ternary id cond whenTrue whenFalse) (.ternary id cond' whenTrue whenFalse)
  | ternaryTrue {id : NodeId} {cond whenTrue whenTrue' whenFalse : Expr}
      (inner : Inside R whenTrue whenTrue') :
      Inside R (.ternary id cond whenTrue whenFalse) (.ternary id cond whenTrue' whenFalse)
  | ternaryFalse {id : NodeId} {cond whenTrue whenFalse whenFalse' : Expr}
      (inner : Inside R whenFalse whenFalse') :
      Inside R (.ternary id cond whenTrue whenFalse) (.ternary id cond whenTrue whenFalse')
  | callArg {id : NodeId} {callee : String} {before : List Expr} {arg arg' : Expr}
      {behind : List Expr} (inner : Inside R arg arg') :
      Inside R (.call id callee (before ++ arg :: behind))
        (.call id callee (before ++ arg' :: behind))
  | memberBase {id : NodeId} {base base' : Expr} {field : String} (inner : Inside R base base') :
      Inside R (.member id base field) (.member id base' field)
  | indexBase {id : NodeId} {base base' position : Expr} (inner : Inside R base base') :
      Inside R (.index id base position) (.index id base' position)
  | indexPosition {id : NodeId} {base position position' : Expr}
      (inner : Inside R position position') :
      Inside R (.index id base position) (.index id base position')
  | paren {id : NodeId} {inner inner' : Expr} (within : Inside R inner inner') :
      Inside R (.paren id inner) (.paren id inner')

def Expr.ChangeOf (target : NodeId) (change : Expr → Expr) (e e' : Expr) : Prop :=
  e.id = target ∧ e' = change e

private theorem exists_of_map_eq_some {α β : Type} {f : α → β} {a? : Option α} {b : β}
    (found : a?.map f = some b) : ∃ a, a? = some a ∧ b = f a := by
  obtain ⟨a, found, same⟩ := Option.map_eq_some_iff.mp found
  exact ⟨a, found, same.symm⟩

private theorem either_of_orElse_eq_some {α : Type} {first second : Option α} {a : α}
    (found : (first <|> second) = some a) : first = some a ∨ second = some a := by
  cases first with
  | none => exact Or.inr found
  | some _ => exact Or.inl found

private theorem Expr.inside_of_changedOr {e e' : Expr} {target : NodeId} {change : Expr → Expr}
    {inside : Option Expr} (found : e.changedOr target change inside = some e')
    (deeper : inside = some e' → Inside (ChangeOf target change) e e') :
    Inside (ChangeOf target change) e e' := by
  unfold changedOr at found
  split at found
  · exact .here ⟨beq_iff_eq.mp ‹_›, (Option.some.inj found).symm⟩
  · exact deeper found

mutual

/-- A search that finds its node changes the tree there and nowhere else. -/
theorem Expr.inside_of_modify? {target : NodeId} {change : Expr → Expr} {e e' : Expr}
    (found : e.modify? target change = some e') : Inside (ChangeOf target change) e e' := by
  cases e <;> rw [modify?] at found <;> refine inside_of_changedOr found fun inner => ?_
  case int | float | bool | var => cases inner
  case unary =>
    obtain ⟨_, deeper, rfl⟩ := exists_of_map_eq_some inner
    exact .unary (inside_of_modify? deeper)
  case binary =>
    rcases either_of_orElse_eq_some inner with inner | inner <;>
      obtain ⟨_, deeper, rfl⟩ := exists_of_map_eq_some inner
    · exact .binaryLeft (inside_of_modify? deeper)
    · exact .binaryRight (inside_of_modify? deeper)
  case assign =>
    rcases either_of_orElse_eq_some inner with inner | inner <;>
      obtain ⟨_, deeper, rfl⟩ := exists_of_map_eq_some inner
    · exact .assignTarget (inside_of_modify? deeper)
    · exact .assignValue (inside_of_modify? deeper)
  case ternary =>
    rcases either_of_orElse_eq_some inner with inner | inner
    · obtain ⟨_, deeper, rfl⟩ := exists_of_map_eq_some inner
      exact .ternaryCond (inside_of_modify? deeper)
    · rcases either_of_orElse_eq_some inner with inner | inner <;>
        obtain ⟨_, deeper, rfl⟩ := exists_of_map_eq_some inner
      · exact .ternaryTrue (inside_of_modify? deeper)
      · exact .ternaryFalse (inside_of_modify? deeper)
  case call =>
    obtain ⟨_, deeper, rfl⟩ := exists_of_map_eq_some inner
    obtain ⟨_, _, _, _, rfl, rfl, arg⟩ := inside_of_modifyList? deeper
    exact .callArg arg
  case member =>
    obtain ⟨_, deeper, rfl⟩ := exists_of_map_eq_some inner
    exact .memberBase (inside_of_modify? deeper)
  case index =>
    rcases either_of_orElse_eq_some inner with inner | inner <;>
      obtain ⟨_, deeper, rfl⟩ := exists_of_map_eq_some inner
    · exact .indexBase (inside_of_modify? deeper)
    · exact .indexPosition (inside_of_modify? deeper)
  case paren =>
    obtain ⟨_, deeper, rfl⟩ := exists_of_map_eq_some inner
    exact .paren (inside_of_modify? deeper)

theorem Expr.inside_of_modifyList? {target : NodeId} {change : Expr → Expr}
    {es es' : List Expr} (found : Expr.modifyList? target change es = some es') :
    ∃ before e e' behind, es = before ++ e :: behind ∧ es' = before ++ e' :: behind ∧
      Inside (ChangeOf target change) e e' := by
  match es with
  | [] => cases found
  | e :: rest =>
      rw [modifyList?] at found
      rcases either_of_orElse_eq_some found with found | found <;>
        obtain ⟨_, deeper, rfl⟩ := exists_of_map_eq_some found
      · exact ⟨[], e, _, rest, rfl, rfl, inside_of_modify? deeper⟩
      · obtain ⟨before, one, one', behind, rfl, rfl, inner⟩ := inside_of_modifyList? deeper
        exact ⟨e :: before, one, one', behind, rfl, rfl, inner⟩

end

theorem Expr.inside_of_modifyOption? {target : NodeId} {change : Expr → Expr}
    {e? e?' : Option Expr} (found : Expr.modifyOption? target change e? = some e?') :
    ∃ e e', e? = some e ∧ e?' = some e' ∧ Inside (ChangeOf target change) e e' := by
  cases e? with
  | none => cases found
  | some e =>
      obtain ⟨e', inner, rfl⟩ := exists_of_map_eq_some found
      exact ⟨e, e', rfl, rfl, inside_of_modify? inner⟩

/-- The statements differ in one expression that stands directly in them, and
there as `R` says. -/
inductive Stmt.AtExpr (R : Expr → Expr → Prop) : Stmt → Stmt → Prop where
  | declInit {id varId : NodeId} {qualifier : Option Qualifier} {ty : Ty} {name : String}
      {init init' : Expr} (changed : R init init') :
      AtExpr R (.decl id ⟨varId, qualifier, ty, name, some init⟩)
        (.decl id ⟨varId, qualifier, ty, name, some init'⟩)
  | expr {id : NodeId} {e e' : Expr} (changed : R e e') : AtExpr R (.expr id e) (.expr id e')
  | branchCond {id : NodeId} {cond cond' : Expr} {whenTrue : Stmt} {whenFalse : Option Stmt}
      (changed : R cond cond') :
      AtExpr R (.branch id cond whenTrue whenFalse) (.branch id cond' whenTrue whenFalse)
  | forCond {id : NodeId} {init : Option Stmt} {cond cond' : Expr} {step : Option Expr}
      {body : Stmt} (changed : R cond cond') :
      AtExpr R (.forLoop id init (some cond) step body) (.forLoop id init (some cond') step body)
  | forStep {id : NodeId} {init : Option Stmt} {cond : Option Expr} {step step' : Expr}
      {body : Stmt} (changed : R step step') :
      AtExpr R (.forLoop id init cond (some step) body) (.forLoop id init cond (some step') body)
  | whileCond {id : NodeId} {cond cond' : Expr} {body : Stmt} (changed : R cond cond') :
      AtExpr R (.whileLoop id cond body) (.whileLoop id cond' body)
  | selector {id : NodeId} {selector selector' : Expr} {cases : List Case}
      (changed : R selector selector') :
      AtExpr R (.switch id selector cases) (.switch id selector' cases)
  | retValue {id : NodeId} {value value' : Expr} (changed : R value value') :
      AtExpr R (.ret id (some value)) (.ret id (some value'))

/-- The statements differ in one list that they hold directly, and there as `R`
says. -/
inductive Stmt.AtList (R : List Stmt → List Stmt → Prop) : Stmt → Stmt → Prop where
  | block {id scope : NodeId} {stmts stmts' : List Stmt} (changed : R stmts stmts') :
      AtList R (.block id scope stmts) (.block id scope stmts')
  | case {id : NodeId} {selector : Expr} {casesBefore : List Case} {caseId : NodeId}
      {label : Label} {body body' : List Stmt} {casesBehind : List Case}
      (changed : R body body') :
      AtList R (.switch id selector (casesBefore ++ .mk caseId label body :: casesBehind))
        (.switch id selector (casesBefore ++ .mk caseId label body' :: casesBehind))

/-- The statements differ in one statement within them, and there as `R`
says. -/
inductive Stmt.Inside (R : Stmt → Stmt → Prop) : Stmt → Stmt → Prop where
  | here {s s' : Stmt} (changed : R s s') : Inside R s s'
  | block {id scope : NodeId} {before : List Stmt} {s s' : Stmt} {behind : List Stmt}
      (inner : Inside R s s') :
      Inside R (.block id scope (before ++ s :: behind)) (.block id scope (before ++ s' :: behind))
  | branchTrue {id : NodeId} {cond : Expr} {whenTrue whenTrue' : Stmt}
      {whenFalse : Option Stmt} (inner : Inside R whenTrue whenTrue') :
      Inside R (.branch id cond whenTrue whenFalse) (.branch id cond whenTrue' whenFalse)
  | branchFalse {id : NodeId} {cond : Expr} {whenTrue whenFalse whenFalse' : Stmt}
      (inner : Inside R whenFalse whenFalse') :
      Inside R (.branch id cond whenTrue (some whenFalse))
        (.branch id cond whenTrue (some whenFalse'))
  | forInit {id : NodeId} {init init' : Stmt} {cond step : Option Expr} {body : Stmt}
      (inner : Inside R init init') :
      Inside R (.forLoop id (some init) cond step body) (.forLoop id (some init') cond step body)
  | forBody {id : NodeId} {init : Option Stmt} {cond step : Option Expr} {body body' : Stmt}
      (inner : Inside R body body') :
      Inside R (.forLoop id init cond step body) (.forLoop id init cond step body')
  | whileBody {id : NodeId} {cond : Expr} {body body' : Stmt} (inner : Inside R body body') :
      Inside R (.whileLoop id cond body) (.whileLoop id cond body')
  | case {id : NodeId} {selector : Expr} {casesBefore : List Case} {caseId : NodeId}
      {label : Label} {before : List Stmt} {s s' : Stmt} {behind : List Stmt}
      {casesBehind : List Case} (inner : Inside R s s') :
      Inside R
        (.switch id selector (casesBefore ++ .mk caseId label (before ++ s :: behind) :: casesBehind))
        (.switch id selector (casesBefore ++ .mk caseId label (before ++ s' :: behind) :: casesBehind))

/-- The lists differ in one member, and there as `R` says. -/
def Stmt.AtMember (R : Stmt → Stmt → Prop) (stmts stmts' : List Stmt) : Prop :=
  ∃ before s s' behind, stmts = before ++ s :: behind ∧ stmts' = before ++ s' :: behind ∧ R s s'

/-- The lists of cases differ in the list of statements behind one label, and
there as `R` says. -/
def Stmt.AtCase (R : List Stmt → List Stmt → Prop) (cases cases' : List Case) : Prop :=
  ∃ before id label body body' behind, cases = before ++ .mk id label body :: behind ∧
    cases' = before ++ .mk id label body' :: behind ∧ R body body'

/-- The change of the statement with a given identifier. -/
def Stmt.ChangeOf (target : NodeId) (change : Stmt → Stmt) (s s' : Stmt) : Prop :=
  s.id = target ∧ s' = change s

private theorem Stmt.inside_of_changedOr {s s' : Stmt} {target : NodeId} {change : Stmt → Stmt}
    {inside : Option Stmt} (found : s.changedOr target change inside = some s')
    (deeper : inside = some s' → Inside (ChangeOf target change) s s') :
    Inside (ChangeOf target change) s s' := by
  unfold changedOr at found
  split at found
  · exact .here ⟨beq_iff_eq.mp ‹_›, (Option.some.inj found).symm⟩
  · exact deeper found

mutual

/-- A search for a statement that finds it changes the tree there and nowhere
else. -/
theorem Stmt.inside_of_modify? {target : NodeId} {change : Stmt → Stmt} {s s' : Stmt}
    (found : s.modify? target change = some s') : Inside (ChangeOf target change) s s' := by
  cases s <;> simp only [modify?] at found <;>
    refine inside_of_changedOr found fun inner => ?_
  case block =>
    obtain ⟨_, deeper, rfl⟩ := exists_of_map_eq_some inner
    obtain ⟨_, _, _, _, rfl, rfl, inside⟩ := inside_of_modifyList? deeper
    exact .block inside
  case branch =>
    rcases either_of_orElse_eq_some inner with inner | inner <;>
      obtain ⟨_, deeper, rfl⟩ := exists_of_map_eq_some inner
    · exact .branchTrue (inside_of_modify? deeper)
    · obtain ⟨_, _, rfl, rfl, inside⟩ := inside_of_modifyOption? deeper
      exact .branchFalse inside
  case forLoop =>
    rcases either_of_orElse_eq_some inner with inner | inner <;>
      obtain ⟨_, deeper, rfl⟩ := exists_of_map_eq_some inner
    · obtain ⟨_, _, rfl, rfl, inside⟩ := inside_of_modifyOption? deeper
      exact .forInit inside
    · exact .forBody (inside_of_modify? deeper)
  case whileLoop =>
    obtain ⟨_, deeper, rfl⟩ := exists_of_map_eq_some inner
    exact .whileBody (inside_of_modify? deeper)
  case switch =>
    obtain ⟨_, deeper, rfl⟩ := exists_of_map_eq_some inner
    obtain ⟨_, _, _, _, _, _, rfl, rfl, _, _, _, _, rfl, rfl, inside⟩ :=
      inside_of_modifyCases? deeper
    exact .case inside
  case decl | expr | ret | breakOut | continueLoop | discard | empty => cases inner

theorem Stmt.inside_of_modifyList? {target : NodeId} {change : Stmt → Stmt}
    {stmts stmts' : List Stmt} (found : Stmt.modifyList? target change stmts = some stmts') :
    AtMember (Inside (ChangeOf target change)) stmts stmts' := by
  match stmts with
  | [] => cases found
  | s :: rest =>
      rw [modifyList?] at found
      rcases either_of_orElse_eq_some found with found | found <;>
        obtain ⟨_, deeper, rfl⟩ := exists_of_map_eq_some found
      · exact ⟨[], s, _, rest, rfl, rfl, inside_of_modify? deeper⟩
      · obtain ⟨before, one, one', behind, rfl, rfl, inner⟩ := inside_of_modifyList? deeper
        exact ⟨s :: before, one, one', behind, rfl, rfl, inner⟩

theorem Stmt.inside_of_modifyOption? {target : NodeId} {change : Stmt → Stmt}
    {s? s?' : Option Stmt} (found : Stmt.modifyOption? target change s? = some s?') :
    ∃ s s', s? = some s ∧ s?' = some s' ∧ Inside (ChangeOf target change) s s' := by
  match s? with
  | none => cases found
  | some s =>
      obtain ⟨s', inner, rfl⟩ := exists_of_map_eq_some found
      exact ⟨s, s', rfl, rfl, inside_of_modify? inner⟩

theorem Stmt.inside_of_modifyCases? {target : NodeId} {change : Stmt → Stmt}
    {cases cases' : List Case} (found : Stmt.modifyCases? target change cases = some cases') :
    AtCase (AtMember (Inside (ChangeOf target change))) cases cases' := by
  match cases with
  | [] => cases found
  | .mk id label body :: rest =>
      rw [modifyCases?] at found
      rcases either_of_orElse_eq_some found with found | found <;>
        obtain ⟨_, deeper, rfl⟩ := exists_of_map_eq_some found
      · exact ⟨[], id, label, body, _, rest, rfl, rfl, inside_of_modifyList? deeper⟩
      · obtain ⟨before, id', label', body, body', behind, rfl, rfl, inner⟩ :=
          inside_of_modifyCases? deeper
        exact ⟨.mk id label _ :: before, id', label', body, body', behind, rfl, rfl, inner⟩

end

mutual

/-- A search for an expression of a statement that finds it changes the
statement there and nowhere else. -/
theorem Stmt.inside_of_modifyExpr? {target : NodeId} {change : Expr → Expr} {s s' : Stmt}
    (found : s.modifyExpr? target change = some s') :
    Inside (AtExpr (Expr.Inside (Expr.ChangeOf target change))) s s' := by
  cases s <;> simp only [modifyExpr?] at found
  case decl _ var =>
    obtain ⟨_, deeper, rfl⟩ := exists_of_map_eq_some found
    obtain ⟨_, inner, rfl⟩ := exists_of_map_eq_some deeper
    obtain ⟨varId, qualifier, ty, name, init⟩ := var
    obtain ⟨_, _, rfl, rfl, inside⟩ := Expr.inside_of_modifyOption? inner
    exact .here (.declInit inside)
  case expr =>
    obtain ⟨_, deeper, rfl⟩ := exists_of_map_eq_some found
    exact .here (.expr (Expr.inside_of_modify? deeper))
  case block =>
    obtain ⟨_, deeper, rfl⟩ := exists_of_map_eq_some found
    obtain ⟨_, _, _, _, rfl, rfl, inside⟩ := inside_of_modifyExprList? deeper
    exact .block inside
  case branch =>
    rcases either_of_orElse_eq_some found with found | found
    · obtain ⟨_, deeper, rfl⟩ := exists_of_map_eq_some found
      exact .here (.branchCond (Expr.inside_of_modify? deeper))
    · rcases either_of_orElse_eq_some found with found | found <;>
        obtain ⟨_, deeper, rfl⟩ := exists_of_map_eq_some found
      · exact .branchTrue (inside_of_modifyExpr? deeper)
      · obtain ⟨_, _, rfl, rfl, inside⟩ := inside_of_modifyExprOption? deeper
        exact .branchFalse inside
  case forLoop =>
    rcases either_of_orElse_eq_some found with found | found
    · obtain ⟨_, deeper, rfl⟩ := exists_of_map_eq_some found
      obtain ⟨_, _, rfl, rfl, inside⟩ := Expr.inside_of_modifyOption? deeper
      exact .here (.forCond inside)
    rcases either_of_orElse_eq_some found with found | found
    · obtain ⟨_, deeper, rfl⟩ := exists_of_map_eq_some found
      obtain ⟨_, _, rfl, rfl, inside⟩ := Expr.inside_of_modifyOption? deeper
      exact .here (.forStep inside)
    rcases either_of_orElse_eq_some found with found | found <;>
      obtain ⟨_, deeper, rfl⟩ := exists_of_map_eq_some found
    · obtain ⟨_, _, rfl, rfl, inside⟩ := inside_of_modifyExprOption? deeper
      exact .forInit inside
    · exact .forBody (inside_of_modifyExpr? deeper)
  case whileLoop =>
    rcases either_of_orElse_eq_some found with found | found <;>
      obtain ⟨_, deeper, rfl⟩ := exists_of_map_eq_some found
    · exact .here (.whileCond (Expr.inside_of_modify? deeper))
    · exact .whileBody (inside_of_modifyExpr? deeper)
  case switch =>
    rcases either_of_orElse_eq_some found with found | found <;>
      obtain ⟨_, deeper, rfl⟩ := exists_of_map_eq_some found
    · exact .here (.selector (Expr.inside_of_modify? deeper))
    · obtain ⟨_, _, _, _, _, _, rfl, rfl, _, _, _, _, rfl, rfl, inside⟩ :=
        inside_of_modifyExprCases? deeper
      exact .case inside
  case ret =>
    obtain ⟨_, deeper, rfl⟩ := exists_of_map_eq_some found
    obtain ⟨_, _, rfl, rfl, inside⟩ := Expr.inside_of_modifyOption? deeper
    exact .here (.retValue inside)
  case breakOut | continueLoop | discard | empty => cases found

theorem Stmt.inside_of_modifyExprList? {target : NodeId} {change : Expr → Expr}
    {stmts stmts' : List Stmt} (found : Stmt.modifyExprList? target change stmts = some stmts') :
    AtMember (Inside (AtExpr (Expr.Inside (Expr.ChangeOf target change)))) stmts stmts' := by
  match stmts with
  | [] => cases found
  | s :: rest =>
      rw [modifyExprList?] at found
      rcases either_of_orElse_eq_some found with found | found <;>
        obtain ⟨_, deeper, rfl⟩ := exists_of_map_eq_some found
      · exact ⟨[], s, _, rest, rfl, rfl, inside_of_modifyExpr? deeper⟩
      · obtain ⟨before, one, one', behind, rfl, rfl, inner⟩ := inside_of_modifyExprList? deeper
        exact ⟨s :: before, one, one', behind, rfl, rfl, inner⟩

theorem Stmt.inside_of_modifyExprOption? {target : NodeId} {change : Expr → Expr}
    {s? s?' : Option Stmt} (found : Stmt.modifyExprOption? target change s? = some s?') :
    ∃ s s', s? = some s ∧ s?' = some s' ∧
      Inside (AtExpr (Expr.Inside (Expr.ChangeOf target change))) s s' := by
  match s? with
  | none => cases found
  | some s =>
      obtain ⟨s', inner, rfl⟩ := exists_of_map_eq_some found
      exact ⟨s, s', rfl, rfl, inside_of_modifyExpr? inner⟩

theorem Stmt.inside_of_modifyExprCases? {target : NodeId} {change : Expr → Expr}
    {cases cases' : List Case}
    (found : Stmt.modifyExprCases? target change cases = some cases') :
    AtCase (AtMember (Inside (AtExpr (Expr.Inside (Expr.ChangeOf target change)))))
      cases cases' := by
  match cases with
  | [] => cases found
  | .mk id label body :: rest =>
      rw [modifyExprCases?] at found
      rcases either_of_orElse_eq_some found with found | found <;>
        obtain ⟨_, deeper, rfl⟩ := exists_of_map_eq_some found
      · exact ⟨[], id, label, body, _, rest, rfl, rfl, inside_of_modifyExprList? deeper⟩
      · obtain ⟨before, id', label', body, body', behind, rfl, rfl, inner⟩ :=
          inside_of_modifyExprCases? deeper
        exact ⟨.mk id label _ :: before, id', label', body, body', behind, rfl, rfl, inner⟩

end

/-! ## Lists of statements -/

/-- The first list holds a statement with the given identifier, and the second
one has the replacement in its place. -/
def Stmt.SpliceOf (target : NodeId) (replacement stmts stmts' : List Stmt) : Prop :=
  ∃ before s behind, stmts = before ++ s :: behind ∧ s.id = target ∧
    stmts' = before ++ (replacement ++ behind)

/-- One of two lists in a statement list takes the change: the list itself, or a
list within one of its members. -/
def Stmt.AtSomeList (R : List Stmt → List Stmt → Prop) (stmts stmts' : List Stmt) : Prop :=
  R stmts stmts' ∨ AtMember (Inside (AtList R)) stmts stmts'

theorem Stmt.spliceOf_of_spliceMember? {target : NodeId} {replacement stmts stmts' : List Stmt}
    (found : Stmt.spliceMember? target replacement stmts = some stmts') :
    SpliceOf target replacement stmts stmts' := by
  induction stmts generalizing stmts' with
  | nil => cases found
  | cons s rest inductionHypothesis =>
      rw [spliceMember?] at found
      split at found
      · exact ⟨[], s, rest, rfl, beq_iff_eq.mp ‹_›, (Option.some.inj found).symm⟩
      · obtain ⟨_, deeper, rfl⟩ := exists_of_map_eq_some found
        obtain ⟨before, one, behind, rfl, same, rfl⟩ := inductionHypothesis deeper
        exact ⟨s :: before, one, behind, rfl, same, rfl⟩

mutual

/-- A search for a list that holds a statement changes that list and nothing
else. -/
theorem Stmt.inside_of_splice? {target : NodeId} {replacement : List Stmt} {s s' : Stmt}
    (found : s.splice? target replacement = some s') :
    Inside (AtList (SpliceOf target replacement)) s s' := by
  cases s <;> simp only [splice?] at found
  case block =>
    obtain ⟨_, deeper, rfl⟩ := exists_of_map_eq_some found
    rcases either_of_orElse_eq_some deeper with here | deeper
    · exact .here (.block (spliceOf_of_spliceMember? here))
    · obtain ⟨_, _, _, _, rfl, rfl, inside⟩ := inside_of_spliceWithin? deeper
      exact .block inside
  case branch =>
    rcases either_of_orElse_eq_some found with found | found <;>
      obtain ⟨_, deeper, rfl⟩ := exists_of_map_eq_some found
    · exact .branchTrue (inside_of_splice? deeper)
    · obtain ⟨_, _, rfl, rfl, inside⟩ := inside_of_spliceOption? deeper
      exact .branchFalse inside
  case forLoop =>
    obtain ⟨_, deeper, rfl⟩ := exists_of_map_eq_some found
    exact .forBody (inside_of_splice? deeper)
  case whileLoop =>
    obtain ⟨_, deeper, rfl⟩ := exists_of_map_eq_some found
    exact .whileBody (inside_of_splice? deeper)
  case switch =>
    obtain ⟨_, deeper, rfl⟩ := exists_of_map_eq_some found
    obtain ⟨_, _, _, _, _, _, rfl, rfl, here | inside⟩ := inside_of_spliceCases? deeper
    · exact .here (.case here)
    · obtain ⟨_, _, _, _, rfl, rfl, inside⟩ := inside
      exact .case inside
  case decl | expr | ret | breakOut | continueLoop | discard | empty => cases found

theorem Stmt.inside_of_spliceWithin? {target : NodeId} {replacement stmts stmts' : List Stmt}
    (found : Stmt.spliceWithin? target replacement stmts = some stmts') :
    AtMember (Inside (AtList (SpliceOf target replacement))) stmts stmts' := by
  match stmts with
  | [] => cases found
  | s :: rest =>
      rw [spliceWithin?] at found
      rcases either_of_orElse_eq_some found with found | found <;>
        obtain ⟨_, deeper, rfl⟩ := exists_of_map_eq_some found
      · exact ⟨[], s, _, rest, rfl, rfl, inside_of_splice? deeper⟩
      · obtain ⟨before, one, one', behind, rfl, rfl, inner⟩ := inside_of_spliceWithin? deeper
        exact ⟨s :: before, one, one', behind, rfl, rfl, inner⟩

theorem Stmt.inside_of_spliceOption? {target : NodeId} {replacement : List Stmt}
    {s? s?' : Option Stmt} (found : Stmt.spliceOption? target replacement s? = some s?') :
    ∃ s s', s? = some s ∧ s?' = some s' ∧ Inside (AtList (SpliceOf target replacement)) s s' := by
  match s? with
  | none => cases found
  | some s =>
      obtain ⟨s', inner, rfl⟩ := exists_of_map_eq_some found
      exact ⟨s, s', rfl, rfl, inside_of_splice? inner⟩

theorem Stmt.inside_of_spliceCases? {target : NodeId} {replacement : List Stmt}
    {cases cases' : List Case} (found : Stmt.spliceCases? target replacement cases = some cases') :
    AtCase (AtSomeList (SpliceOf target replacement)) cases cases' := by
  match cases with
  | [] => cases found
  | .mk id label body :: rest =>
      rw [spliceCases?] at found
      rcases either_of_orElse_eq_some found with found | found <;>
        obtain ⟨_, deeper, rfl⟩ := exists_of_map_eq_some found
      · refine ⟨[], id, label, body, _, rest, rfl, rfl, ?_⟩
        rcases either_of_orElse_eq_some deeper with here | deeper
        · exact Or.inl (spliceOf_of_spliceMember? here)
        · exact Or.inr (inside_of_spliceWithin? deeper)
      · obtain ⟨before, id', label', body, body', behind, rfl, rfl, inner⟩ :=
          inside_of_spliceCases? deeper
        exact ⟨.mk id label _ :: before, id', label', body, body', behind, rfl, rfl, inner⟩

end

theorem Stmt.atSomeList_of_spliceList? {target : NodeId} {replacement stmts stmts' : List Stmt}
    (found : Stmt.spliceList? target replacement stmts = some stmts') :
    AtSomeList (SpliceOf target replacement) stmts stmts' := by
  rcases either_of_orElse_eq_some found with here | deeper
  · exact Or.inl (spliceOf_of_spliceMember? here)
  · exact Or.inr (inside_of_spliceWithin? deeper)

/-- The declarations are functions whose bodies are related by `R` and that
differ in nothing else. -/
inductive Decl.AtBody (R : List Stmt → List Stmt → Prop) : Decl → Decl → Prop where
  | function {f : Function} {stmts' : List Stmt} (changed : R f.body.stmts stmts') :
      AtBody R (.function f) (.function (f.withStmts stmts'))

/-- The declarations differ in one expression that stands in them, and there as
`R` says. -/
inductive Decl.AtExpr (R : Expr → Expr → Prop) : Decl → Decl → Prop where
  | globalInit {varId : NodeId} {qualifier : Option Qualifier} {ty : Ty} {name : String}
      {init init' : Expr} (changed : R init init') :
      AtExpr R (.global ⟨varId, qualifier, ty, name, some init⟩)
        (.global ⟨varId, qualifier, ty, name, some init'⟩)
  | body {decl decl' : Decl} (changed : AtBody (Stmt.AtMember (Stmt.Inside (Stmt.AtExpr R))) decl decl') :
      AtExpr R decl decl'

/-- The shaders differ in one declaration, and there as `R` says. -/
def Shader.AtDecl (R : Decl → Decl → Prop) (shader shader' : Shader) : Prop :=
  ∃ before decl decl' behind, shader.decls = before ++ decl :: behind ∧
    shader' = { shader with decls := before ++ decl' :: behind } ∧ R decl decl'

theorem Decl.atExpr_of_modifyExpr? {target : NodeId} {change : Expr → Expr} {decl decl' : Decl}
    (found : decl.modifyExpr? target change = some decl') :
    AtExpr (Expr.Inside (Expr.ChangeOf target change)) decl decl' := by
  cases decl with
  | precision | struct => cases found
  | global var =>
      obtain ⟨_, deeper, rfl⟩ := exists_of_map_eq_some found
      obtain ⟨_, inner, rfl⟩ := exists_of_map_eq_some deeper
      obtain ⟨varId, qualifier, ty, name, init⟩ := var
      obtain ⟨_, _, rfl, rfl, inside⟩ := Expr.inside_of_modifyOption? inner
      exact .globalInit inside
  | function f =>
      obtain ⟨_, deeper, rfl⟩ := exists_of_map_eq_some found
      exact .body (.function (Stmt.inside_of_modifyExprList? deeper))

theorem Decl.atBody_of_modifyBody? {change? : List Stmt → Option (List Stmt)}
    {decl decl' : Decl} (found : decl.modifyBody? change? = some decl') :
    AtBody (fun stmts stmts' => change? stmts = some stmts') decl decl' := by
  cases decl with
  | precision | struct | global => cases found
  | function f =>
      obtain ⟨_, deeper, rfl⟩ := exists_of_map_eq_some found
      exact .function deeper

theorem Decl.exists_of_modifyFirst? {change? : Decl → Option Decl} {decls decls' : List Decl}
    (found : Decl.modifyFirst? change? decls = some decls') :
    ∃ before decl decl' behind, decls = before ++ decl :: behind ∧
      decls' = before ++ decl' :: behind ∧ change? decl = some decl' ∧
      ∀ passed ∈ before, change? passed = none := by
  induction decls generalizing decls' with
  | nil => cases found
  | cons decl rest inductionHypothesis =>
      rw [modifyFirst?] at found
      cases changed : change? decl with
      | some decl' =>
          rw [changed] at found
          cases found
          exact ⟨[], decl, decl', rest, rfl, rfl, changed, fun _ listed => nomatch listed⟩
      | none =>
          rw [changed] at found
          obtain ⟨_, deeper, rfl⟩ := exists_of_map_eq_some found
          obtain ⟨before, one, one', behind, rfl, rfl, found, passed⟩ :=
            inductionHypothesis deeper
          exact ⟨decl :: before, one, one', behind, rfl, rfl, found,
            List.forall_mem_cons.mpr ⟨changed, passed⟩⟩

namespace Shader

theorem atDecl_of_modifyDecl? {change? : Decl → Option Decl} {shader shader' : Shader}
    (found : shader.modifyDecl? change? = some shader') :
    AtDecl (fun decl decl' => change? decl = some decl') shader shader' := by
  obtain ⟨_, deeper, rfl⟩ := exists_of_map_eq_some found
  obtain ⟨before, decl, decl', behind, split, rfl, changed, _⟩ :=
    Decl.exists_of_modifyFirst? deeper
  exact ⟨before, decl, decl', behind, split, rfl, changed⟩

theorem AtDecl.imp {R S : Decl → Decl → Prop} {shader shader' : Shader}
    (weaker : ∀ decl decl', R decl decl' → S decl decl') (differ : AtDecl R shader shader') :
    AtDecl S shader shader' := by
  obtain ⟨before, decl, decl', behind, split, rfl, changed⟩ := differ
  exact ⟨before, decl, decl', behind, split, rfl, weaker decl decl' changed⟩

theorem atExpr_of_modifyExpr? {target : NodeId} {change : Expr → Expr} {shader shader' : Shader}
    (found : shader.modifyExpr? target change = some shader') :
    AtDecl (Decl.AtExpr (Expr.Inside (Expr.ChangeOf target change))) shader shader' :=
  (atDecl_of_modifyDecl? found).imp fun _ _ => Decl.atExpr_of_modifyExpr?

theorem atBody_of_modifyStmt? {target : NodeId} {change : Stmt → Stmt} {shader shader' : Shader}
    (found : shader.modifyStmt? target change = some shader') :
    AtDecl (Decl.AtBody (Stmt.AtMember (Stmt.Inside (Stmt.ChangeOf target change))))
      shader shader' :=
  (atDecl_of_modifyDecl? found).imp fun _ _ changed => by
    obtain ⟨body⟩ := Decl.atBody_of_modifyBody? changed
    exact .function (Stmt.inside_of_modifyList? body)

theorem atBody_of_splice? {target : NodeId} {replacement : List Stmt} {shader shader' : Shader}
    (found : shader.splice? target replacement = some shader') :
    AtDecl (Decl.AtBody (Stmt.AtSomeList (Stmt.SpliceOf target replacement))) shader shader' :=
  (atDecl_of_modifyDecl? found).imp fun _ _ changed => by
    obtain ⟨body⟩ := Decl.atBody_of_modifyBody? changed
    exact .function (Stmt.atSomeList_of_spliceList? body)

end Shader
end Whittle
