import Whittle.Proofs.Scoping.Changed
import Whittle.Proofs.Scoping.Copies
import Whittle.Proofs.Typing.Substitution

namespace Whittle

open Reduction (Names substituted)

/-!
# Values of expressions

An expression without effects has a value as soon as its variables have values and it is
known what literals, operators and everything that may be called mean.  Nothing is assumed
about these meanings except that they give a value for all values of the operands.
-/

/-- What the parts of an expression mean.  A call is one of a builtin function, of a marker
or of a constructor, and a member is a field or a selection of components. -/
structure Semantics (V : Type) where
  int : Int → V
  float : Binary64 → V
  bool : Bool → V
  unary : UnaryOp → V → V
  binary : BinaryOp → V → V → V
  choice : V → V → V → V
  call : String → List V → V
  member : V → String → V
  index : V → V → V

namespace Semantics

variable {V : Type}

mutual

/-- The value of an expression, where `read` gives the values of variables.  What writes a
variable has none, and neither has a call of one of the functions of the shader. -/
def value? (semantics : Semantics V) (isFunction : String → Bool) (read : String → Option V) :
    Expr → Option V
  | .int _ value => some (semantics.int value)
  | .float _ value => some (semantics.float value)
  | .bool _ value => some (semantics.bool value)
  | .var _ name => read name
  | .unary _ op operand =>
      if op.writesOperand then none
      else (value? semantics isFunction read operand).map (semantics.unary op)
  | .binary _ op lhs rhs =>
      (value? semantics isFunction read lhs).bind fun left =>
        (value? semantics isFunction read rhs).map (semantics.binary op left)
  | .assign _ _ _ _ => none
  | .ternary _ cond whenTrue whenFalse =>
      (value? semantics isFunction read cond).bind fun chosen =>
        (value? semantics isFunction read whenTrue).bind fun first =>
          (value? semantics isFunction read whenFalse).map (semantics.choice chosen first)
  | .call _ callee args =>
      if isFunction callee then none
      else (values? semantics isFunction read args).map (semantics.call callee)
  | .member _ base field =>
      (value? semantics isFunction read base).map fun whole => semantics.member whole field
  | .index _ base position =>
      (value? semantics isFunction read base).bind fun whole =>
        (value? semantics isFunction read position).map (semantics.index whole)
  | .paren _ inner => value? semantics isFunction read inner

def values? (semantics : Semantics V) (isFunction : String → Bool) (read : String → Option V) :
    List Expr → Option (List V)
  | [] => some []
  | e :: rest =>
      (value? semantics isFunction read e).bind fun first =>
        (values? semantics isFunction read rest).map (first :: ·)

end

variable {semantics : Semantics V} {isFunction : String → Bool} {read read' : String → Option V}

theorem values?_eq_some_iff {es : List Expr} {values : List V} :
    semantics.values? isFunction read es = some values ↔
      es.map (semantics.value? isFunction read) = values.map some := by
  induction es generalizing values with
  | nil => cases values <;> simp [values?]
  | cons e rest inductionHypothesis =>
      simp only [values?, Option.bind_eq_some_iff, Option.map_eq_some_iff, inductionHypothesis]
      cases values with
      | nil => simp
      | cons value others => simp [List.map_cons, and_left_comm]

theorem values?_map_congr {change : Expr → Expr} {es : List Expr}
    (same : ∀ e ∈ es, semantics.value? isFunction read' (change e) = semantics.value? isFunction read e) :
    semantics.values? isFunction read' (es.map change) = semantics.values? isFunction read es := by
  induction es with
  | nil => rfl
  | cons e rest inductionHypothesis =>
      rw [List.map_cons, values?, values?, same e List.mem_cons_self,
        inductionHypothesis fun other listed => same other (List.mem_cons_of_mem _ listed)]

/-- A value is made of those of the operands. -/
theorem value?_mapChildren {change : Expr → Expr} {e : Expr} (noReference : e.varName? = none)
    (children : ∀ child ∈ e.children,
      semantics.value? isFunction read' (change child) = semantics.value? isFunction read child) :
    semantics.value? isFunction read' (e.mapChildren change) = semantics.value? isFunction read e := by
  cases e with
  | var id name => cases noReference
  | int | float | bool | assign => rfl
  | call id callee args =>
      have areValues := values?_map_congr children
      rw [Expr.children] at areValues
      simp only [Expr.mapChildren, value?, areValues]
  | _ =>
      simp only [Expr.children, List.forall_mem_cons] at children
      simp only [Expr.mapChildren, value?, children]

mutual

/-- A copy has the value of the original. -/
theorem value?_numbered (start : NodeId) (e : Expr) :
    semantics.value? isFunction read (e.numbered start) = semantics.value? isFunction read e := by
  cases e with
  | int | float | bool | var | assign => rfl
  | call id callee args => simp only [Expr.numbered, value?, values?_numberedList]
  | unary | binary | ternary | member | index | paren =>
      simp only [Expr.numbered, value?, value?_numbered]

theorem values?_numberedList (start : NodeId) (es : List Expr) :
    semantics.values? isFunction read (Expr.numberedList start es) =
      semantics.values? isFunction read es := by
  match es with
  | [] => rfl
  | e :: rest =>
      simp only [Expr.numberedList, values?, value?_numbered _ e, values?_numberedList _ rest]

end

/-- A substitution keeps the value if it does so for the references.  What is put in is not
searched again, so all references are replaced at the same time. -/
theorem value?_substituted {binding? : String → Option Expr} {e : Expr}
    (references : ∀ id name, .var id name ∈ e.subexprs →
      semantics.value? isFunction read' (substituted binding? (.var id name)) = read name) :
    semantics.value? isFunction read' (substituted binding? e) = semantics.value? isFunction read e := by
  induction e using Expr.children_induction with
  | step e inductionHypothesis =>
      cases isVar : e.varName? with
      | some name =>
          cases e with
          | var id other => exact references id other (Expr.self_mem_subexprs _)
          | _ => cases isVar
      | none =>
          rw [Reduction.substituted_eq_mapChildren isVar]
          refine value?_mapChildren isVar fun child isChild => ?_
          exact inductionHypothesis child isChild fun id name isPart => references id name
            (Expr.mem_subexprs_trans isPart (Expr.mem_subexprs_of_mem_children isChild))

end Semantics

def Shader.isFunction (shader : Shader) (callee : String) : Bool :=
  (shader.function? callee).isSome

namespace Semantics

variable {V : Type} {semantics : Semantics V} {read : String → Option V} {shader : Shader}

theorem exists_values? {isFunction : String → Bool} {es : List Expr}
    (each : ∀ e ∈ es, ∃ value, semantics.value? isFunction read e = some value) :
    ∃ values, semantics.values? isFunction read es = some values := by
  induction es with
  | nil => exact ⟨[], rfl⟩
  | cons e rest inductionHypothesis =>
      rcases each e List.mem_cons_self with ⟨value, isValue⟩
      rcases inductionHypothesis fun other listed => each other (List.mem_cons_of_mem _ listed) with
        ⟨values, areValues⟩
      exact ⟨value :: values, by rw [values?, isValue, areValues]; rfl⟩

/-- An expression without effects has a value if its variables have values. -/
theorem exists_value? {e : Expr} (isPure : Reduction.isPure shader e = true)
    (visible : ∀ id name, .var id name ∈ e.subexprs → (read name).isSome) :
    ∃ value, semantics.value? shader.isFunction read e = some value := by
  induction e using Expr.children_induction with
  | step e inductionHypothesis =>
      have parts := List.all_eq_true.mp isPure
      have children : ∀ child ∈ e.children,
          ∃ value, semantics.value? shader.isFunction read child = some value := by
        intro child isChild
        have within := Expr.mem_subexprs_of_mem_children isChild
        exact inductionHypothesis child isChild
          (List.all_eq_true.mpr fun part isPart => parts part (Expr.mem_subexprs_trans isPart within))
          fun id name isPart => visible id name (Expr.mem_subexprs_trans isPart within)
      have own := parts e e.self_mem_subexprs
      rw [Reduction.isEffectFree, Bool.and_eq_true, Option.isNone_iff_eq_none] at own
      cases e with
      | int | float | bool => exact ⟨_, rfl⟩
      | var id name => exact Option.isSome_iff_exists.mp (visible id name (Expr.self_mem_subexprs _))
      | assign => cases own.1
      | unary id op operand =>
          rcases children operand List.mem_cons_self with ⟨value, isValue⟩
          have reads : op.writesOperand = false := by
            have writesNone := own.1
            rw [Expr.written?] at writesNone
            split at writesNone
            · cases writesNone
            · rename_i reads
              exact eq_false_of_ne_true reads
          exact ⟨semantics.unary op value, by simp [value?, reads, isValue]⟩
      | call id callee args =>
          rcases exists_values? children with ⟨values, areValues⟩
          rw [Expr.children] at areValues
          have foreign : shader.isFunction callee = false := by
            simpa [Expr.call?, Shader.isFunction] using own.2
          exact ⟨semantics.call callee values, by simp [value?, foreign, areValues]⟩
      | _ =>
          simp only [Expr.children, List.forall_mem_cons] at children
          simp only [value?]
          grind

end Semantics

namespace Scoping

/-- What a value is kept under: each variable that is declared has a place of its own. -/
inductive Key where
  | predefined (name : String)
  | node (id : NodeId)
deriving DecidableEq

/-- The values of all variables. -/
abbrev Store (V : Type) := Key → V

/-- What the value of a declared variable is kept under. -/
def Declared.key : Declared → Key
  | .predefined name _ _ => .predefined name
  | .ofVar var => .node var.id
  | .ofParam param => .node param.id

theorem Declared.key_mapExprs (change : Expr → Expr) (declared : Declared) :
    (declared.mapExprs change).key = declared.key := by
  cases declared <;> rfl

variable {V : Type}

/-- The store in which parameters have the values of arguments. -/
def Store.passing (store : Store V) (params : List Param) (values : List V) : Store V := fun key =>
  (((params.map fun param => Key.node param.id).zip values).lookup key).getD (store key)

/-- The value that an expression has in a store, where its names select what they do in the
scopes. -/
def evaluate? (semantics : Semantics V) (shader : Shader) (store : Store V) (scopes : List Scope)
    (e : Expr) : Option V :=
  semantics.value? shader.isFunction
    (fun name => (select? scopes name).map fun declared => store declared.key) e

/-- Of a list of pairs, each key finds the value beside it if no key is repeated. -/
theorem lookup_eq_some_of_mem {α β : Type} [BEq α] [LawfulBEq α] {pairs : List (α × β)}
    (apart : (pairs.map Prod.fst).Nodup) {key : α} {value : β} (listed : (key, value) ∈ pairs) :
    pairs.lookup key = some value := by
  induction pairs with
  | nil => cases listed
  | cons pair rest inductionHypothesis =>
      rw [List.map_cons, List.nodup_cons] at apart
      rcases List.mem_cons.mp listed with rfl | inRest
      · exact List.lookup_cons_self
      · have differ : (key == pair.1) = false :=
          beq_eq_false_iff_ne.mpr fun same => apart.1 (same ▸ List.mem_map_of_mem inRest)
        rw [List.lookup_cons, differ]
        exact inductionHypothesis apart.2 inRest

theorem map_fst_zip_sublist {α β : Type} (first : List α) (second : List β) :
    ((first.zip second).map Prod.fst).Sublist first := by
  induction first generalizing second with
  | nil => exact .slnil
  | cons head rest inductionHypothesis =>
      cases second with
      | nil => exact List.nil_sublist _
      | cons _ others => exact (inductionHypothesis others).cons_cons head

variable {store : Store V} {params : List Param} {values : List V}

theorem Store.passing_param (apart : (params.map Param.id).Nodup) {position : Nat} {param : Param}
    {value : V} (isParam : params[position]? = some param) (isValue : values[position]? = some value) :
    store.passing params values (.node param.id) = value := by
  have keys : (params.map fun param => Key.node param.id) = (params.map Param.id).map Key.node :=
    List.map_map.symm
  have distinct : (params.map fun param => Key.node param.id).Nodup :=
    keys ▸ apart.map fun _ _ same => Key.node.inj same
  have listed : (Key.node param.id, value) ∈ (params.map fun param => Key.node param.id).zip values :=
    List.mem_of_getElem? (i := position) (by
      rw [List.getElem?_zip_eq_some, List.getElem?_map, isParam]
      exact ⟨rfl, isValue⟩)
  rw [Store.passing, lookup_eq_some_of_mem (distinct.sublist (map_fst_zip_sublist _ _)) listed]
  rfl

theorem Store.passing_other {key : Key} (isOther : ∀ param ∈ params, key ≠ .node param.id) :
    store.passing params values key = store key := by
  have notFound : ((params.map fun param => Key.node param.id).zip values).lookup key = none := by
    refine List.lookup_eq_none_iff.mpr fun pair listed => ?_
    rcases List.mem_map.mp (List.of_mem_zip listed).1 with ⟨param, isParam, isKey⟩
    exact bne_iff_ne.mpr fun same => isOther param isParam (same.trans isKey.symm)
  rw [Store.passing, notFound]
  rfl

theorem isFunction_of_mapExprs {change : Expr → Expr} {shader edited : Shader}
    (isEdited : edited.decls = shader.decls.map (Decl.mapExprs change)) :
    edited.isFunction = shader.isFunction := by
  have heads : ∀ decl : Decl, (decl.mapExprs change).function?.map Function.name =
      decl.function?.map Function.name := fun decl => by cases decl <;> rfl
  have names : edited.functions.map Function.name = shader.functions.map Function.name := by
    simp only [Shader.functions, isEdited, List.filterMap_map, List.map_filterMap, Function.comp_def, heads]
  funext callee
  rw [Bool.eq_iff_iff]
  simp only [Shader.isFunction, Shader.function?, List.find?_isSome, beq_iff_eq]
  have listed := congrArg (callee ∈ ·) names
  simpa only [List.mem_map, eq_iff_iff] using listed

/-- After a change of expressions an expression has the value that it had in the scopes
before. -/
theorem evaluate?_of_mapExprs {change : Expr → Expr} {shader edited : Shader}
    (isEdited : edited.decls = shader.decls.map (Decl.mapExprs change)) (semantics : Semantics V)
    (store : Store V) (scopes : List Scope) (e : Expr) :
    evaluate? semantics edited store (changedScopes change scopes) e =
      evaluate? semantics shader store scopes e := by
  simp only [evaluate?, isFunction_of_mapExprs isEdited, select?_changedScopes, Option.map_map,
    Function.comp_def, Declared.key_mapExprs]

end Scoping
end Whittle
