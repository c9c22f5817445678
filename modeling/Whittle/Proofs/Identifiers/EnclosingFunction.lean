import Whittle.Proofs.Identifiers.NodeIds
import Whittle.Proofs.Identifiers.Searches

namespace Whittle

/-!
# The function around a node

A search for the function around a node looks at the body of a function, at the statements in it
and at the expressions in these.  A statement may carry further identifiers next to its own: that
of the list in a block, of a declared variable, and of the cases of a switch.  The search does not
look at those, so of the nodes in a body it misses exactly these three sorts.
-/

/-- The identifiers that a statement carries next to its own and those of its parts: of the list
in a block, of a declared variable, and of the cases of a switch. -/
def Stmt.innerIds : Stmt → List NodeId
  | .decl _ var => [var.id]
  | .block _ scope _ => [scope]
  | .switch _ _ cases => cases.map Case.id
  | _ => []

namespace Function

def bodyIds (f : Function) : List NodeId :=
  f.body.id :: Stmt.idsOfList f.body.stmts

/-- The identifiers of lists, variables and cases in the body of a function. -/
def innerIds (f : Function) : List NodeId :=
  f.stmts.flatMap Stmt.innerIds

end Function

theorem Expr.flatMap_ids_toList (e? : Option Expr) :
    e?.toList.flatMap Expr.ids = Expr.idsOfOption e? := by
  cases e? with
  | none => rfl
  | some e => exact List.append_nil e.ids

mutual

/-- Each identifier of a statement is that of a statement, an inner one, or that of an
expression. -/
theorem Stmt.count_ids (target : NodeId) (s : Stmt) :
    s.ids.count target = (s.substmts.map id).count target +
      (s.substmts.flatMap innerIds).count target + (s.roots.flatMap Expr.ids).count target := by
  cases s with
  | block _ scope stmts =>
      have inside := count_idsOfList target stmts
      simp only [ids, substmts, roots, List.map_cons, List.flatMap_cons, innerIds, id,
        List.count_cons, List.count_append, List.count_nil]
      omega
  | branch _ cond whenTrue whenFalse =>
      have isTrue := count_ids target whenTrue
      have isFalse := count_idsOfOption target whenFalse
      simp only [ids, substmts, roots, List.map_cons, List.map_append, List.flatMap_cons,
        List.flatMap_append, innerIds, id, List.count_cons, List.count_append, List.count_nil]
      omega
  | forLoop _ init cond step body =>
      have isInit := count_idsOfOption target init
      have isBody := count_ids target body
      simp only [ids, substmts, roots, List.map_cons, List.map_append, List.flatMap_cons,
        List.flatMap_append, innerIds, id, List.count_cons, List.count_append, List.count_nil,
        Expr.flatMap_ids_toList]
      omega
  | whileLoop _ cond body =>
      have isBody := count_ids target body
      simp only [ids, substmts, roots, List.map_cons, List.flatMap_cons, innerIds, id,
        List.count_cons, List.count_append, List.count_nil]
      omega
  | switch _ selector cases =>
      have inside := count_idsOfCases target cases
      simp only [ids, substmts, roots, List.map_cons, List.flatMap_cons, innerIds, id,
        List.count_cons, List.count_append]
      omega
  | decl _ var =>
      simp only [ids, VarDecl.ids, substmts, roots, List.map_cons, List.map_nil, List.flatMap_cons,
        List.flatMap_nil, innerIds, id, List.count_cons, List.count_append, List.count_nil,
        Expr.flatMap_ids_toList]
      omega
  | expr _ e =>
      simp only [ids, substmts, roots, List.map_cons, List.map_nil, List.flatMap_cons,
        List.flatMap_nil, innerIds, id, List.count_cons, List.count_append, List.count_nil]
      omega
  | ret _ value =>
      simp only [ids, substmts, roots, List.map_cons, List.map_nil, List.flatMap_cons,
        List.flatMap_nil, innerIds, id, List.count_cons, List.count_append, List.count_nil,
        Expr.flatMap_ids_toList]
      omega
  | breakOut | continueLoop | discard | empty => rfl

theorem Stmt.count_idsOfList (target : NodeId) (stmts : List Stmt) :
    (idsOfList stmts).count target = ((substmtsOfList stmts).map id).count target +
      ((substmtsOfList stmts).flatMap innerIds).count target +
      ((rootsOfList stmts).flatMap Expr.ids).count target := by
  match stmts with
  | [] => rfl
  | s :: rest =>
      have first := count_ids target s
      have others := count_idsOfList target rest
      simp only [idsOfList, substmtsOfList, rootsOfList, List.map_append, List.flatMap_append,
        List.count_append]
      omega

theorem Stmt.count_idsOfOption (target : NodeId) (s? : Option Stmt) :
    (idsOfOption s?).count target = ((substmtsOfOption s?).map id).count target +
      ((substmtsOfOption s?).flatMap innerIds).count target +
      ((rootsOfOption s?).flatMap Expr.ids).count target := by
  match s? with
  | none => rfl
  | some s => exact count_ids target s

/-- The identifiers of the cases themselves are inner ones of the switch. -/
theorem Stmt.count_idsOfCases (target : NodeId) (cases : List Case) :
    (idsOfCases cases).count target = ((substmtsOfCases cases).map id).count target +
      ((cases.map Case.id).count target +
        ((substmtsOfCases cases).flatMap innerIds).count target) +
      ((rootsOfCases cases).flatMap Expr.ids).count target := by
  match cases with
  | [] => rfl
  | .mk _ _ body :: rest =>
      have first := count_idsOfList target body
      have others := count_idsOfCases target rest
      simp only [idsOfCases, substmtsOfCases, rootsOfCases, List.map_append, List.flatMap_append,
        List.map_cons, Case.id, List.count_cons, List.count_append]
      omega

end

namespace Function

/-- The identifiers that the search compares: of the body, of the statements, and of the
expressions. -/
def comparedIds (f : Function) : List NodeId :=
  f.body.id :: (f.stmts.map Stmt.id ++ f.exprs.map Expr.id)

theorem perm_bodyIds (f : Function) : f.bodyIds.Perm (f.comparedIds ++ f.innerIds) := by
  refine List.perm_iff_count.mpr fun target => ?_
  have inside := Stmt.count_idsOfList target f.body.stmts
  rw [Stmt.substmtsOfList_eq_flatMap, Stmt.rootsOfList_eq_flatMap] at inside
  rw [bodyIds, comparedIds, innerIds, exprs, Expr.flatMap_map_id_subexprs, roots, stmts]
  simp only [List.cons_append, List.count_cons, List.count_append, inside]
  omega

theorem mem_bodyIds_iff {f : Function} {target : NodeId} :
    target ∈ f.bodyIds ↔ target ∈ f.comparedIds ∨ target ∈ f.innerIds := by
  rw [f.perm_bodyIds.mem_iff, List.mem_append]

theorem bodyIds_sublist (f : Function) : f.bodyIds.Sublist (Decl.function f).ids :=
  (List.sublist_append_right _ _).cons _

end Function

namespace Shader

variable {shader : Shader} {target : NodeId}

/-- The search takes the first function that has the identifier where it compares. -/
theorem enclosingFunction?_eq_find? :
    shader.enclosingFunction? target =
      shader.functions.find? fun f => f.comparedIds.contains target := by
  have compares : ∀ f : Function, (f.body.id == target || (f.exprs.any fun e => e.id == target) ||
      (f.stmts.any fun s => s.id == target)) = f.comparedIds.contains target := by
    intro f
    rw [Bool.eq_iff_iff, List.contains_iff_mem, Function.comparedIds]
    simp only [Bool.or_eq_true, beq_iff_eq, List.any_eq_true, List.mem_cons, List.mem_append,
      List.mem_map, eq_comm (a := target)]
    rw [or_assoc, or_comm (a := ∃ e ∈ f.exprs, e.id = target)]
  rw [enclosingFunction?]
  simp only [compares]

theorem nodup_bodyIds (distinct : shader.ids.Nodup) {f : Function}
    (listed : f ∈ shader.functions) : f.bodyIds.Nodup :=
  ((List.nodup_flatMap.mp distinct).1 _ (mem_functions_iff.mp listed)).sublist f.bodyIds_sublist

/-- No node stands in two functions. -/
theorem function_eq_of_mem_bodyIds (distinct : shader.ids.Nodup) {f g : Function}
    (listed : f ∈ shader.functions) (listed' : g ∈ shader.functions)
    (holds : target ∈ f.bodyIds) (holds' : target ∈ g.bodyIds) : g = f := by
  have same := eq_of_mem_flatMap distinct (mem_functions_iff.mp listed')
    (mem_functions_iff.mp listed) (g.bodyIds_sublist.subset holds') (f.bodyIds_sublist.subset holds)
  exact Decl.function.inj same

/-- Where no identifier is repeated, the search finds the function around every node in a body,
except around the list of a nested block, a declared variable and a case of a switch.  For those
and for what is in no body it finds none. -/
theorem enclosingFunction?_of_nodup (distinct : shader.ids.Nodup) :
    (∀ f ∈ shader.functions, ∀ id ∈ f.bodyIds, id ∉ f.innerIds →
        shader.enclosingFunction? id = some f) ∧
      (∀ f ∈ shader.functions, ∀ id ∈ f.innerIds,
        id ∈ f.bodyIds ∧ shader.enclosingFunction? id = none) ∧
      ∀ id, (∀ f ∈ shader.functions, id ∉ f.bodyIds) → shader.enclosingFunction? id = none := by
  have found : ∀ {id f}, shader.enclosingFunction? id = some f →
      f ∈ shader.functions ∧ id ∈ f.comparedIds := by
    intro id f isFound
    rw [enclosingFunction?_eq_find?] at isFound
    have compared : f.comparedIds.contains id = true :=
      List.find?_some (p := fun f : Function => f.comparedIds.contains id) isFound
    exact ⟨List.mem_of_find?_eq_some isFound, List.contains_iff_mem.mp compared⟩
  refine ⟨fun f listed id inBody notInner => ?_, fun f listed id isInner => ?_,
    fun id inNone => ?_⟩
  · have compared := (Function.mem_bodyIds_iff.mp inBody).resolve_right notInner
    have isFound : (shader.enclosingFunction? id).isSome := by
      rw [enclosingFunction?_eq_find?, List.find?_isSome]
      exact ⟨f, listed, List.contains_iff_mem.mpr compared⟩
    rcases Option.isSome_iff_exists.mp isFound with ⟨g, isFound⟩
    rw [isFound, function_eq_of_mem_bodyIds distinct listed (found isFound).1 inBody
      (Function.mem_bodyIds_iff.mpr (.inl (found isFound).2))]
  · have inBody := Function.mem_bodyIds_iff.mpr (.inr isInner)
    refine ⟨inBody, Option.eq_none_iff_forall_ne_some.mpr fun g isFound => ?_⟩
    have compared := (found isFound).2
    -- The identifier would stand in one body twice.
    cases function_eq_of_mem_bodyIds distinct listed (found isFound).1 inBody
      (Function.mem_bodyIds_iff.mpr (.inl compared))
    have once := f.perm_bodyIds.nodup_iff.mp (nodup_bodyIds distinct listed)
    exact (List.nodup_append'.mp once).2.2 compared isInner
  · refine Option.eq_none_iff_forall_ne_some.mpr fun g isFound => ?_
    exact inNone g (found isFound).1 (Function.mem_bodyIds_iff.mpr (.inl (found isFound).2))

/-- A function that declares a variable. -/
def declaringFunction : Function :=
  ⟨0, .void, "main", [], ⟨1, [.decl 2 ⟨3, none, .int, "x", some (.int 4 1)⟩]⟩⟩

/-- The shader of this function alone. -/
def declaringShader : Shader :=
  ⟨.essl100, [.function declaringFunction], 5⟩

/-- The initialiser stands in the function, and the function does not stand in itself. -/
theorem enclosingFunction?_initialiser :
    declaringShader.ids.Nodup ∧
      declaringShader.enclosingFunction? 4 = some declaringFunction ∧
      declaringShader.enclosingFunction? 0 = none := by
  have distinct : declaringShader.ids.Nodup := by decide
  have searches := enclosingFunction?_of_nodup distinct
  refine ⟨distinct, searches.1 declaringFunction List.mem_cons_self 4 (by decide) (by decide),
    searches.2.2 0 fun f listed => ?_⟩
  rw [List.mem_singleton.mp listed]
  decide

/-- The variable stands in the function, but the search does not find the function around it. -/
theorem enclosingFunction?_variable :
    declaringShader.ids.Nodup ∧ declaringFunction ∈ declaringShader.functions ∧
      3 ∈ declaringFunction.bodyIds ∧ declaringShader.enclosingFunction? 3 = none :=
  ⟨by decide, List.mem_cons_self, by decide, rfl⟩

end Shader
end Whittle
