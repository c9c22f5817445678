import Whittle.Proofs.Typing.Calls
import Whittle.Proofs.Typing.Congruence
import Whittle.Reduction.Substitution

namespace Whittle

open Check (Context)

/-!
# Types after a substitution

What an expression refers to is replaced by expressions of the same types, and the whole
moves to a place further down.  There more structs and functions are known, but under
names of their own, so members and calls have the types that they had.
-/

namespace Reduction

variable {binding? : String → Option Expr}

theorem substitutedList_eq_map (es : List Expr) :
    substitutedList binding? es = es.map (substituted binding?) := by
  induction es with
  | nil => rfl
  | cons e rest inductionHypothesis =>
      exact congrArg (substituted binding? e :: ·) inductionHypothesis

/-- Whatever is no reference changes in its operands alone. -/
theorem substituted_eq_mapChildren {e : Expr} (noReference : e.varName? = none) :
    substituted binding? e = e.mapChildren (substituted binding?) := by
  cases e with
  | var id name => cases noReference
  | call id callee args => exact congrArg (Expr.call id callee) (substitutedList_eq_map args)
  | _ => rfl

theorem getElem?_parenthesizedList (shader : Shader) (es : List Expr) (position : Nat) :
    ∃ id, (parenthesizedList shader es).1[position]? = es[position]?.map (Expr.paren id) := by
  induction es generalizing shader position with
  | nil => exact ⟨shader.nextId, rfl⟩
  | cons e rest inductionHypothesis =>
      cases position with
      | zero => exact ⟨shader.nextId, rfl⟩
      | succ position => exact inductionHypothesis _ position

end Reduction

namespace Check.Context

variable {ctx ctx' : Context}

/-- A substitution in an expression that writes nothing keeps the type if it does so for
the references, where more structs and functions are known. -/
theorem typeOf_substituted {binding? : String → Option Expr} {e : Expr}
    (structs : ∀ name decl, ctx.struct? name = some decl → ctx'.struct? name = some decl)
    (calls : ∀ callee args ty, ctx.call callee args = .ok ty → ctx'.call callee args = .ok ty)
    (typed : (ctx.typeOf e).isSome) (writesNone : ∀ part ∈ e.subexprs, part.written? = none)
    (references : ∀ id name, .var id name ∈ e.subexprs →
      ctx'.typeOf (Reduction.substituted binding? (.var id name)) = ctx.typeOf (.var id name)) :
    ctx'.typeOf (Reduction.substituted binding? e) = ctx.typeOf e := by
  induction e using Expr.children_induction with
  | step e inductionHypothesis =>
      cases isVar : e.varName? with
      | some name =>
          cases e with
          | var id other => exact references id other (Expr.self_mem_subexprs _)
          | _ => cases isVar
      | none =>
          rcases Option.isSome_iff_exists.mp typed with ⟨ty, isTy⟩
          have children : ∀ child ∈ e.children,
              ctx'.typeOf (Reduction.substituted binding? child) = ctx.typeOf child := by
            intro child isChild
            have within := Expr.mem_subexprs_of_mem_children isChild
            exact inductionHypothesis child isChild (isSome_of_mem_children typed isChild)
              (fun part isPart => writesNone part (Expr.mem_subexprs_trans isPart within))
              fun id name isPart => references id name (Expr.mem_subexprs_trans isPart within)
          rw [Reduction.substituted_eq_mapChildren isVar]
          refine typeOf_mapChildren ?_ ?_ ?_ children ?_
          · intro name isName
            rw [isVar] at isName
            cases isName
          · rintro id callee args tys rfl areTys
            rcases typeOf_call_eq_some_iff.mp isTy with ⟨tys', areTys', isCall⟩
            cases areTys.symm.trans areTys'
            rw [isCall, calls callee tys ty isCall]
          · rintro id base field baseTy rfl isBase
            rcases typeOf_member_eq_some_iff.mp isTy with ⟨baseTy', isBase', isMember⟩
            cases isBase.symm.trans isBase'
            rw [isMember, member_eq_ok_of_structs structs isMember]
          · intro operand isWritten
            rw [writesNone e e.self_mem_subexprs] at isWritten
            cases isWritten

end Check.Context

namespace Shader

variable {shader : Shader} {version : Version} {types : TypeTable} {ctx ctx' : Context}
  (checked : shader.check version = .ok types)
include checked

/-- A context that knows none but structs of the shader finds each of those that it knows. -/
theorem struct?_eq_some_iff (within : ctx.structs ⊆ shader.structs) {name : String}
    {decl : StructDecl} :
    ctx.struct? name = some decl ↔ decl ∈ ctx.structs ∧ decl.name = name := by
  constructor
  · intro isStruct
    have named := List.find?_some isStruct
    exact ⟨List.mem_of_find?_eq_some isStruct, beq_iff_eq.mp named⟩
  · rintro ⟨known, rfl⟩
    have isSome : (ctx.struct? decl.name).isSome :=
      List.find?_isSome.mpr ⟨decl, known, beq_self_eq_true _⟩
    rcases Option.isSome_iff_exists.mp isSome with ⟨other, isOther⟩
    have named := List.find?_some isOther
    have same := Decl.eq_of_topName?_eq (nodup_topNames checked)
      (mem_structs_iff.mp (within (List.mem_of_find?_eq_some isOther))) (mem_structs_iff.mp (within known))
      (congrArg some (beq_iff_eq.mp named)) rfl
    rw [isOther, Decl.struct.inj same]

theorem function?_eq_some_iff (within : ctx.functions ⊆ shader.functions) {name : String}
    {f : Function} : ctx.function? name = some f ↔ f ∈ ctx.functions ∧ f.name = name := by
  constructor
  · intro isFunction
    have named := List.find?_some isFunction
    exact ⟨List.mem_of_find?_eq_some isFunction, beq_iff_eq.mp named⟩
  · rintro ⟨known, rfl⟩
    have isSome : (ctx.function? f.name).isSome :=
      List.find?_isSome.mpr ⟨f, known, beq_self_eq_true _⟩
    rcases Option.isSome_iff_exists.mp isSome with ⟨other, isOther⟩
    have named := List.find?_some isOther
    have same := Decl.eq_of_topName?_eq (nodup_topNames checked)
      (mem_functions_iff.mp (within (List.mem_of_find?_eq_some isOther)))
      (mem_functions_iff.mp (within known)) (congrArg some (beq_iff_eq.mp named)) rfl
    rw [isOther, Decl.function.inj same]

variable (structsWithin : ctx'.structs ⊆ shader.structs) (moreStructs : ctx.structs ⊆ ctx'.structs)
include structsWithin moreStructs

theorem struct?_eq_some_of_subset {name : String} {decl : StructDecl}
    (isStruct : ctx.struct? name = some decl) : ctx'.struct? name = some decl := by
  have known := (struct?_eq_some_iff checked (List.Subset.trans moreStructs structsWithin)).mp isStruct
  exact (struct?_eq_some_iff checked structsWithin).mpr ⟨moreStructs known.1, known.2⟩

variable (functionsWithin : ctx'.functions ⊆ shader.functions)
  (moreFunctions : ctx.functions ⊆ ctx'.functions)
include functionsWithin moreFunctions

/-- Where more is known, a call means what it meant, as no struct and no function is named
like something that every shader has. -/
theorem call_eq_ok_of_subset (functions : ∀ f ∈ shader.functions, IsUnclaimed f.name)
    (structs : ∀ decl ∈ shader.structs, IsUnclaimed decl.name) {callee : String} {args : List Ty}
    {ty : Ty} (isTy : ctx.call callee args = .ok ty) : ctx'.call callee args = .ok ty := by
  have findsStruct := @struct?_eq_some_iff _ _ _ _ checked structsWithin
  have findsFunction := @function?_eq_some_iff _ _ _ _ checked functionsWithin
  by_cases unclaimed : IsUnclaimed callee
  · rcases Context.exists_of_call_eq_ok (unclaimed.callsDeclared _ _) isTy with
      ⟨decl, known, rfl, rfl, rfl⟩ | ⟨f, known, rfl, rfl, rfl⟩
    · have isStruct := findsStruct.mpr ⟨moreStructs known, rfl⟩
      rw [Context.call, unclaimed.1, isStruct]
      exact Context.constructStruct_eq_ok_iff.mpr ⟨rfl, rfl⟩
    · have known := moreFunctions known
      have noStruct : ctx'.struct? f.name = none := by
        refine Option.eq_none_iff_forall_ne_some.mpr fun decl isStruct => ?_
        have known' := findsStruct.mp isStruct
        cases Decl.eq_of_topName?_eq (nodup_topNames checked)
          (mem_structs_iff.mp (structsWithin known'.1)) (mem_functions_iff.mp (functionsWithin known))
          (congrArg some known'.2) rfl
      rw [Context.call, unclaimed.1, noStruct, unclaimed.2.1, findsFunction.mpr ⟨known, rfl⟩]
      exact Context.callFunction_eq_ok_iff.mpr ⟨rfl, rfl⟩
  · -- No struct and no function has the name of the callee, neither here nor there.
    have noStruct : ∀ {other : Context}, other.structs ⊆ shader.structs →
        other.struct? callee = none := fun within =>
      Option.eq_none_iff_forall_ne_some.mpr fun decl isStruct => by
        have known := (struct?_eq_some_iff checked within).mp isStruct
        exact unclaimed (known.2 ▸ structs decl (within known.1))
    have noFunction : ∀ {other : Context}, other.functions ⊆ shader.functions →
        other.function? callee = none := fun within =>
      Option.eq_none_iff_forall_ne_some.mpr fun f isFunction => by
        have known := (function?_eq_some_iff checked within).mp isFunction
        exact unclaimed (known.2 ▸ functions f (within known.1))
    rw [Context.call, noStruct (List.Subset.trans moreStructs structsWithin),
      noFunction (List.Subset.trans moreFunctions functionsWithin)] at isTy
    rwa [Context.call, noStruct structsWithin, noFunction functionsWithin]

end Shader
end Whittle
