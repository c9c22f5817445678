import Whittle.Proofs.Typing.Persistence

namespace Whittle

/-!
# Versions with more features

A version with more features has one more statement, one more form of global, or one more
variable.  The variable has a name that no shader can declare.  So whatever a shader of the
version with fewer features refers to is the same in the other version, where the shader is
valid as well, with the same types.
-/

/-- The second version has the features of the first one. -/
structure Version.FeaturesWithin (version wider : Version) : Prop where
  hasSwitch : version.hasSwitch → wider.hasSwitch
  hasFragColor : version.hasFragColor → wider.hasFragColor
  hasInOutGlobals : version.hasInOutGlobals → wider.hasInOutGlobals

namespace Check
namespace Context

/-- The second context is one of a version with more features.  It knows every variable that
the first one knows, and every name that can be declared in the first one can be declared in
it. -/
structure WidenedBy (ctx ctx' : Context) : Prop where
  features : ctx.version.FeaturesWithin ctx'.version
  structs : ctx'.structs = ctx.structs
  functions : ctx'.functions = ctx.functions
  taken : ctx'.taken = ctx.taken
  returnTy : ctx'.returnTy = ctx.returnTy
  loops : ctx'.loops = ctx.loops
  switches : ctx'.switches = ctx.switches
  free : ∀ name, ctx.CanDeclare name → ctx'.CanDeclare name
  lookups : ∀ name binding, ctx.lookup? name = some binding → ctx'.lookup? name = some binding

namespace WidenedBy

variable {ctx ctx' : Context}

theorem struct? (widened : ctx.WidenedBy ctx') (name : String) :
    ctx'.struct? name = ctx.struct? name := by
  rw [Context.struct?, Context.struct?, widened.structs]

theorem call_eq (widened : ctx.WidenedBy ctx') (callee : String) (args : List Ty) :
    ctx'.call callee args = ctx.call callee args := by
  simp only [Context.call, widened.struct?, Context.function?, widened.functions]

theorem member_eq (widened : ctx.WidenedBy ctx') (base : Ty) (field : String) :
    ctx'.member base field = ctx.member base field :=
  member_eq_of_structs widened.struct? base field

theorem declared (widened : ctx.WidenedBy ctx') (name : String) (binding : Binding) :
    (ctx.declared name binding).WidenedBy (ctx'.declared name binding) := by
  have free : ∀ other, (ctx.declared name binding).CanDeclare other →
      (ctx'.declared name binding).CanDeclare other := by
    rintro other ⟨notReserved, isFree⟩
    rw [inner_declared] at isFree
    split at isFree
    · cases isFree
    · rename_i isOther
      refine ⟨notReserved, ?_⟩
      rw [inner_declared, if_neg isOther]
      exact (widened.free other ⟨notReserved, isFree⟩).2
  have lookups : ∀ other found, (ctx.declared name binding).lookup? other = some found →
      (ctx'.declared name binding).lookup? other = some found := by
    intro other found isFound
    rw [lookup?_declared] at isFound ⊢
    split
    · -- The declaration hides whatever had the name, in both contexts.
      rename_i isDeclared
      rwa [if_pos isDeclared] at isFound
    · rename_i isOther
      rw [if_neg isOther] at isFound
      exact widened.lookups other found isFound
  unfold Context.declared at free lookups ⊢
  split
  · exact widened
  · rename_i notReserved
    rw [if_neg notReserved, if_neg notReserved] at free lookups
    exact { widened with free, lookups }

/-- What is predefined has names that cannot be declared. -/
theorem lookup_predefined_eq_none (version : Version) {name : String}
    (notReserved : isReservedName name = false) : (predefined version).lookup name = none := by
  have reserved : ∀ one ∈ predefined version, isReservedName one.1 = true := by
    cases version <;> decide
  refine List.lookup_eq_none_iff.mpr fun one listed => ?_
  rw [bne_iff_ne]
  intro same
  rw [same, reserved one listed] at notReserved
  cases notReserved

theorem lookup?_initial (version : Version) (name : String) :
    (Context.initial version).lookup? name = (predefined version).lookup name := by
  rw [Context.lookup?, List.findSome?_cons]
  cases isBinding : (predefined version).lookup name with
  | none => simp [initial, isBinding]
  | some binding => simp [initial, isBinding]

/-- What is predefined stays predefined where there are more features. -/
theorem lookup_predefined {version wider : Version} (features : version.FeaturesWithin wider)
    {name : String} {binding : Binding}
    (isFound : (predefined version).lookup name = some binding) :
    (predefined wider).lookup name = some binding := by
  unfold predefined at isFound ⊢
  by_cases hasColor : version.hasFragColor
  · rw [if_pos (features.hasFragColor hasColor)]
    rwa [if_pos hasColor] at isFound
  · rw [if_neg hasColor, List.nil_append] at isFound
    split
    · -- The colour stands in front of the coordinates, under another name.
      have isCoord : name = "gl_FragCoord" := by
        by_contra isOther
        rw [List.lookup_cons, beq_eq_false_iff_ne.mpr isOther] at isFound
        cases isFound
      subst isCoord
      exact isFound
    · exact isFound

theorem persistent : Persistent (fun _ => True) WidenedBy where
  hasSwitch widened := widened.features.hasSwitch
  returnTy widened := widened.returnTy
  loops widened := widened.loops
  switches widened := widened.switches
  free widened isFree := widened.free _ isFree
  knows widened _ known := known.of_structs fun name _ isKnown => by rwa [widened.struct? name]
  opened widened := { widened with free := fun _ isFree => isFree, lookups := widened.lookups }
  inLoop widened := { widened with loops := congrArg (· + 1) widened.loops }
  inSwitch widened := { widened with switches := congrArg (· + 1) widened.switches }
  declared name binding widened _ := widened.declared name binding

/-- At the top level the version with more features has more predefined variables. -/
theorem initial {version wider : Version} (features : version.FeaturesWithin wider) :
    (Context.initial version).WidenedBy (.initial wider) where
  features := features
  structs := rfl
  functions := rfl
  taken := rfl
  returnTy := rfl
  loops := rfl
  switches := rfl
  free name isFree := ⟨isFree.1, lookup_predefined_eq_none wider isFree.1⟩
  lookups name binding isFound := by
    rw [lookup?_initial] at isFound ⊢
    exact lookup_predefined features isFound

/-- A typed expression keeps its type, and whether it may be written. -/
theorem typeOf_and_mayWrite (widened : ctx.WidenedBy ctx') {e : Expr}
    (typed : (ctx.typeOf e).isSome) :
    ctx'.typeOf e = ctx.typeOf e ∧ ctx'.mayWrite e = ctx.mayWrite e := by
  induction e using Expr.children_induction with
  | step e inductionHypothesis =>
      have parts := fun child isChild =>
        inductionHypothesis child isChild (isSome_of_mem_children typed isChild)
      have vars : ∀ name, e.varName? = some name → ctx'.lookup? name = ctx.lookup? name := by
        intro name isName
        cases e with
        | var id other =>
            cases isName
            rcases Option.isSome_iff_exists.mp typed with ⟨ty, isTy⟩
            rcases Option.map_eq_some_iff.mp isTy with ⟨binding, isBinding, _⟩
            rw [isBinding, widened.lookups name binding isBinding]
        | _ => cases isName
      have typesOfParts : ∀ child ∈ e.children, ctx'.typeOf child = ctx.typeOf child :=
        fun child isChild => (parts child isChild).1
      have unchanged : e.mapChildren (fun child => child) = e :=
        Expr.mapChildren_eq_self fun _ _ => rfl
      have sameTy : ctx'.typeOf (e.mapChildren fun child => child) = ctx.typeOf e :=
        typeOf_mapChildren vars (fun _ callee _ tys _ _ => widened.call_eq callee tys)
          (fun _ _ field ty _ _ => widened.member_eq ty field) typesOfParts
          fun operand isWritten => (parts operand (Expr.mem_children_of_written? isWritten)).2
      have sameWrite : ctx'.mayWrite (e.mapChildren fun child => child) = ctx.mayWrite e :=
        mayWrite_mapChildren vars typesOfParts fun child isChild _ => (parts child isChild).2
      rw [unchanged] at sameTy sameWrite
      exact ⟨sameTy, sameWrite⟩

theorem carries (all : List Placed) : Carries WidenedBy (fun e => e) all :=
  fun _ _ _ widened typed => (widened.typeOf_and_mayWrite typed).1

/-- The types of what is typed are entered as before. -/
theorem entries_eq (widened : ctx.WidenedBy ctx') {e : Expr} (typed : (ctx.typeOf e).isSome) :
    ctx'.entries e = ctx.entries e :=
  List.filterMap_congr fun part isPart => by
    rw [(widened.typeOf_and_mayWrite (isSome_of_mem_subexprs typed isPart)).1]

/-- Where the relation leads, the same types are entered. -/
theorem flatMap_entries_eq {all all' : List Placed} (typed : AllTyped all)
    (becomes : List.Forall₂ (Placed.Becomes WidenedBy fun e => e) all all') :
    all'.flatMap Placed.entries = all.flatMap Placed.entries := by
  induction becomes with
  | nil => rfl
  | @cons one other rest rest' isOther _ inductionHypothesis =>
      have typed := List.forall_mem_cons.mp typed
      have same : other.entries = one.entries := by
        rw [Placed.entries, isOther.e]
        exact isOther.ctx.entries_eq typed.1
      rw [List.flatMap_cons, List.flatMap_cons, same, inductionHypothesis typed.2]

theorem taking (widened : ctx.WidenedBy ctx') (name : String) :
    (ctx.taking name).WidenedBy (ctx'.taking name) :=
  { widened with taken := congrArg (name :: ·) widened.taken }

theorem behindDecl (widened : ctx.WidenedBy ctx') (decl : Decl) :
    (ctx.behindDecl decl).WidenedBy (ctx'.behindDecl decl) := by
  cases decl with
  | precision => exact widened
  | struct decl =>
      rw [Context.behindDecl, Context.behindDecl, widened.taken]
      split
      · exact widened
      · exact { widened.taking decl.name with structs := congrArg (decl :: ·) widened.structs }
  | global var =>
      rw [Context.behindDecl, Context.behindDecl, widened.taken]
      split
      · exact widened
      · exact (widened.taking var.name).declared var.name _
  | function f =>
      rw [Context.behindDecl, Context.behindDecl, widened.taken]
      split
      · exact widened
      · exact { widened.taking f.name with functions := congrArg (f :: ·) widened.functions }

theorem persistentTop : PersistentTop (fun _ => True) WidenedBy (fun e => e) where
  toPersistent := persistent
  hasInOutGlobals widened := widened.features.hasInOutGlobals
  taken widened := by rw [widened.taken]; exact List.Subset.refl _
  taking name widened := widened.taking name
  returning ty widened := { widened with returnTy := rfl }
  behindDecl widened _ _ := by
    rw [Decl.mapExprs_id]
    exact widened.behindDecl _

end WidenedBy
end Context
end Check

namespace Shader

open Check.Context (WidenedBy)

variable {shader : Shader} {version wider : Version}

/-- A shader that follows the rules of a version follows those of one with more features. -/
theorem FollowsRules.widened (features : version.FeaturesWithin wider)
    (follows : shader.FollowsRules version) :
    shader.FollowsRules wider ∧ shader.entries wider = shader.entries version := by
  have both := WidenedBy.persistentTop.acceptsDecls (WidenedBy.initial features)
    (fun decl _ => Check.Context.fitDecl_true decl) (WidenedBy.carries _) follows.decls
  have unchanged : shader.decls.map (Decl.mapExprs fun e => e) = shader.decls := by
    rw [funext Decl.mapExprs_id, List.map_id']
  rw [unchanged] at both
  exact ⟨⟨both.1, follows.main⟩, WidenedBy.flatMap_entries_eq follows.decls.allTyped both.2⟩

/-- Whether a shader is valid is monotone in the features of the version, and the types of its
expressions are the same in both versions. -/
theorem check_of_featuresWithin {shader : Shader} {version wider : Version} {types : TypeTable}
    (features : version.FeaturesWithin wider) (checked : shader.check version = .ok types) :
    ∃ types', shader.check wider = .ok types' ∧ types'.Equiv types := by
  have valid := isValid_iff.mp ⟨types, checked⟩
  rcases valid.2.widened features with ⟨follows, sameEntries⟩
  rcases isValid_iff.mpr ⟨valid.1, follows⟩ with ⟨types', checked'⟩
  refine ⟨types', checked', .of_forall_constGet?_eq fun id => Option.ext fun ty => ?_⟩
  rw [getElem?_eq_some_iff_of_check checked', getElem?_eq_some_iff_of_check checked, sameEntries]

/-- The shader `void main() { gl_FragColor = vec4(1.0); }`. -/
def white : Shader :=
  .ofDecls .essl100
    [.function ⟨.unnumbered, .void, "main", [], ⟨.unnumbered,
      [.expr .unnumbered (.assign .unnumbered .set (.var .unnumbered "gl_FragColor")
        (.call .unnumbered "vec4" [.float .unnumbered .one]))]⟩⟩]

/-- The oldest version for embedded systems has no feature that the oldest one for desktops is
without. -/
theorem check_of_featuresWithin_white :
    Version.FeaturesWithin .essl100 .glsl130 ∧ ∃ types, white.check .essl100 = .ok types ∧
      ∃ types', white.check .glsl130 = .ok types' ∧ types'.Equiv types := by
  have features : Version.FeaturesWithin .essl100 .glsl130 := ⟨by decide, by decide, by decide⟩
  have valid : (white.check .essl100).toOption.isSome = true := by decide
  cases checked : white.check .essl100 with
  | error problems =>
      rw [checked] at valid
      cases valid
  | ok types => exact ⟨features, types, rfl, check_of_featuresWithin features checked⟩

end Shader
end Whittle
