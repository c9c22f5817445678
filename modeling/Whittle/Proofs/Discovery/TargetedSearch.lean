import Mathlib.Data.List.Basic
import Mathlib.Data.List.Flatten
import Whittle.Reduction.Discovery

namespace Whittle
namespace Reduction

/-!
# Targeted searches

A search in injected code alone passes over sites that a search everywhere looks
at.  At the sites where it proposes an edit it proposes the one that the other
search proposes there.  So its edits are among those of the other search and come
in the same order, on shaders that are valid and on those that are not.
-/

section

variable {few many rest : Bool}

theorem and_of_imp (wider : few = true → many = true) :
    (few && rest) = true → (many && rest) = true := by
  simp only [Bool.and_eq_true]
  exact And.imp_left wider

theorem and_of_imp_right (wider : few = true → many = true) :
    (rest && few) = true → (rest && many) = true := by
  simp only [Bool.and_eq_true]
  exact And.imp_right wider

theorem or_of_imp (wider : few = true → many = true) :
    (few || rest) = true → (many || rest) = true := by
  simp only [Bool.or_eq_true]
  exact Or.imp_left wider

end

/-- Whatever the first search of a site yields, the second one yields the same. -/
def Yields {α : Type} (few many : Option α) : Prop :=
  ∀ a, few = some a → many = some a

namespace Yields

variable {α β : Type} {few many : Option α}

theorem refl (result : Option α) : Yields result result :=
  fun _ found => found

theorem bind {next next' : α → Option β} (yields : Yields few many)
    (goesOn : ∀ a, Yields (next a) (next' a)) : Yields (few.bind next) (many.bind next') := by
  intro b found
  rcases Option.bind_eq_some_iff.mp found with ⟨a, isFirst, isNext⟩
  exact Option.bind_eq_some_iff.mpr ⟨a, yields a isFirst, goesOn a b isNext⟩

theorem ite {narrow wide : Bool} (wider : narrow = true → wide = true) (a : α) :
    Yields (if narrow then some a else none) (if wide then some a else none) := by
  intro b found
  cases narrow with
  | false => cases found
  | true => rwa [wider rfl]

/-- The results over a list come in the order of the list. -/
theorem filterMap_sublist {search search' : α → Option β} (yields : ∀ a, Yields (search a) (search' a))
    (items : List α) : (items.filterMap search).Sublist (items.filterMap search') := by
  induction items with
  | nil => exact List.Sublist.refl _
  | cons a rest inductionHypothesis =>
      cases first : search a with
      | some b =>
          rw [List.filterMap_cons_some first, List.filterMap_cons_some (yields a b first)]
          exact inductionHypothesis.cons_cons b
      | none =>
          rw [List.filterMap_cons_none first]
          cases first' : search' a with
          | none => rwa [List.filterMap_cons_none first']
          | some b =>
              rw [List.filterMap_cons_some first']
              exact inductionHypothesis.cons b

end Yields

section

variable (types : TypeTable) (shader : Shader) (names : Names)

theorem Unwrapping.yields_wrapper? (s : Stmt) : Yields (wrapper? false s) (wrapper? true s) := by
  cases s with
  | block => exact fun _ found => by cases found
  | branch id cond whenTrue whenFalse =>
      cases whenFalse with
      | none => exact .ite (fun _ => rfl) _
      | some _ => exact .refl _
  | forLoop => exact .ite (and_of_imp (and_of_imp fun _ => rfl)) _
  | whileLoop => exact .ite (and_of_imp fun _ => rfl) _
  | _ => exact .refl _

theorem Unwrapping.yields_ofSite? (site : Site) : Yields (ofSite? false site) (ofSite? true site) :=
  (yields_wrapper? site.stmt).bind fun _ => .refl _

theorem SwitchChain.yields_ofStmt? (s : Stmt) :
    Yields (ofStmt? false shader s) (ofStmt? true shader s) := by
  cases s with
  | switch => exact .ite (and_of_imp (and_of_imp fun _ => rfl)) _
  | _ => exact .refl _

theorem StmtRemoval.yields_ofSite? (injected : List NodeId) (site : Site) :
    Yields (ofSite? false injected site) (ofSite? true injected site) :=
  .ite (and_of_imp_right fun _ => rfl) _

theorem SoleField.yields_ofStmt? (exprs : List Expr) (s : Stmt) :
    Yields (ofStmt? false shader names exprs s) (ofStmt? true shader names exprs s) := by
  refine .bind (.refl _) fun var => .bind (.refl _) fun struct => .bind (.refl _) fun decl => ?_
  dsimp only
  split
  · exact .ite (and_of_imp (and_of_imp (or_of_imp fun _ => rfl))) _
  · exact .refl _

theorem FieldFlattening.yields_ofField? (exprs : List Expr) (outer : StructDecl) (field : Field)
    (position : Nat) : Yields (ofField? false types shader exprs outer field position)
      (ofField? true types shader exprs outer field position) :=
  .bind (.refl _) fun _ => .bind (.refl _) fun _ =>
    .ite (and_of_imp (and_of_imp (and_of_imp (or_of_imp fun _ => rfl)))) _

theorem OutlinedCall.yields_ofStmt? (s : Stmt) :
    Yields (ofStmt? false shader names s) (ofStmt? true shader names s) :=
  .bind (.refl _) fun _ => .bind (.refl _) fun _ => .bind (.refl _) fun _ =>
    .ite (and_of_imp (and_of_imp (and_of_imp (and_of_imp_right fun _ => rfl)))) _

theorem CallInlining.yields_ofStmt? (caller : Function) (s : Stmt) :
    Yields (ofStmt? false shader caller s) (ofStmt? true shader caller s) :=
  .bind (.refl _) fun _ => .bind (.refl _) fun _ => .ite (and_of_imp fun _ => rfl) _

theorem InitInlining.yields_ofStmt? (s : Stmt) :
    Yields (ofStmt? false shader names s) (ofStmt? true shader names s) :=
  .bind (.refl _) fun _ => .bind (.refl _) fun _ => .ite (and_of_imp fun _ => rfl) _

theorem VectorSplit.yields_ofStmt? (exprs : List Expr) (s : Stmt) :
    Yields (ofStmt? false types names exprs s) (ofStmt? true types names exprs s) :=
  .bind (.refl _) fun _ => .bind (.refl _) fun _ => .bind (.refl _) fun _ =>
    .ite (and_of_imp (and_of_imp (and_of_imp (and_of_imp (and_of_imp (and_of_imp fun _ => rfl)))))) _

theorem VarRemoval.isUnreferenced_everywhere {var : VarDecl}
    (unreferenced : isUnreferenced false names var = true) : isUnreferenced true names var = true :=
  and_of_imp_right (fun _ => rfl) unreferenced

/-- Whether a variable is in question is asked first, and which removal it is does not
depend on the search. -/
theorem VarRemoval.yields_ofSite? (site : Site) :
    Yields (ofSite? false shader names site) (ofSite? true shader names site) := by
  refine .bind (.refl _) fun var edit found => ?_
  cases unreferenced : isUnreferenced false names var with
  | false => simp [unreferenced] at found
  | true =>
      rw [unreferenced] at found
      rwa [isUnreferenced_everywhere names unreferenced]

end

section

variable (types : TypeTable) (shader : Shader) (names : Names)

/-- A declaration or an expression in injected code is one anywhere. -/
theorem filter_everywhere_sublist {α : Type} (targeted : α → Bool) (items : List α) :
    (items.filter fun a => false || targeted a).Sublist (items.filter fun a => true || targeted a) :=
  List.monotone_filter_right items fun _ _ => rfl

theorem FieldRemoval.ofStruct_sublist (exprs : List Expr) (decl : StructDecl) :
    (ofStruct false types exprs decl).Sublist (ofStruct true types exprs decl) := by
  unfold ofStruct
  split
  · exact List.Sublist.refl _
  · refine Yields.filterMap_sublist (fun ⟨field, position⟩ => ?_) _
    dsimp only
    split
    · exact .refl _
    · exact .ite (or_of_imp (or_of_imp fun _ => rfl)) _

theorem VarRemoval.ofDecl_sublist (decl : Decl) :
    (ofDecl false shader names decl).Sublist (ofDecl true shader names decl) := by
  cases decl with
  | global var =>
      have wider : (var.qualifier != some .output && hasPureInit shader var &&
          isUnreferenced false names var) = true →
            (var.qualifier != some .output && hasPureInit shader var &&
              isUnreferenced true names var) = true :=
        and_of_imp_right (isUnreferenced_everywhere names)
      rw [ofDecl, ofDecl]
      split
      · rename_i fits
        rw [if_pos (wider fits)]
      · exact List.nil_sublist _
  | function f => exact Yields.filterMap_sublist (yields_ofSite? shader names) _
  | _ => exact List.Sublist.refl _

theorem BodyPromotion.ofStmt_sublist (function : Function) (s : Stmt) :
    (ofStmt false function s).Sublist (ofStmt true function s) := by
  unfold ofStmt
  split
  · exact List.Sublist.refl _
  · exact List.nil_sublist _

theorem ParamRemoval.ofFunction_sublist (function : Function) :
    (ofFunction false function).Sublist (ofFunction true function) := by
  unfold ofFunction
  split
  · exact List.Sublist.refl _
  · exact (List.monotone_filter_right _ fun _ => and_of_imp fun _ => rfl).map _

/-- For each kind the edits of a targeted search are among those of a search everywhere. -/
theorem Kind.editsIn_sublist (kind : Kind) :
    (kind.editsIn false types shader).Sublist (kind.editsIn true types shader) := by
  cases kind with
  | loopMerge | mutation | liveFragColorWrite => exact List.Sublist.refl _
  | removeStructField =>
      exact (List.Sublist.flatMap_right _ fun decl _ =>
        FieldRemoval.ofStruct_sublist types shader.exprs decl).map _
  | destructify =>
      exact (Yields.filterMap_sublist (fun site : Site =>
        SoleField.yields_ofStmt? shader _ shader.exprs site.stmt) _).map _
  | unusedStruct =>
      exact ((List.monotone_filter_right _ fun _ =>
        and_of_imp (and_of_imp fun _ => rfl)).map _).map _
  | inlineStructField =>
      exact (List.Sublist.flatMap_right _ fun outer _ =>
        Yields.filterMap_sublist (fun ⟨field, position⟩ =>
          FieldFlattening.yields_ofField? types shader shader.exprs outer field position) _).map _
  | outlinedStatement =>
      exact (List.Sublist.flatMap_right _ fun caller _ =>
        Yields.filterMap_sublist (fun site : Site =>
          OutlinedCall.yields_ofStmt? shader _ site.stmt) _).map _
  | declaration =>
      exact (List.Sublist.flatMap_right _ fun decl _ =>
        VarRemoval.ofDecl_sublist shader _ decl).map _
  | unwrap => exact (Yields.filterMap_sublist Unwrapping.yields_ofSite? _).map _
  | unswitchify =>
      exact (Yields.filterMap_sublist (fun site : Site =>
        SwitchChain.yields_ofStmt? shader site.stmt) _).map _
  | vectorization =>
      exact (Yields.filterMap_sublist (fun site : Site =>
        VectorSplit.yields_ofStmt? types _ shader.exprs site.stmt) _).map _
  | function =>
      exact ((List.monotone_filter_right _ fun _ =>
        and_of_imp (and_of_imp_right fun _ => rfl)).map _).map _
  | statement =>
      exact (Yields.filterMap_sublist (StmtRemoval.yields_ofSite? (injectedIds shader)) _).map _
  | exprToConstant =>
      exact ((filter_everywhere_sublist _ _).filterMap _).map _
  | compoundExprToSubExpr =>
      exact ((filter_everywhere_sublist _ _).flatMap _).map _
  | compoundToBlock =>
      exact (List.Sublist.flatMap_right _ fun function _ =>
        List.Sublist.flatMap_right _ fun s _ => BodyPromotion.ofStmt_sublist function s).map _
  | inlineInitializer =>
      exact (Yields.filterMap_sublist (fun site : Site =>
        InitInlining.yields_ofStmt? shader _ site.stmt) _).map _
  | inlineFunction =>
      exact (Yields.filterMap_sublist (fun site : Site =>
        CallInlining.yields_ofStmt? shader site.function site.stmt) _).map _
  | unusedParam =>
      exact (List.Sublist.flatMap_right _ fun function _ =>
        ParamRemoval.ofFunction_sublist function).map _

end

/-- Two searches fail alike, or both succeed and all that the first one finds is found by
the second one in the same order. -/
inductive FindsNoMore {ε α : Type} : Except ε (List α) → Except ε (List α) → Prop where
  | fails (failure : ε) : FindsNoMore (.error failure) (.error failure)
  | finds {few many : List α} (fewer : few.Sublist many) : FindsNoMore (.ok few) (.ok many)

namespace FindsNoMore

variable {ε ε' α β κ : Type} {few many few' many' : Except ε (List α)}

theorem map (noMore : FindsNoMore few many) (change : α → β) :
    FindsNoMore (few.map (List.map change)) (many.map (List.map change)) := by
  cases noMore with
  | fails failure => exact .fails failure
  | finds fewer => exact .finds (fewer.map change)

theorem mapError (noMore : FindsNoMore few many) (change : ε → ε') :
    FindsNoMore (few.mapError change) (many.mapError change) := by
  cases noMore with
  | fails failure => exact .fails (change failure)
  | finds fewer => exact .finds fewer

/-- Of two searches one after the other the first failure counts, and all results are kept. -/
theorem append (first : FindsNoMore few many) (second : FindsNoMore few' many') :
    FindsNoMore (do
      let edits ← few
      let others ← few'
      return edits ++ others) (do
      let edits ← many
      let others ← many'
      return edits ++ others) := by
  cases first with
  | fails failure => exact .fails failure
  | finds fewer =>
      cases second with
      | fails failure => exact .fails failure
      | finds fewer' => exact .finds (fewer.append fewer')

end FindsNoMore

section

variable {α : Type} [EditLike α]

/-- Without verification a finder contributes what its search finds. -/
theorem Finder.discover_unverified (scan : Scan) (shader : Shader) (finder : Finder α) :
    finder.discover scan false shader =
      (finder.find scan shader).map (List.map fun edit => ⟨finder.kind, false, edit⟩) := by
  unfold discover
  cases finder.find scan shader with
  | error failure => rfl
  | ok edits => exact List.mapM_pure

theorem discoverEach_cons (scan : Scan) (verify : Bool) (shader : Shader) (finder : Finder α)
    (rest : List (Finder α)) :
    discoverEach scan verify shader (finder :: rest) = do
      let proposals ← finder.discover scan verify shader
      let others ← discoverEach scan verify shader rest
      return proposals ++ others := by
  unfold discoverEach
  rw [List.mapM_cons]
  cases finder.discover scan verify shader with
  | error failure => rfl
  | ok proposals => cases rest.mapM (Finder.discover scan verify shader) <;> rfl

/-- Finders that find no more in one search than in another propose no more either. -/
theorem findsNoMore_discoverEach {targeted everywhere : Scan} {shader : Shader}
    {finders : List (Finder α)}
    (noMore : ∀ finder ∈ finders,
      FindsNoMore (finder.find targeted shader) (finder.find everywhere shader)) :
    FindsNoMore (discoverEach targeted false shader finders)
      (discoverEach everywhere false shader finders) := by
  induction finders with
  | nil => exact .finds (List.Sublist.refl _)
  | cons finder rest inductionHypothesis =>
      rw [List.forall_mem_cons] at noMore
      rw [discoverEach_cons, discoverEach_cons, Finder.discover_unverified,
        Finder.discover_unverified]
      exact (noMore.1.map _).append (inductionHypothesis noMore.2)

end

variable (version : Version) (shader : Shader)

theorem Kind.findsNoMore_find (kind : Kind) :
    FindsNoMore (kind.find ⟨version, false⟩ shader) (kind.find ⟨version, true⟩ shader) := by
  unfold find
  split
  · cases shader.check version with
    | error problems => exact .fails problems
    | ok types => exact .finds (kind.editsIn_sublist types shader)
  · exact .finds (kind.editsIn_sublist ∅ shader)

theorem findsNoMore_discover (kinds : List Kind) :
    FindsNoMore (discover kinds ⟨version, false⟩ false shader)
      (discover kinds ⟨version, true⟩ false shader) := by
  refine (findsNoMore_discoverEach fun finder listed => ?_).map Proposal.edit
  obtain ⟨kind, _, rfl⟩ := List.mem_map.mp listed
  exact (kind.findsNoMore_find version shader).mapError _

/-- Each kind of search, and each list of kinds without verification, fails in injected code as
it does everywhere, or finds no more there. -/
theorem targeted_findsNoMore :
    (∀ kind : Kind,
      FindsNoMore (kind.find ⟨version, false⟩ shader) (kind.find ⟨version, true⟩ shader)) ∧
    ∀ kinds : List Kind,
      FindsNoMore (discover kinds ⟨version, false⟩ false shader)
        (discover kinds ⟨version, true⟩ false shader) :=
  ⟨Kind.findsNoMore_find version shader, findsNoMore_discover version shader⟩

end Reduction
end Whittle
