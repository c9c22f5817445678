import Whittle.Proofs.Discovery.TargetedSearch

namespace Whittle
namespace Reduction

/-!
# Verified discovery

Discovery that verifies its edits finds what discovery finds that does not, or it fails.  It
fails at the first thing that is wrong, in the order in which it works: the shader itself, then
for each finder the search and each of the edits found.  Whatever stands in front of the failure
in this order is in order, and what stands behind it is not looked at.  Nothing of this depends
on what the finders look for, nor on why their searches fail.
-/

/-- The list has a member with `P`, and all members in front of it pass. -/
def FirstOf {α : Type} (passes P : α → Prop) (items : List α) : Prop :=
  ∃ front item behind, items = front ++ item :: behind ∧ (∀ earlier ∈ front, passes earlier) ∧ P item

section

variable {α : Type} {passes P : α → Prop} {a : α} {rest : List α}

theorem not_firstOf_nil : ¬ FirstOf passes P [] := by
  rintro ⟨front, item, behind, split, _⟩
  exact List.append_ne_nil_of_right_ne_nil front (List.cons_ne_nil item behind) split.symm

/-- The first one is at the head, or the head passes and the first one is behind it. -/
theorem firstOf_cons : FirstOf passes P (a :: rest) ↔ P a ∨ passes a ∧ FirstOf passes P rest := by
  constructor
  · rintro ⟨front, item, behind, split, passed, isFirst⟩
    cases front with
    | nil =>
        cases split
        exact Or.inl isFirst
    | cons head front =>
        cases split
        rw [List.forall_mem_cons] at passed
        exact Or.inr ⟨passed.1, front, item, behind, rfl, passed.2, isFirst⟩
  · rintro (isFirst | ⟨passed, front, item, behind, rfl, passedToo, isFirst⟩)
    · exact ⟨[], a, rest, rfl, List.forall_mem_nil _, isFirst⟩
    · exact ⟨a :: front, item, behind, rfl, List.forall_mem_cons.mpr ⟨passed, passedToo⟩, isFirst⟩

theorem firstOf_map {β : Type} {f : β → α} {items : List β} :
    FirstOf passes P (items.map f) ↔
      FirstOf (fun item => passes (f item)) (fun item => P (f item)) items := by
  induction items with
  | nil => exact iff_of_false not_firstOf_nil not_firstOf_nil
  | cons item rest inductionHypothesis =>
      rw [List.map_cons, firstOf_cons, firstOf_cons, inductionHypothesis]

end

section

variable {ε α β : Type}

theorem mapM_cons_eq_ok_iff {step : α → Except ε β} {item : α} {rest : List α}
    {results : List β} :
    (item :: rest).mapM step = .ok results ↔
      ∃ result others, step item = .ok result ∧ rest.mapM step = .ok others ∧
        results = result :: others := by
  rw [List.mapM_cons]
  cases step item with
  | error failure => exact iff_of_false nofun nofun
  | ok result =>
      cases rest.mapM step with
      | error failure => exact iff_of_false nofun nofun
      | ok others =>
          constructor
          · intro isOk
            cases isOk
            exact ⟨result, others, rfl, rfl, rfl⟩
          · rintro ⟨_, _, isResult, areOthers, rfl⟩
            cases isResult
            cases areOthers
            rfl

theorem exists_mapM_iff {step : α → Except ε β} {items : List α} :
    (∃ results, items.mapM step = .ok results) ↔
      ∀ item ∈ items, ∃ result, step item = .ok result := by
  induction items with
  | nil => exact iff_of_true ⟨[], rfl⟩ (List.forall_mem_nil _)
  | cons item rest inductionHypothesis =>
      rw [List.forall_mem_cons, ← inductionHypothesis]
      constructor
      · rintro ⟨_, isOk⟩
        obtain ⟨result, others, isResult, areOthers, rfl⟩ := mapM_cons_eq_ok_iff.mp isOk
        exact ⟨⟨result, isResult⟩, others, areOthers⟩
      · rintro ⟨⟨result, isResult⟩, others, areOthers⟩
        exact ⟨result :: others,
          mapM_cons_eq_ok_iff.mpr ⟨result, others, isResult, areOthers, rfl⟩⟩

theorem exists_of_mem_mapM {step : α → Except ε β} {items : List α} {results : List β}
    (isOk : items.mapM step = .ok results) {result : β} (listed : result ∈ results) :
    ∃ item ∈ items, step item = .ok result := by
  induction items generalizing results with
  | nil =>
      cases isOk
      cases listed
  | cons item rest inductionHypothesis =>
      obtain ⟨first, others, isFirst, areOthers, rfl⟩ := mapM_cons_eq_ok_iff.mp isOk
      rcases List.mem_cons.mp listed with rfl | isOther
      · exact ⟨item, List.mem_cons_self, isFirst⟩
      · obtain ⟨other, isItem, isResult⟩ := inductionHypothesis areOthers isOther
        exact ⟨other, List.mem_cons_of_mem item isItem, isResult⟩

/-- Of the failures of a traversal the first one counts. -/
theorem mapM_eq_error_iff {step : α → Except ε β} {failure : ε} {items : List α} :
    items.mapM step = .error failure ↔
      FirstOf (fun item => ∃ result, step item = .ok result)
        (fun item => step item = .error failure) items := by
  induction items with
  | nil => exact iff_of_false nofun not_firstOf_nil
  | cons item rest inductionHypothesis =>
      rw [firstOf_cons, ← inductionHypothesis, List.mapM_cons]
      cases step item with
      | error other =>
          rw [or_iff_left fun both => nomatch both.1]
          simp only [bind, Except.bind, Except.error.injEq]
      | ok result =>
          rw [or_iff_right nofun, and_iff_right ⟨result, rfl⟩]
          cases rest.mapM step with
          | error other => rfl
          | ok results => exact iff_of_false nofun nofun

/-- One computation gives what the other one gives, marked, and does so only if this holds. -/
def AddsCheck (Holds : β → Prop) (mark : β → β) (plain checked : Except ε β) : Prop :=
  ∀ result, checked = .ok result ↔ ∃ found, plain = .ok found ∧ Holds found ∧ result = mark found

/-- A traversal adds the checks that its steps add. -/
theorem AddsCheck.mapM {Holds : β → Prop} {mark : β → β} {plain checked : α → Except ε β}
    (adds : ∀ item, AddsCheck Holds mark (plain item) (checked item)) (items : List α) :
    AddsCheck (∀ found ∈ ·, Holds found) (List.map mark) (items.mapM plain)
      (items.mapM checked) := by
  induction items with
  | nil =>
      intro results
      constructor
      · intro isOk
        cases isOk
        exact ⟨[], rfl, List.forall_mem_nil _, rfl⟩
      · rintro ⟨_, isOk, _, rfl⟩
        cases isOk
        rfl
  | cons item rest inductionHypothesis =>
      intro results
      rw [mapM_cons_eq_ok_iff]
      constructor
      · rintro ⟨result, others, isResult, areOthers, rfl⟩
        obtain ⟨found, isFound, holds, rfl⟩ := (adds item result).mp isResult
        obtain ⟨founds, areFound, hold, rfl⟩ := (inductionHypothesis others).mp areOthers
        exact ⟨found :: founds, mapM_cons_eq_ok_iff.mpr ⟨found, founds, isFound, areFound, rfl⟩,
          List.forall_mem_cons.mpr ⟨holds, hold⟩, rfl⟩
      · rintro ⟨_, isOk, hold, rfl⟩
        obtain ⟨found, founds, isFound, areFound, rfl⟩ := mapM_cons_eq_ok_iff.mp isOk
        rw [List.forall_mem_cons] at hold
        exact ⟨mark found, founds.map mark, (adds item _).mpr ⟨found, isFound, hold.1, rfl⟩,
          (inductionHypothesis _).mpr ⟨founds, areFound, hold.2, rfl⟩, rfl⟩

end

theorem map_eq_ok_iff {f : α → β} {found : Except ε α} {result : β} :
    found.map f = .ok result ↔ ∃ a, found = .ok a ∧ f a = result := by
  cases found with
  | error failure => exact iff_of_false nofun nofun
  | ok a => simp only [Except.map, Except.ok.injEq, exists_eq_left']

theorem map_eq_error_iff {f : α → β} {found : Except ε α} {failure : ε} :
    found.map f = .error failure ↔ found = .error failure := by
  cases found with
  | error other => simp only [Except.map, Except.error.injEq]
  | ok a => exact iff_of_false nofun nofun

theorem AddsCheck.flatten {Holds : β → Prop} {mark : β → β}
    {plain checked : Except ε (List (List β))}
    (adds : AddsCheck (∀ found ∈ ·, ∀ b ∈ found, Holds b) (List.map (List.map mark)) plain checked) :
    AddsCheck (∀ b ∈ ·, Holds b) (List.map mark) (plain.map List.flatten)
      (checked.map List.flatten) := by
  intro results
  simp only [map_eq_ok_iff, adds _]
  constructor
  · rintro ⟨_, ⟨found, isFound, hold, rfl⟩, rfl⟩
    exact ⟨found.flatten, ⟨found, isFound, rfl⟩, List.forall_mem_flatten.mpr hold,
      List.map_flatten.symm⟩
  · rintro ⟨_, ⟨found, isFound, rfl⟩, hold, rfl⟩
    exact ⟨_, ⟨found, isFound, List.forall_mem_flatten.mp hold, rfl⟩, List.map_flatten.symm⟩

variable {α : Type} [EditLike α] {scan : Scan} {shader : Shader} {version : Version}
  {failure : Failure}

/-- The edit, applied to the shader on its own, leaves it valid. -/
def Verifies (version : Version) (shader : Shader) (edit : α) : Prop :=
  (EditLike.apply edit shader).IsValid version

/-- The failure names the edit, the kind that is looked for and what is wrong with the shader
behind the edit. -/
def Breaks (version : Version) (shader : Shader) (kind : Kind) (failure : Failure) (edit : α) :
    Prop :=
  ∃ problems, (EditLike.apply edit shader).check version = .error problems ∧
    failure = .invalidEdit kind (EditLike.describe edit) (Check.summary problems)

def Proposal.markVerified (proposal : Proposal α) : Proposal α := { proposal with verified := true }

theorem propose_eq_ok_iff {kind : Kind} {edit : α} {proposal : Proposal α} :
    propose version true shader kind edit = .ok proposal ↔
      Verifies version shader edit ∧ proposal = ⟨kind, true, edit⟩ := by
  simp only [propose, verifyEdit, Verifies, Shader.IsValid, if_true]
  cases (EditLike.apply edit shader).check version with
  | error problems => exact iff_of_false nofun fun both => nomatch both.1
  | ok types =>
      rw [and_iff_right ⟨types, rfl⟩]
      change Except.ok _ = Except.ok proposal ↔ _
      rw [Except.ok.injEq, eq_comm]

theorem eq_of_propose {verify : Bool} {kind : Kind} {edit : α} {proposal : Proposal α}
    (isOk : propose version verify shader kind edit = .ok proposal) :
    proposal = ⟨kind, verify, edit⟩ := by
  cases verify with
  | false =>
      cases isOk
      rfl
  | true => exact (propose_eq_ok_iff.mp isOk).2

theorem propose_eq_error_iff {kind : Kind} {edit : α} :
    propose version true shader kind edit = .error failure ↔
      Breaks version shader kind failure edit := by
  simp only [propose, verifyEdit, Breaks, if_true]
  cases (EditLike.apply edit shader).check version with
  | error problems => simp only [bind, Except.bind, Except.error.injEq, exists_eq_left', eq_comm]
  | ok types => exact iff_of_false nofun nofun

/-- A finder that verifies its edits proposes them only if they leave the shader valid. -/
theorem addsCheck_propose (kind : Kind) (edit : α) :
    AddsCheck (fun proposal => Verifies version shader proposal.edit) Proposal.markVerified
      (propose version false shader kind edit) (propose version true shader kind edit) := by
  intro proposal
  rw [propose_eq_ok_iff]
  constructor
  · rintro ⟨verified, rfl⟩
    exact ⟨⟨kind, false, edit⟩, rfl, verified, rfl⟩
  · rintro ⟨_, isOk, verified, rfl⟩
    cases isOk
    exact ⟨verified, rfl⟩

namespace Finder

/-- The search succeeds, and all edits it finds leave the shader valid. -/
def Verifies (scan : Scan) (shader : Shader) (finder : Finder α) : Prop :=
  ∃ edits, finder.find scan shader = .ok edits ∧
    ∀ edit ∈ edits, Reduction.Verifies scan.version shader edit

/-- What goes wrong first with a finder: its search, whose failure is passed on as it is, or else
the first of its edits that breaks the shader. -/
inductive Fails (scan : Scan) (shader : Shader) (failure : Failure) (finder : Finder α) : Prop where
  | search (isError : finder.find scan shader = .error failure)
  | edit (edits : List α) (found : finder.find scan shader = .ok edits)
      (first : FirstOf (Reduction.Verifies scan.version shader)
        (Breaks scan.version shader finder.kind failure) edits)

theorem addsCheck_discover (scan : Scan) (shader : Shader) (finder : Finder α) :
    AddsCheck (∀ proposal ∈ ·, Reduction.Verifies scan.version shader proposal.edit)
      (List.map Proposal.markVerified) (finder.discover scan false shader)
      (finder.discover scan true shader) := by
  unfold discover
  cases finder.find scan shader with
  | error failure => exact fun proposals => iff_of_false nofun nofun
  | ok edits => exact AddsCheck.mapM (addsCheck_propose finder.kind) edits

theorem exists_propose_iff {kind : Kind} {edit : α} :
    (∃ proposal, propose version true shader kind edit = .ok proposal) ↔
      Reduction.Verifies version shader edit := by
  simp only [propose_eq_ok_iff, exists_and_left, exists_eq, and_true]

theorem discover_eq_error_iff {finder : Finder α} :
    finder.discover scan true shader = .error failure ↔ finder.Fails scan shader failure := by
  unfold discover
  cases search : finder.find scan shader with
  | error other =>
      constructor
      · intro isError
        cases isError
        exact .search search
      · rintro (isError | ⟨_, found, _⟩)
        · cases search.symm.trans isError
          rfl
        · cases search.symm.trans found
  | ok edits =>
      change edits.mapM (propose scan.version true shader finder.kind) = .error failure ↔ _
      simp only [mapM_eq_error_iff, exists_propose_iff, propose_eq_error_iff]
      refine ⟨.edit edits search, ?_⟩
      rintro (isError | ⟨_, found, first⟩)
      · cases search.symm.trans isError
      · cases search.symm.trans found
        exact first

/-- A finder succeeds or fails. -/
theorem exists_discover_iff {finder : Finder α} :
    (∃ proposals, finder.discover scan true shader = .ok proposals) ↔
      finder.Verifies scan shader := by
  unfold discover Verifies
  cases finder.find scan shader with
  | error failure => exact iff_of_false nofun nofun
  | ok edits =>
      change (∃ proposals,
        edits.mapM (propose scan.version true shader finder.kind) = .ok proposals) ↔ _
      simp only [exists_mapM_iff, exists_propose_iff, Except.ok.injEq, exists_eq_left']

end Finder

theorem addsCheck_discoverEach (finders : List (Finder α)) :
    AddsCheck (∀ proposal ∈ ·, Verifies scan.version shader proposal.edit)
      (List.map Proposal.markVerified) (discoverEach scan false shader finders)
      (discoverEach scan true shader finders) :=
  (AddsCheck.mapM (Finder.addsCheck_discover scan shader) finders).flatten

/-- The finders are run in order, and the first one that fails counts. -/
theorem discoverEach_eq_error_iff {finders : List (Finder α)} :
    discoverEach scan true shader finders = .error failure ↔
      FirstOf (Finder.Verifies scan shader) (Finder.Fails scan shader failure) finders := by
  simp only [discoverEach, map_eq_error_iff, mapM_eq_error_iff, Finder.exists_discover_iff,
    Finder.discover_eq_error_iff]

theorem discoverWith_of_isValid (valid : shader.IsValid scan.version) (verify : Bool)
    (finders : List (Finder α)) :
    discoverWith finders scan verify shader = discoverEach scan verify shader finders := by
  obtain ⟨types, checked⟩ := valid
  cases verify with
  | false => rfl
  | true =>
      simp only [discoverWith, checked]
      rfl

theorem discoverWith_of_check_eq_error {problems : List Check.Problem}
    (isError : shader.check scan.version = .error problems) (finders : List (Finder α)) :
    discoverWith finders scan true shader = .error (.invalidShader (Check.summary problems)) := by
  simp only [discoverWith, isError]
  rfl

/-- What goes wrong first with a verified discovery: the shader, or else the first finder that
fails. -/
inductive DiscoveryFails (finders : List (Finder α)) (scan : Scan) (shader : Shader)
    (failure : Failure) : Prop where
  | shader (problems : List Check.Problem) (isError : shader.check scan.version = .error problems)
      (isFailure : failure = .invalidShader (Check.summary problems))
  | finder (valid : shader.IsValid scan.version)
      (first : FirstOf (Finder.Verifies scan shader) (Finder.Fails scan shader failure) finders)

theorem discoverWith_eq_ok_iff {finders : List (Finder α)} {proposals : List (Proposal α)} :
    discoverWith finders scan true shader = .ok proposals ↔
      shader.IsValid scan.version ∧ ∃ unverified,
        discoverWith finders scan false shader = .ok unverified ∧
        (∀ proposal ∈ unverified, Verifies scan.version shader proposal.edit) ∧
        proposals = unverified.map Proposal.markVerified := by
  cases checked : shader.check scan.version with
  | error problems =>
      rw [discoverWith_of_check_eq_error checked]
      refine iff_of_false nofun ?_
      rintro ⟨⟨types, isOk⟩, _⟩
      cases checked.symm.trans isOk
  | ok types =>
      have valid : shader.IsValid scan.version := ⟨types, checked⟩
      rw [discoverWith_of_isValid valid, discoverWith_of_isValid valid, and_iff_right valid]
      exact addsCheck_discoverEach finders proposals

theorem discoverWith_eq_error_iff {finders : List (Finder α)} :
    discoverWith finders scan true shader = .error failure ↔
      DiscoveryFails finders scan shader failure := by
  cases checked : shader.check scan.version with
  | error problems =>
      rw [discoverWith_of_check_eq_error checked]
      constructor
      · intro isError
        cases isError
        exact .shader problems checked rfl
      · rintro (⟨_, isError, rfl⟩ | ⟨⟨types, isOk⟩, _⟩)
        · cases checked.symm.trans isError
          rfl
        · cases checked.symm.trans isOk
  | ok types =>
      have valid : shader.IsValid scan.version := ⟨types, checked⟩
      rw [discoverWith_of_isValid valid, discoverEach_eq_error_iff]
      refine ⟨.finder valid, ?_⟩
      rintro (⟨_, isError, _⟩ | ⟨_, first⟩)
      · cases checked.symm.trans isError
      · exact first

/-- Verified discovery succeeds if the shader is valid, discovery without verification succeeds
and each of its edits leaves the shader valid; it proposes the same edits of the same kinds in
the same order then.  Otherwise its failure is the first one in the order of its work. -/
theorem discover_verified (finders : List (Finder α)) (scan : Scan) (shader : Shader) :
    (∀ proposals, discoverWith finders scan true shader = .ok proposals ↔
      shader.IsValid scan.version ∧ ∃ unverified,
        discoverWith finders scan false shader = .ok unverified ∧
        (∀ proposal ∈ unverified, Verifies scan.version shader proposal.edit) ∧
        proposals = unverified.map Proposal.markVerified) ∧
    ∀ failure, discoverWith finders scan true shader = .error failure ↔
      DiscoveryFails finders scan shader failure :=
  ⟨fun _ => discoverWith_eq_ok_iff, fun _ => discoverWith_eq_error_iff⟩

/-- A finder that would remove the first statement of the entry function, whatever it is. -/
def removesFirst : Finder Edit where
  kind := .statement
  find _ shader := .ok ((shader.function? "main").toList.flatMap fun main =>
    main.body.stmts.head?.toList.map fun first => .statement ⟨first.id⟩)

/-- The finder passes as long as its edits are not verified, and is not run behind one whose
search fails. -/
example :
    let shader : Shader := .ofDecls .implied [.function ⟨.unnumbered, .void, "main", [],
      ⟨.unnumbered,
        [.decl .unnumbered ⟨.unnumbered, none, .float, "x", some (.float .unnumbered .one)⟩,
         .expr .unnumbered (.assign .unnumbered .set (.var .unnumbered "gl_FragColor")
          (.call .unnumbered "vec4" [.var .unnumbered "x"]))]⟩⟩]
    discoverWith [removesFirst] ⟨.essl100, false⟩ false shader =
        .ok [⟨.statement, false, .statement ⟨2⟩⟩] ∧
      discoverWith [removesFirst] ⟨.essl100, false⟩ true shader =
        .error (.invalidEdit .statement "remove statement #2" "undeclared identifier 'x' (at #9)") ∧
      discoverWith [⟨.mutation, fun _ _ => .error (.scan .mutation "no search")⟩, removesFirst]
        ⟨.essl100, false⟩ true shader = .error (.scan .mutation "no search") :=
  ⟨rfl, rfl, rfl⟩

/-- What is proposed was found by one of the finders, and has its kind. -/
theorem exists_of_mem_discoverWith {verify : Bool} {finders : List (Finder α)}
    {proposals : List (Proposal α)} (isOk : discoverWith finders scan verify shader = .ok proposals)
    {proposal : Proposal α} (listed : proposal ∈ proposals) :
    ∃ finder ∈ finders, ∃ edits, finder.find scan shader = .ok edits ∧
      ∃ edit ∈ edits, proposal = ⟨finder.kind, verify, edit⟩ := by
  have isEach : discoverEach scan verify shader finders = .ok proposals := by
    cases verify with
    | false => exact isOk
    | true =>
        rw [← discoverWith_of_isValid (discoverWith_eq_ok_iff.mp isOk).1]
        exact isOk
  obtain ⟨found, isFound, rfl⟩ := map_eq_ok_iff.mp isEach
  obtain ⟨own, isOwn, listed⟩ := List.mem_flatten.mp listed
  obtain ⟨finder, isFinder, isDiscovered⟩ := exists_of_mem_mapM isFound isOwn
  unfold Finder.discover at isDiscovered
  cases search : finder.find scan shader with
  | error failure =>
      rw [search] at isDiscovered
      cases isDiscovered
  | ok edits =>
      rw [search] at isDiscovered
      obtain ⟨edit, isEdit, isProposed⟩ := exists_of_mem_mapM isDiscovered listed
      exact ⟨finder, isFinder, edits, search, edit, isEdit, eq_of_propose isProposed⟩

/-! ## The finders of the kinds -/

section

variable {kinds : List Kind}

/-- The verified search for kinds finds the edits that are found without verification. -/
theorem discover_eq_ok_iff {edits : List Edit} :
    discover kinds scan true shader = .ok edits ↔
      shader.IsValid scan.version ∧ discover kinds scan false shader = .ok edits ∧
        ∀ edit ∈ edits, Verifies scan.version shader edit := by
  simp only [discover, map_eq_ok_iff, discoverWith_eq_ok_iff]
  constructor
  · rintro ⟨_, ⟨valid, unverified, isOk, verified, rfl⟩, rfl⟩
    have sameEdits : (unverified.map Proposal.markVerified).map Proposal.edit =
        unverified.map Proposal.edit := List.map_map
    rw [sameEdits]
    exact ⟨valid, ⟨unverified, isOk, rfl⟩, List.forall_mem_map.mpr verified⟩
  · rintro ⟨valid, ⟨unverified, isOk, rfl⟩, verified⟩
    exact ⟨_, ⟨valid, unverified, isOk, List.forall_mem_map.mp verified, rfl⟩, List.map_map⟩

theorem discover_eq_error_iff :
    discover kinds scan true shader = .error failure ↔
      DiscoveryFails (kinds.map Kind.finder) scan shader failure := by
  rw [discover, map_eq_error_iff, discoverWith_eq_error_iff]

namespace Kind

theorem finder_find_eq_ok_iff {kind : Kind} {edits : List Edit} :
    kind.finder.find scan shader = .ok edits ↔ kind.find scan shader = .ok edits := by
  change (kind.find scan shader).mapError _ = .ok edits ↔ _
  cases kind.find scan shader with
  | error problems => exact iff_of_false nofun nofun
  | ok found => simp only [Except.mapError, Except.ok.injEq]

/-- What a search finds is of the kind that is looked for. -/
theorem kind_of_mem_find {kind : Kind} {edits : List Edit}
    (found : kind.find scan shader = .ok edits) : ∀ edit ∈ edits, edit.kind = kind := by
  intro edit listed
  unfold find at found
  split at found
  · cases checked : shader.check scan.version with
    | error problems =>
        rw [checked] at found
        cases found
    | ok types =>
        rw [checked] at found
        cases found
        exact kind_of_mem_editsIn listed
  · cases found
    exact kind_of_mem_editsIn listed

/-- In a valid shader no search fails. -/
theorem exists_find_of_isValid (valid : shader.IsValid scan.version) (kind : Kind) :
    ∃ edits, kind.find scan shader = .ok edits := by
  obtain ⟨types, checked⟩ := valid
  unfold find
  split
  · rw [checked]
    exact ⟨_, rfl⟩
  · exact ⟨_, rfl⟩

/-- In a valid shader it takes an edit that breaks it to make the finder of a kind fail. -/
theorem fails_finder_iff (valid : shader.IsValid scan.version) {kind : Kind} :
    kind.finder.Fails scan shader failure ↔
      ∃ edits, kind.find scan shader = .ok edits ∧
        FirstOf (Verifies scan.version shader) (Breaks scan.version shader kind failure) edits := by
  obtain ⟨edits, found⟩ := kind.exists_find_of_isValid valid
  have finds := finder_find_eq_ok_iff.mpr found
  constructor
  · rintro (isError | ⟨_, isOk, first⟩)
    · cases finds.symm.trans isError
    · cases finds.symm.trans isOk
      exact ⟨edits, found, first⟩
  · rintro ⟨_, isOk, first⟩
    cases found.symm.trans isOk
    exact .edit edits finds first

end Kind

/-- The edits of a search for kinds are of these kinds, and proposed as such. -/
theorem kind_of_mem_discoverWith {verify : Bool} {proposals : List (Proposal Edit)}
    (isOk : discoverWith (kinds.map Kind.finder) scan verify shader = .ok proposals) :
    ∀ proposal ∈ proposals, proposal.kind ∈ kinds ∧ proposal.edit.kind = proposal.kind := by
  intro proposal listed
  obtain ⟨finder, isFinder, edits, found, edit, isEdit, rfl⟩ :=
    exists_of_mem_discoverWith isOk listed
  obtain ⟨kind, isKind, rfl⟩ := List.mem_map.mp isFinder
  exact ⟨isKind, Kind.kind_of_mem_find (Kind.finder_find_eq_ok_iff.mp found) edit isEdit⟩

/-- The verified search for kinds in a valid shader fails for the first edit that breaks it, of
the first kind that has one. -/
theorem discover_eq_error_iff_of_isValid (valid : shader.IsValid scan.version) :
    discover kinds scan true shader = .error failure ↔
      FirstOf (fun kind => kind.finder.Verifies scan shader)
        (fun kind => ∃ edits, kind.find scan shader = .ok edits ∧
          FirstOf (Verifies scan.version shader) (Breaks scan.version shader kind failure) edits)
        kinds := by
  rw [discover, map_eq_error_iff, discoverWith_of_isValid valid, discoverEach_eq_error_iff,
    firstOf_map]
  simp only [Kind.fails_finder_iff valid]

end

end Reduction
end Whittle
