import Whittle.Proofs.RoundTrip.Stmt

namespace Whittle
namespace Parse

/-!
# Reading declarations

A declaration takes lines of its own.  The reader of declarations leaves the
last line break behind, whatever stands there.
-/

open Stmt (linesOfList)

variable {fits : Expr → Bool} {fuel : Nat} {input rest next chars : List Char}

theorem precisionDecl_eq {decl : PrecisionDecl} (typed : decl.ty.isPrintable = true)
    (shown : Shows input ("precision".toList ++ ' ' :: (decl.precision.keyword.toList ++
      ' ' :: (decl.ty.text.toList ++ ';' :: rest)))) :
    precisionDecl input = .ok (.precision ⟨.unnumbered, decl.precision, decl.ty⟩, rest) := by
  rcases decl with ⟨id, precision, ty⟩
  have shownType : Shows (' ' :: (ty.text.toList ++ ';' :: rest)) (ty.text.toList ++ ';' :: rest) :=
    shows_space_iff.mpr (shows_word (Ty.isWord_text typed))
  have isRead : ∀ precision, (do
      let ty ← typeName
      token ";"
      return .precision ⟨.unnumbered, precision, ty⟩ : Reader Decl)
        (' ' :: (ty.text.toList ++ ';' :: rest)) =
      .ok (.precision ⟨.unnumbered, precision, ty⟩, rest) := by
    intro precision
    rw [Reader.bind_eq_of_ok (typeName_eq typed shownType rfl), Reader.bind_eq_of_ok token_semicolon]
    rfl
  have shownWord : ∀ {name : String}, isWord name = true →
      Shows (' ' :: (name.toList ++ ' ' :: (ty.text.toList ++ ';' :: rest)))
        (name.toList ++ ' ' :: (ty.text.toList ++ ';' :: rest)) := fun word =>
    shows_space_iff.mpr (shows_word word)
  have isWordOf : ∀ precision : Precision, isWord precision.keyword = true := by
    intro precision
    cases precision <;> rfl
  unfold precisionDecl
  rw [Reader.bind_eq_of_ok (shown.keyword_eq rfl),
    Reader.bind_eq_of_ok (shownWord (isWordOf precision)).gap_eq]
  cases precision with
  | low =>
      rw [Precision.keyword, Reader.bind_eq_of_ok (atKeyword_eq_true rfl),
        Reader.bind_eq_of_ok (atKeyword_eq_false rfl)]
      exact (Reader.bind_eq_of_ok ((shownWord rfl).self.keyword_eq rfl)).trans (isRead .low)
  | medium =>
      rw [Precision.keyword, Reader.bind_eq_of_ok (atKeyword_eq_false rfl),
        Reader.bind_eq_of_ok (atKeyword_eq_true rfl)]
      exact (Reader.bind_eq_of_ok ((shownWord rfl).self.keyword_eq rfl)).trans (isRead .medium)
  | high =>
      rw [Precision.keyword, Reader.bind_eq_of_ok (atKeyword_eq_false rfl),
        Reader.bind_eq_of_ok (atKeyword_eq_false rfl)]
      exact (Reader.bind_eq_of_ok ((shownWord rfl).self.keyword_eq rfl)).trans (isRead .high)

theorem structField_eq {field : Field} (printable : field.isPrintable = true)
    (shown : Shows input (field.ty.text.toList ++ ' ' :: (field.name.toList ++ ';' :: rest))) :
    structField input = .ok (⟨.unnumbered, field.ty, field.name⟩, rest) := by
  rw [Field.isPrintable, Bool.and_eq_true] at printable
  refine (typed_eq printable.1 printable.2 shown rfl).trans ?_
  exact Reader.bind_eq_of_ok token_semicolon

theorem toList_fieldLine (field : Field) :
    field.line.toList = (indent 1).toList ++ (field.ty.text.toList ++
      ' ' :: (field.name.toList ++ [';', '\n'])) := by
  simp [Field.line]

/-- There are no more fields than characters in their lines. -/
theorem length_le_fieldLines (fields : List Field) :
    fields.length ≤ (String.join (fields.map Field.line)).toList.length := by
  induction fields with
  | nil => exact Nat.zero_le _
  | cons field fields inductionHypothesis =>
      rw [List.map_cons, String.join_cons, String.toList_append, toList_fieldLine]
      simp only [List.length_append, List.length_cons]
      omega

/-- The fields of a struct are read one by one up to its end. -/
theorem manyUntil_eq_fields {fields : List Field} (printable : fields.all Field.isPrintable = true)
    (count : fields.length < fuel) (behind : Shows rest ('\x7d' :: chars))
    (like : Like input ((String.join (fields.map Field.line)).toList ++ rest)) :
    ∃ fields', Reader.manyUntil (atToken "\x7d") structField fuel input =
        .ok (fields', '\x7d' :: chars) ∧
      fields'.map Field.shape = fields.map Field.shape := by
  have closes : Closes (atToken "\x7d") ('\x7d' :: chars) := closes_brace
  induction fields generalizing input fuel with
  | nil =>
      rcases Nat.exists_eq_succ_of_ne_zero (Nat.ne_of_gt count) with ⟨fuel, rfl⟩
      exact ⟨[], Reader.manyUntil_eq_nil (closes.closes (like.shows behind)), rfl⟩
  | cons field fields inductionHypothesis =>
      rcases Nat.exists_eq_succ_of_ne_zero (Nat.ne_of_gt (Nat.zero_lt_of_lt count)) with ⟨fuel, rfl⟩
      rw [List.all_cons, Bool.and_eq_true] at printable
      rw [List.map_cons, String.join_cons, String.toList_append, toList_fieldLine] at like
      simp only [List.append_assoc, List.cons_append, List.nil_append] at like
      have typed : field.ty.isPrintable = true := by
        have fieldPrintable := printable.1
        rw [Field.isPrintable, Bool.and_eq_true] at fieldPrintable
        exact fieldPrintable.1
      have begins : BeginsStmt (field.ty.text.toList ++ ' ' :: (field.name.toList ++ ';' :: '\n' ::
          ((String.join (fields.map Field.line)).toList ++ rest))) := by
        refine (beginsSimply_word (Ty.isWord_text typed) ?_ rfl).beginsStmt
        exact not_mem_of_isReserved (Ty.isReserved_text typed)
      have shown := like.shows (shows_indent_iff.mpr begins.shows)
      rcases inductionHypothesis printable.2 (Nat.lt_of_succ_lt_succ count) (rfl : Like ('\n' :: _) _) with
        ⟨fields', areRead, same⟩
      refine ⟨⟨.unnumbered, field.ty, field.name⟩ :: fields',
        Reader.manyUntil_eq_cons (closes.stays shown begins)
          (structField_eq printable.1 begins.shows) areRead, ?_⟩
      rw [List.map_cons, List.map_cons, same]
      rfl

theorem structDecl_eq {decl : StructDecl} (named : isName decl.name = true)
    (printable : decl.fields.all Field.isPrintable = true)
    (count : (String.join (decl.fields.map Field.line)).toList.length < fuel)
    (shown : Shows input ("struct".toList ++ ' ' :: (decl.name.toList ++ ' ' :: '\x7b' :: '\n' ::
      ((String.join (decl.fields.map Field.line)).toList ++ '\x7d' :: ';' :: rest)))) :
    ∃ decl', structDecl fuel input = .ok (.struct decl', rest) ∧ decl.Alike decl' := by
  have shownName : Shows (' ' :: (decl.name.toList ++ ' ' :: '\x7b' :: '\n' ::
      ((String.join (decl.fields.map Field.line)).toList ++ '\x7d' :: ';' :: rest))) _ :=
    shows_space_iff.mpr (shows_word (isWord_of_isName named))
  have enough := Nat.lt_of_le_of_lt (length_le_fieldLines decl.fields) count
  rcases manyUntil_eq_fields printable enough
    (shows_cons rfl (by decide) : Shows ('\x7d' :: ';' :: rest) _) (rfl : Like ('\n' :: _) _) with
    ⟨fields', areRead, same⟩
  refine ⟨⟨.unnumbered, decl.name, fields'⟩, ?_, rfl, same⟩
  unfold structDecl
  rw [Reader.bind_eq_of_ok (shown.keyword_eq rfl),
    Reader.bind_eq_of_ok (identifier_eq named shownName rfl),
    Reader.bind_eq_of_ok ((token_space _).trans token_openBrace), Reader.bind_eq_of_ok areRead,
    Reader.bind_eq_of_ok token_closeBrace, Reader.bind_eq_of_ok token_semicolon]
  rfl

def moreParams (params : List Param) : List Char :=
  params.flatMap fun param => ',' :: ' ' :: param.text.toList

theorem toList_paramTexts_cons (param : Param) (params : List Param) :
    (", ".intercalate ((param :: params).map Param.text)).toList =
      param.text.toList ++ moreParams params := by
  induction params generalizing param with
  | nil =>
      rw [List.map_cons, List.map_nil, String.intercalate_singleton]
      exact (List.append_nil _).symm
  | cons next params inductionHypothesis =>
      have behind := inductionHypothesis next
      rw [List.map_cons] at behind
      rw [List.map_cons, List.map_cons, String.intercalate_cons_cons, String.toList_append, behind]
      simp [moreParams]

theorem paramText_append (param : Param) (rest : List Char) :
    param.text.toList ++ rest = param.ty.text.toList ++ ' ' :: (param.name.toList ++ rest) := by
  simp [Param.text]

/-- No parameter begins like a list of none, or like one with a qualifier. -/
theorem behindKeyword?_paramText {param : Param} (printable : param.isPrintable = true)
    {name : String} (listed : name ∈ ["void", "in"]) :
    behindKeyword? name (param.text.toList ++ rest) = none := by
  simp only [Param.isPrintable, Bool.and_eq_true, bne_iff_ne] at printable
  rcases printable with ⟨⟨typed, notVoid⟩, named⟩
  have word : ∀ name ∈ ["void", "in"], isWord name = true := by decide
  have differ : param.ty.text ≠ name := by
    intro same
    have isType := Ty.ofName_text typed
    have free := Ty.isReserved_text typed
    simp only [List.mem_cons, List.not_mem_nil, or_false] at listed
    rcases listed with rfl | rfl
    · rw [same] at isType
      exact notVoid isType.symm
    · rw [same] at free
      cases free
  rw [paramText_append]
  exact behindKeyword?_eq_none_of_ne (word name listed) (Ty.isWord_text typed) differ rfl

theorem shows_paramText {param : Param} (printable : param.isPrintable = true) :
    Shows (param.text.toList ++ rest) (param.text.toList ++ rest) := by
  simp only [Param.isPrintable, Bool.and_eq_true] at printable
  rw [paramText_append]
  exact shows_word (Ty.isWord_text printable.1.1)

theorem parameter_eq {param : Param} (printable : param.isPrintable = true)
    (shown : Shows input (param.text.toList ++ rest)) (ends : goesOn rest = false) :
    parameter input = .ok (⟨.unnumbered, param.ty, param.name⟩, rest) := by
  have noIn : behindKeyword? "in" (param.text.toList ++ rest) = none :=
    behindKeyword?_paramText printable (by decide)
  unfold parameter
  rw [Reader.bind_eq_of_ok shown.gap_eq, Reader.bind_eq_of_ok (atKeyword_eq_false noIn)]
  rw [paramText_append] at shown ⊢
  simp only [Param.isPrintable, Bool.and_eq_true] at printable
  exact typed_eq printable.1.1 printable.2 shown.self ends

/-- Parameters behind commas are read up to the parenthesis. -/
theorem manyBehind_eq_params {params : List Param} (printable : params.all Param.isPrintable = true)
    (count : params.length ≤ fuel) :
    ∃ params', Reader.manyBehind (token ",") parameter fuel (moreParams params ++ ')' :: rest) =
        .ok (params', ')' :: rest) ∧
      params'.map Param.shape = params.map Param.shape := by
  induction params generalizing fuel with
  | nil =>
      have shown : Shows (')' :: rest) (')' :: rest) := shows_mark (by decide)
      exact ⟨[], Reader.manyBehind_eq_nil (shown.token_eq_error rfl), rfl⟩
  | cons param params inductionHypothesis =>
      rcases Nat.exists_eq_succ_of_ne_zero (Nat.ne_of_gt (Nat.zero_lt_of_lt count)) with ⟨fuel, rfl⟩
      rw [List.all_cons, Bool.and_eq_true] at printable
      rcases inductionHypothesis printable.2 (Nat.le_of_succ_le_succ count) with
        ⟨params', areRead, same⟩
      have split : moreParams (param :: params) ++ ')' :: rest =
          ',' :: ' ' :: (param.text.toList ++ (moreParams params ++ ')' :: rest)) := by
        simp [moreParams]
      have ends : goesOn (moreParams params ++ ')' :: rest) = false := by
        cases params <;> rfl
      have isRead := parameter_eq printable.1 (shows_space_iff.mpr (shows_paramText printable.1)) ends
      refine ⟨⟨.unnumbered, param.ty, param.name⟩ :: params', ?_, ?_⟩
      · rw [split]
        exact Reader.manyBehind_eq_cons token_comma isRead areRead
      · rw [List.map_cons, List.map_cons, same]
        rfl

/-! ## Functions -/

/-- The parameters of a function between their parentheses. -/
def paramChars (params : List Param) : List Char :=
  (", ".intercalate (params.map Param.text)).toList

/-- There are no more parameters than characters in their text. -/
theorem length_le_paramChars (params : List Param) :
    params.length ≤ (paramChars params).length + 1 := by
  cases params with
  | nil => exact Nat.zero_le _
  | cons param params =>
      have isLong : params.length ≤ (moreParams params).length := by
        induction params with
        | nil => exact Nat.zero_le _
        | cons param params inductionHypothesis =>
            simp only [moreParams, List.flatMap_cons, List.length_append, List.length_cons] at *
            omega
      rw [paramChars, toList_paramTexts_cons, List.length_append, List.length_cons]
      omega

/-- No parameter stands where the parenthesis is closed. -/
theorem exists_parameterList_eq_error (fuel : Nat) (shown : Shows input (')' :: rest)) :
    ∃ stop, parameterList fuel input = .error stop := by
  have noType : typeName (')' :: rest) = .error ⟨.unexpected, ')' :: rest⟩ := by
    unfold typeName
    rw [Reader.get_bind]
    refine Reader.bind_eq_of_error (shown.self.word_eq_error ?_)
    rintro c ⟨⟩
    decide
  have noParam : parameter input = .error ⟨.unexpected, ')' :: rest⟩ := by
    unfold parameter
    rw [Reader.bind_eq_of_ok shown.gap_eq, Reader.bind_eq_of_ok (atKeyword_eq_false rfl)]
    exact Reader.bind_eq_of_error noType
  exact ⟨_, Reader.bind_eq_of_error noParam⟩

/-- The parameters between the parentheses are read up to the closing one. -/
theorem parameterList_eq {params : List Param} (printable : params.all Param.isPrintable = true)
    (count : params.length ≤ fuel) :
    ∃ params', Reader.either (parameterList fuel) (pure []) (paramChars params ++ ')' :: rest) =
        .ok (params', ')' :: rest) ∧
      params'.map Param.shape = params.map Param.shape := by
  cases params with
  | nil =>
      have shown : Shows (')' :: rest) (')' :: rest) := shows_mark (by decide)
      rcases exists_parameterList_eq_error fuel shown with ⟨stop, fails⟩
      exact ⟨[], Reader.either_eq_second fails, rfl⟩
  | cons param params =>
      rw [List.all_cons, Bool.and_eq_true] at printable
      have ends : goesOn (moreParams params ++ ')' :: rest) = false := by
        cases params <;> rfl
      rcases manyBehind_eq_params printable.2 (Nat.le_of_succ_le count) with ⟨params', areRead, same⟩
      have isRead := parameter_eq printable.1 (shows_paramText printable.1) ends
      refine ⟨⟨.unnumbered, param.ty, param.name⟩ :: params', Reader.either_eq_first ?_, ?_⟩
      · rw [paramChars, toList_paramTexts_cons, List.append_assoc, parameterList,
          Reader.bind_eq_of_ok isRead, Reader.bind_eq_of_ok areRead]
        rfl
      · rw [List.map_cons, List.map_cons, same]
        rfl

/-- The parameters, or the parenthesis behind none, show at once and say that
there are some. -/
theorem shows_paramChars {params : List Param} (printable : params.all Param.isPrintable = true) :
    Shows (paramChars params ++ ')' :: rest) (paramChars params ++ ')' :: rest) ∧
      behindKeyword? "void" (paramChars params ++ ')' :: rest) = none := by
  cases params with
  | nil => exact ⟨shows_cons rfl (by decide), rfl⟩
  | cons param params =>
      rw [List.all_cons, Bool.and_eq_true] at printable
      rw [paramChars, toList_paramTexts_cons, List.append_assoc]
      exact ⟨shows_paramText printable.1, behindKeyword?_paramText printable.1 (by decide)⟩

theorem functionRest_eq (readable : FitToRead fits) {f : Function}
    (params : f.params.all Param.isPrintable = true)
    (stmts : Stmt.isPrintableList fits f.body.stmts = true)
    (paramCount : f.params.length ≤ fuel)
    (count : (linesOfList 1 f.body.stmts).toList.length < fuel) :
    ∃ f', functionRest fuel f.returnTy f.name ('(' :: (paramChars f.params ++
        ')' :: ' ' :: '\x7b' :: '\n' :: ((linesOfList 1 f.body.stmts).toList ++ '\x7d' :: rest))) =
      .ok (.function f', rest) ∧ f.Alike (ReadAs fits) f' := by
  have readsAll : StmtsReadBelow fits (statement fuel) fuel := statement_readsBelow readable fuel
  have reads : StmtsReadBelow fits (statement fuel) (linesOfList 1 f.body.stmts).toList.length :=
    readsAll.mono (Nat.le_of_lt count)
  have shownBody : Shows (' ' :: '\x7b' :: '\n' ::
      ((linesOfList (0 + 1) f.body.stmts).toList ++ ((indent 0).toList ++ '\x7d' :: rest)))
      ('\x7b' :: '\n' ::
        ((linesOfList (0 + 1) f.body.stmts).toList ++ ((indent 0).toList ++ '\x7d' :: rest))) :=
    shows_space_iff.mpr (shows_cons rfl (by decide))
  rcases braced_eq readable stmts reads count shownBody with ⟨stmts', areRead, alike⟩
  rcases parameterList_eq params paramCount with ⟨params', areReadParams, same⟩
  rcases shows_paramChars params with ⟨shownParams, notVoid⟩
  refine ⟨⟨.unnumbered, f.returnTy, f.name, params', ⟨.unnumbered, stmts'⟩⟩, ?_,
    ⟨rfl, rfl, same⟩, alike⟩
  unfold functionRest
  rw [Reader.bind_eq_of_ok token_openParen, Reader.bind_eq_of_ok shownParams.gap_eq,
    Reader.bind_eq_of_ok (atKeyword_eq_false notVoid)]
  refine (Reader.bind_eq_of_ok areReadParams).trans ?_
  refine (Reader.bind_eq_of_ok token_closeParen).trans ?_
  exact Reader.bind_eq_of_ok areRead

/-- A word that is no keyword is none of them. -/
theorem behindKeyword?_eq_none_of_free {name other : String} (word : isWord name = true)
    (free : isReserved name = false) (ends : goesOn rest = false) (listed : other ∈ reserved) :
    behindKeyword? other (name.toList ++ rest) = none := by
  refine behindKeyword?_eq_none_of_ne (isWord_of_mem_reserved listed) word ?_ ends
  rintro rfl
  rw [isReserved, List.contains_iff_mem.mpr listed] at free
  cases free

theorem qualifier_eq_none {name : String} (word : isWord name = true)
    (free : isReserved name = false) (ends : goesOn rest = false) :
    qualifier (name.toList ++ rest) = .ok (none, name.toList ++ rest) := by
  have noWord : ∀ {other : String}, other ∈ reserved →
      behindKeyword? other (name.toList ++ rest) = none :=
    behindKeyword?_eq_none_of_free word free ends
  unfold qualifier
  rw [Reader.bind_eq_of_ok (shows_word word).gap_eq, ifKeyword_eq_second (noWord (by decide)),
    ifKeyword_eq_second (noWord (by decide)), ifKeyword_eq_second (noWord (by decide)),
    ifKeyword_eq_second (noWord (by decide))]
  rfl

theorem qualifier_eq_some (storage : Qualifier) :
    qualifier (storage.keyword.toList ++ ' ' :: rest) = .ok (some storage, ' ' :: rest) := by
  have word : isWord storage.keyword = true := by
    cases storage <;> rfl
  have shown : Shows (storage.keyword.toList ++ ' ' :: rest) _ := shows_word word
  unfold qualifier
  rw [Reader.bind_eq_of_ok shown.gap_eq]
  cases storage with
  | const =>
      refine (ifKeyword_eq_first rfl).trans ?_
      exact Reader.bind_eq_of_ok (shown.keyword_eq rfl)
  | uniform =>
      refine (ifKeyword_eq_second rfl).trans ?_
      refine (ifKeyword_eq_first rfl).trans ?_
      exact Reader.bind_eq_of_ok (shown.keyword_eq rfl)
  | input =>
      refine (ifKeyword_eq_second rfl).trans ?_
      refine (ifKeyword_eq_second rfl).trans ?_
      refine (ifKeyword_eq_first rfl).trans ?_
      exact Reader.bind_eq_of_ok (shown.keyword_eq rfl)
  | output =>
      refine (ifKeyword_eq_second rfl).trans ?_
      refine (ifKeyword_eq_second rfl).trans ?_
      refine (ifKeyword_eq_second rfl).trans ?_
      refine (ifKeyword_eq_first rfl).trans ?_
      exact Reader.bind_eq_of_ok (shown.keyword_eq rfl)

/-- A word that is no keyword is the type of a function or of a variable. -/
theorem declaration_eq_typed {ty : Ty} {name : String} (typed : ty.isPrintable = true)
    (named : isName name = true) (ends : goesOn rest = false)
    (shown : Shows input (ty.text.toList ++ ' ' :: (name.toList ++ rest))) :
    declaration fuel input =
      (do
        let isFunction ← atToken "("
        if isFunction then functionRest fuel ty name
        else
          let var ← variableRest fuel none ty name
          return .global var : Reader Decl) rest := by
  have noWord : ∀ {other : String}, other ∈ reserved →
      behindKeyword? other (ty.text.toList ++ ' ' :: (name.toList ++ rest)) = none :=
    behindKeyword?_eq_none_of_free (Ty.isWord_text typed) (Ty.isReserved_text typed) rfl
  have unqualified := qualifier_eq_none (Ty.isWord_text typed) (Ty.isReserved_text typed)
    (rfl : goesOn (' ' :: (name.toList ++ rest)) = false)
  unfold declaration
  rw [Reader.bind_eq_of_ok shown.gap_eq, ifKeyword_eq_second (noWord (by decide)),
    ifKeyword_eq_second (noWord (by decide)), Reader.bind_eq_of_ok unqualified]
  exact typed_eq typed named shown.self ends

/-- Behind a qualifier stands a variable. -/
theorem declaration_eq_qualified {storage : Qualifier} {ty : Ty} {name : String}
    (typed : ty.isPrintable = true) (named : isName name = true) (ends : goesOn rest = false)
    (shown : Shows input (storage.keyword.toList ++
      ' ' :: (ty.text.toList ++ ' ' :: (name.toList ++ rest)))) :
    declaration fuel input =
      (do
        let var ← variableRest fuel (some storage) ty name
        return .global var : Reader Decl) rest := by
  have shownType : Shows (' ' :: (ty.text.toList ++ ' ' :: (name.toList ++ rest)))
      (ty.text.toList ++ ' ' :: (name.toList ++ rest)) :=
    shows_space_iff.mpr (shows_word (Ty.isWord_text typed))
  have noWord : ∀ {other : String}, other ∈ ["precision", "struct"] →
      behindKeyword? other (storage.keyword.toList ++
        ' ' :: (ty.text.toList ++ ' ' :: (name.toList ++ rest))) = none := by
    intro other listed
    have differ : isWord storage.keyword = true ∧
        ∀ other ∈ ["precision", "struct"], isWord other = true ∧ storage.keyword ≠ other := by
      cases storage <;> decide
    exact behindKeyword?_eq_none_of_ne (differ.2 other listed).1 differ.1 (differ.2 other listed).2 rfl
  unfold declaration
  rw [Reader.bind_eq_of_ok shown.gap_eq, ifKeyword_eq_second (noWord (by decide)),
    ifKeyword_eq_second (noWord (by decide)), Reader.bind_eq_of_ok (qualifier_eq_some storage)]
  exact typed_eq typed named shownType ends

section

variable (text : List Char)

theorem precisionText_append (decl : PrecisionDecl) :
    (Decl.precision decl).text.toList ++ text =
      "precision".toList ++ ' ' :: (decl.precision.keyword.toList ++
        ' ' :: (decl.ty.text.toList ++ ';' :: '\n' :: text)) := by
  simp [Decl.text]

theorem structText_append (decl : StructDecl) :
    (Decl.struct decl).text.toList ++ text =
      "struct".toList ++ ' ' :: (decl.name.toList ++ ' ' :: '\x7b' :: '\n' ::
        ((String.join (decl.fields.map Field.line)).toList ++ '\x7d' :: ';' :: '\n' :: text)) := by
  simp [Decl.text]

theorem globalText_append (var : VarDecl) :
    (Decl.global var).text.toList ++ text = var.text.toList ++ '\n' :: text := by
  simp [Decl.text]

theorem functionText_append (f : Function) :
    (Decl.function f).text.toList ++ text =
      f.returnTy.text.toList ++ ' ' :: (f.name.toList ++ '(' :: (paramChars f.params ++
        ')' :: ' ' :: '\x7b' :: '\n' ::
          ((linesOfList 1 f.body.stmts).toList ++ '\x7d' :: '\n' :: text))) := by
  simp [Decl.text, Function.text, paramChars]

end

/-- A global variable is no function, because no parenthesis follows its
name. -/
theorem exists_shows_initChars (init : Option Expr) :
    ∃ chars, Shows (initChars init ++ rest) chars ∧ "(".toList.isPrefixOf chars = false := by
  cases init with
  | none => exact ⟨_, shows_cons rfl (by decide), rfl⟩
  | some init => exact ⟨_, shows_space_iff.mpr (shows_cons rfl (by decide)), rfl⟩

theorem declaration_global_eq (readable : FitToRead fits) {var : VarDecl}
    (printable : var.isPrintable fits = true) (count : var.text.toList.length < fuel)
    (shown : Shows input (var.text.toList ++ rest)) :
    ∃ var', declaration fuel input = .ok (.global var', rest) ∧ var.Alike (ReadAs fits) var' := by
  rcases var with ⟨id, storage, ty, name, init⟩
  simp only [VarDecl.isPrintable, Bool.and_eq_true] at printable
  rcases printable with ⟨⟨typed, named⟩, fit⟩
  rw [toList_varText] at count shown
  simp only [List.length_append, List.length_cons] at count
  have short : (initChars init).length < fuel := by omega
  have isRead : variableRest fuel storage ty name (initChars init ++ rest) =
      .ok (⟨.unnumbered, storage, ty, name, init.map Expr.asRead⟩, rest) :=
    variableRest_eq (readable_of_all readable fit) short
  refine ⟨⟨.unnumbered, storage, ty, name, init.map Expr.asRead⟩, ?_, rfl, rfl, rfl,
    optionRel_readAs fit⟩
  cases storage with
  | none =>
      have shown : Shows input (ty.text.toList ++ ' ' :: (name.toList ++ (initChars init ++ rest))) := by
        simpa using shown
      rcases exists_shows_initChars init with ⟨chars, shownInit, noParen⟩
      have notFunction : atToken "(" (initChars init ++ rest) = .ok (false, chars) := by
        rw [shownInit.atToken_eq, noParen]
      rw [variableRest_congr (shownInit.like shownInit.self)] at isRead
      rw [declaration_eq_typed typed named (goesOn_initChars _ _) shown,
        Reader.bind_eq_of_ok notFunction]
      exact Reader.bind_eq_of_ok isRead
  | some storage =>
      have shown : Shows input (storage.keyword.toList ++
          ' ' :: (ty.text.toList ++ ' ' :: (name.toList ++ (initChars init ++ rest)))) := by
        simpa using shown
      rw [declaration_eq_qualified typed named (goesOn_initChars _ _) shown]
      exact Reader.bind_eq_of_ok isRead

/-- A declaration is read from its text up to its last line break. -/
theorem declaration_eq (readable : FitToRead fits) {decl : Decl}
    (printable : decl.isPrintable fits = true) (count : decl.text.toList.length < fuel)
    (shown : Shows input (decl.text.toList ++ rest)) :
    ∃ decl', declaration fuel input = .ok (decl', '\n' :: rest) ∧
      decl.Alike (ReadAs fits) decl' := by
  rw [← List.append_nil decl.text.toList] at count
  cases decl with
  | precision decl =>
      rw [Decl.isPrintable] at printable
      rw [precisionText_append] at shown
      refine ⟨.precision ⟨.unnumbered, decl.precision, decl.ty⟩, ?_, .precision⟩
      unfold declaration
      rw [Reader.bind_eq_of_ok shown.gap_eq, ifKeyword_eq_first rfl]
      exact precisionDecl_eq printable shown.self
  | struct decl =>
      rw [Decl.isPrintable, Bool.and_eq_true] at printable
      rw [structText_append] at count shown
      simp only [List.length_append, List.length_cons] at count
      have short : (String.join (decl.fields.map Field.line)).toList.length < fuel := by omega
      rcases structDecl_eq printable.1 printable.2 short shown.self with ⟨decl', isRead, same⟩
      refine ⟨.struct decl', ?_, .struct same⟩
      unfold declaration
      rw [Reader.bind_eq_of_ok shown.gap_eq, ifKeyword_eq_second rfl, ifKeyword_eq_first rfl]
      exact isRead
  | global var =>
      rw [Decl.isPrintable] at printable
      rw [globalText_append] at count shown
      rw [List.length_append] at count
      rcases declaration_global_eq readable printable (Nat.lt_of_le_of_lt (Nat.le_add_right _ _) count)
        shown with ⟨var', isRead, alike⟩
      exact ⟨.global var', isRead, .global alike⟩
  | function f =>
      simp only [Decl.isPrintable, Bool.and_eq_true] at printable
      rcases printable with ⟨⟨⟨typed, named⟩, params⟩, stmts⟩
      rw [functionText_append] at count shown
      simp only [List.length_append, List.length_cons] at count
      have many := length_le_paramChars f.params
      have paramCount : f.params.length ≤ fuel := by omega
      have short : (linesOfList 1 f.body.stmts).toList.length < fuel := by omega
      rcases functionRest_eq readable params stmts paramCount short with ⟨f', isRead, alike⟩
      refine ⟨.function f', ?_, .function alike⟩
      have isFunction : ∀ {text : List Char}, atToken "(" ('(' :: text) = .ok (true, '(' :: text) :=
        fun {text} => (shows_cons rfl (by decide) : Shows ('(' :: text) _).atToken_eq "("
      rw [declaration_eq_typed typed named (rfl : goesOn ('(' :: _) = false) shown,
        Reader.bind_eq_of_ok isFunction]
      exact isRead

end Parse
end Whittle
