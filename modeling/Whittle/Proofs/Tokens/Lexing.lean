import Whittle.Proofs.Parse.Beginnings

namespace Whittle

/-!
# The tokens of a text

Behind its blanks and comments a text goes on with a word, a number, a mark or a directive,
and each of them is as long as it can be.  The tokens of a text are what is found in this
way from its beginning to its end, whether the text is a shader or not.
-/

/-- A token of a text.  A directive takes the rest of its line, and it is kept without the
character that announces it. -/
inductive Token where
  | directive (line : List Char)
  | word (name : String)
  | int (digits : List Char)
  | float (text : List Char)
  | mark (text : String)
deriving DecidableEq

namespace Parse

variable {input chars rest : List Char}

/-- Whether two characters make up one mark: an operator with an equals sign behind it, or
one that is written twice. -/
def isPair (c d : Char) : Bool :=
  (d == '=' && ['=', '!', '<', '>', '+', '-', '*', '/'].contains c) ||
    (d == c && ['|', '^', '&', '+', '-'].contains c)

/-- The mark that begins with a given character, and what follows it. -/
def firstMark (c : Char) : List Char → Token × List Char
  | [] => (.mark (String.ofList [c]), [])
  | d :: rest =>
      if isPair c d then (.mark (String.ofList [c, d]), rest)
      else (.mark (String.ofList [c]), d :: rest)

/-- The token at the very beginning of a text, and what follows it. -/
def firstToken? : List Char → Option (Token × List Char)
  | [] => none
  | c :: rest =>
      if isWordStart c then
        some (.word (String.ofList (c :: rest.takeWhile isWordChar)), rest.dropWhile isWordChar)
      else if c == '#' then
        some (.directive (rest.takeWhile (· != '\n')), rest.dropWhile (· != '\n'))
      else match floatText? (c :: rest) with
        | some (text, rest) => some (.float text, rest)
        | none =>
            match digits? (c :: rest) with
            | some (digits, rest) => some (.int digits, rest)
            | none => some (firstMark c rest)

theorem length_lt_of_digits? {digits : List Char} (areDigits : digits? input = some (digits, rest)) :
    rest.length < input.length := by
  rcases head?_of_digits? areDigits with ⟨c, tail, rfl, _⟩
  rw [eq_append_of_digits? areDigits, List.length_append, List.length_cons]
  omega

theorem length_lt_of_floatText? {text : List Char} (isFloat : floatText? input = some (text, rest)) :
    rest.length < input.length := by
  rcases exists_cons_of_floatText? isFloat with ⟨c, tail, rfl, _⟩
  rw [eq_append_of_floatText? isFloat, List.length_append, List.length_cons]
  omega

theorem length_lt_of_firstToken? {token : Token} (found : firstToken? input = some (token, rest)) :
    rest.length < input.length := by
  have dropped : ∀ (holds : Char → Bool) (c : Char) (tail : List Char),
      (tail.dropWhile holds).length < (c :: tail).length := fun holds c tail =>
    Nat.lt_succ_of_le (List.dropWhile_suffix holds).length_le
  cases input with
  | nil => cases found
  | cons c tail =>
      rw [firstToken?] at found
      split at found
      · cases found
        exact dropped _ _ _
      split at found
      · cases found
        exact dropped _ _ _
      split at found
      · rename_i isFloat
        cases found
        exact length_lt_of_floatText? isFloat
      split at found
      · rename_i areDigits
        cases found
        exact length_lt_of_digits? areDigits
      · cases tail with
        | nil =>
            cases found
            exact Nat.zero_lt_one
        | cons d tail =>
            rw [firstMark] at found
            split at found <;> cases found <;> simp only [List.length_cons] <;> omega

/-- The tokens of a text, up to a comment that is not closed. -/
def tokens (input : List Char) : List Token :=
  match _behind : afterGap .open input with
  | .error _ => []
  | .ok chars =>
      match _found : firstToken? chars with
      | none => []
      | some (token, rest) => token :: tokens rest
termination_by input.length
decreasing_by
  exact Nat.lt_of_lt_of_le (length_lt_of_firstToken? _found) (afterGap_suffix _behind).length_le

theorem tokens_eq_cons {token : Token} (shown : Shows input chars)
    (found : firstToken? chars = some (token, rest)) : tokens input = token :: tokens rest := by
  rw [tokens]
  split
  · rename_i fails
    cases shown.symm.trans fails
  · rename_i chars' shown'
    cases shown.symm.trans shown'
    split
    · rename_i none
      cases found.symm.trans none
    · rename_i found'
      cases found.symm.trans found'
      rfl

theorem tokens_eq_nil (shown : Shows input chars) (none : firstToken? chars = none) :
    tokens input = [] := by
  rw [tokens]
  split
  · rfl
  · rename_i chars' shown'
    cases shown.symm.trans shown'
    split
    · rfl
    · rename_i found
      cases none.symm.trans found

theorem tokens_nil : tokens [] = [] :=
  tokens_eq_nil (rfl : Shows [] []) rfl

/-- Blanks and comments are no tokens. -/
theorem Like.tokens_eq {text : List Char} (like : Like input text) : tokens input = tokens text := by
  rw [tokens, tokens, show afterGap .open input = afterGap .open text from like]

theorem Shows.tokens_eq (shown : Shows input chars) : tokens input = tokens chars :=
  Like.tokens_eq (shown.like shown.self)

@[simp] theorem tokens_space : tokens (' ' :: rest) = tokens rest :=
  Like.tokens_eq (afterGap_open_cons (by decide))

@[simp] theorem tokens_newline : tokens ('\n' :: rest) = tokens rest :=
  Like.tokens_eq (afterGap_open_cons (by decide))

theorem firstToken?_word {name : String} (isName : isWord name = true) (ends : goesOn rest = false) :
    firstToken? (name.toList ++ rest) = some (.word name, rest) := by
  rcases exists_cons_of_isWord isName with ⟨c, tail, split, starts, inside⟩
  have isSplit : name = String.ofList (c :: tail) := by rw [← split, String.ofList_toList]
  rw [split, List.cons_append, firstToken?, if_pos starts,
    dropWhile_append_eq inside (not_isWordChar_head ends),
    takeWhile_append_eq inside (not_isWordChar_head ends), ← isSplit]

theorem ReadsWord.tokens_eq {name : String} (read : ReadsWord input name rest) :
    tokens input = .word name :: tokens rest :=
  tokens_eq_cons read.shown (firstToken?_word read.isWord read.ends)

/-- What begins with a digit or a point is no word and no directive. -/
theorem firstToken?_of_digit {c : Char} {tail : List Char} (begins : (c.isDigit || c == '.') = true) :
    firstToken? (c :: tail) =
      match floatText? (c :: tail) with
      | some (text, rest) => some (.float text, rest)
      | none =>
          match digits? (c :: tail) with
          | some (digits, rest) => some (.int digits, rest)
          | none => some (firstMark c tail) := by
  have noWord : isWordStart c = false := by
    rw [Bool.or_eq_true, beq_iff_eq] at begins
    rcases begins with isDigit | rfl
    · exact not_isWordStart_of_isDigit isDigit
    · rfl
  have noHash : (c == '#') = false := by
    rw [beq_eq_false_iff_ne]
    rintro rfl
    cases begins
  rw [firstToken?, noWord, noHash, if_neg Bool.false_ne_true, if_neg Bool.false_ne_true]

theorem firstToken?_float {text : List Char} (isFloat : floatText? input = some (text, rest)) :
    firstToken? input = some (.float text, rest) := by
  rcases exists_cons_of_floatText? isFloat with ⟨c, tail, rfl, begins, _⟩
  obtain rfl := eq_append_of_floatText? isFloat
  rw [List.cons_append] at isFloat ⊢
  rw [firstToken?_of_digit begins, isFloat]

theorem firstToken?_int {digits : List Char} (noFloat : floatText? input = none)
    (areDigits : digits? input = some (digits, rest)) :
    firstToken? input = some (.int digits, rest) := by
  rcases head?_of_digits? areDigits with ⟨c, tail, isCons, isDigit⟩
  have isSplit := eq_append_of_digits? areDigits
  rw [isCons, List.cons_append] at isSplit
  rw [isSplit] at noFloat areDigits ⊢
  rw [firstToken?_of_digit (by rw [isDigit, Bool.true_or]), noFloat, areDigits]

/-- Digits begin a float literal only with a point or an exponent behind them. -/
theorem floatText?_eq_none {digits : List Char} (areDigits : digits? input = some (digits, rest))
    (noPoint : rest.head? ≠ some '.') (noExponent : exponent? rest = none) :
    floatText? input = none := by
  cases rest with
  | nil =>
      unfold floatText?
      rw [areDigits]
      rfl
  | cons c tail =>
      have notPoint : c ≠ '.' := fun same => noPoint (congrArg some same)
      rw [floatText?_of_digits areDigits, if_neg notPoint, noExponent]
      rfl

/-- Whether a mark begins with the character, whatever follows it. -/
def isMarkStart (c : Char) : Bool :=
  !isWordStart c && c != '#' && !c.isDigit && c != '.'

theorem firstToken?_mark {c : Char} (isMark : isMarkStart c = true) :
    firstToken? (c :: rest) = some (firstMark c rest) := by
  simp only [isMarkStart, Bool.and_eq_true, Bool.not_eq_true', bne_iff_ne, ne_eq] at isMark
  rcases isMark with ⟨⟨⟨noWord, noHash⟩, noDigit⟩, noPoint⟩
  have noDigits : digits? (c :: rest) = none := by
    rw [digits?, List.takeWhile_cons, noDigit, if_neg Bool.false_ne_true]
  rw [firstToken?, noWord, if_neg Bool.false_ne_true, beq_false_of_ne noHash,
    if_neg Bool.false_ne_true, floatText?_of_no_digits noDigits, if_neg noPoint, noDigits]

/-- Two characters may make up a mark only if the second one is an equals sign or the first
one again. -/
theorem isPair_eq_false {c d : Char} (noEquals : d ≠ '=') (differ : d ≠ c) : isPair c d = false := by
  rw [isPair, beq_false_of_ne noEquals, beq_false_of_ne differ]
  rfl

/-- A mark of one character, which does not join what follows it. -/
theorem firstToken?_lone {c : Char} (isMark : isMarkStart c = true)
    (apart : ∀ d ∈ rest.head?, isPair c d = false) :
    firstToken? (c :: rest) = some (.mark (String.ofList [c]), rest) := by
  rw [firstToken?_mark isMark]
  cases rest with
  | nil => rfl
  | cons d tail => rw [firstMark, apart d rfl, if_neg Bool.false_ne_true]

theorem firstToken?_pair {c d : Char} (isMark : isMarkStart c = true) (joins : isPair c d = true) :
    firstToken? (c :: d :: rest) = some (.mark (String.ofList [c, d]), rest) := by
  rw [firstToken?_mark isMark, firstMark, if_pos joins]

/-- In front of a word, a point is a mark. -/
theorem firstToken?_point {c : Char} (starts : isWordStart c = true) :
    firstToken? ('.' :: c :: rest) = some (.mark ".", c :: rest) := by
  have noDigit : c.isDigit = false := by
    by_contra isDigit
    rw [not_isWordStart_of_isDigit (eq_true_of_ne_false isDigit)] at starts
    cases starts
  have noDigits : digits? (c :: rest) = none := by
    rw [digits?, List.takeWhile_cons, noDigit, if_neg Bool.false_ne_true]
  have apart : isPair '.' c = false := by
    rw [isPair]
    simp
  have noDigits' : digits? ('.' :: c :: rest) = none := rfl
  rw [firstToken?_of_digit rfl, floatText?_of_no_digits noDigits', if_pos rfl, noDigits, noDigits']
  dsimp only [Option.map_none]
  rw [firstMark, apart, if_neg Bool.false_ne_true]

end Parse
end Whittle
