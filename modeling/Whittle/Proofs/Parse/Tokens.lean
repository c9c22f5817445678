import Mathlib.Data.List.Basic
import Whittle.Proofs.Parse.Reader

namespace Whittle
namespace Parse

/-!
# What readers make of a token

A token is read off the beginning of a text whatever comes behind it, as long as
that cannot be taken for a part of the token.  Blanks and comments in front of a
token do not count, so what is said about a reader is said about the text that
shows behind them.
-/

variable {input chars rest : List Char}

/-- Behind its blanks and comments the text goes on with `chars`. -/
def Shows (input chars : List Char) : Prop :=
  afterGap .open input = .ok chars

/-- No gap follows a gap. -/
theorem afterGap_eq_self {where? : Gap} (behind : afterGap where? input = .ok chars) :
    afterGap .open chars = .ok chars := by
  fun_induction afterGap where? input with
  | case1 => grind
  | _ => grind [afterGap]

theorem Shows.self (shown : Shows input chars) : Shows chars chars :=
  afterGap_eq_self shown

theorem Shows.unique {chars' : List Char} (shown : Shows input chars)
    (shown' : Shows input chars') : chars = chars' := by
  have same : Except.ok chars = Except.ok chars' := shown.symm.trans shown'
  exact Except.ok.inj same

/-- What is no slash is a blank, or a gap ends in front of it. -/
theorem afterGap_open_cons {c : Char} (notSlash : c ≠ '/') :
    afterGap .open (c :: rest) =
      if Text.isTokenBlank c then afterGap .open rest else .ok (c :: rest) := by
  rw [afterGap]
  · exact fun _ isSlash => absurd isSlash notSlash
  · exact fun _ isSlash => absurd isSlash notSlash

/-- A blank in front of a text changes nothing. -/
theorem shows_blank_iff {c : Char} (blank : Text.isTokenBlank c = true) :
    Shows (c :: rest) chars ↔ Shows rest chars := by
  have notSlash : c ≠ '/' := by
    rintro rfl
    revert blank
    decide
  rw [Shows, afterGap_open_cons notSlash, if_pos blank, Shows]

@[simp] theorem shows_space_iff : Shows (' ' :: rest) chars ↔ Shows rest chars :=
  shows_blank_iff rfl

@[simp] theorem shows_newline_iff : Shows ('\n' :: rest) chars ↔ Shows rest chars :=
  shows_blank_iff rfl

/-- A character that neither is a blank nor begins a comment shows at once. -/
theorem shows_cons {c : Char} (notBlank : Text.isTokenBlank c = false) (notSlash : c ≠ '/') :
    Shows (c :: rest) (c :: rest) := by
  rw [Shows, afterGap_open_cons notSlash, notBlank, if_neg Bool.false_ne_true]

/-- So does a slash that begins no comment. -/
theorem shows_slash {c : Char} (notSlash : c ≠ '/') (notStar : c ≠ '*') :
    Shows ('/' :: c :: rest) ('/' :: c :: rest) := by
  rw [Shows, afterGap]
  · rfl
  · grind
  · grind

theorem shows_nil : Shows [] [] :=
  rfl

theorem Shows.gap_eq (shown : Shows input chars) : gap input = .ok ((), chars) := by
  rw [gap, shown]
  rfl

/-- The two texts show the same behind their blanks. -/
def Like (input text : List Char) : Prop :=
  afterGap .open input = afterGap .open text

theorem Like.shows {text : List Char} (like : Like input text) (shown : Shows text chars) :
    Shows input chars :=
  like.trans shown

theorem Shows.like {text : List Char} (shown : Shows input chars) (shown' : Shows text chars) :
    Like input text :=
  shown.trans shown'.symm

theorem Like.gap_eq {text : List Char} (like : Like input text) : gap input = gap text := by
  rw [gap, gap, show afterGap .open input = _ from like]

/-- A reader that begins with a gap reads the two texts alike. -/
theorem Like.atToken_eq {text : List Char} (like : Like input text) (mark : String) :
    atToken mark input = atToken mark text :=
  Reader.bind_congr like.gap_eq

theorem isPrefixOf?_append_self (front : List Char) :
    front.isPrefixOf? (front ++ rest) = some rest :=
  List.isPrefixOf?_eq_some_iff_append_eq.mpr rfl

theorem Shows.atToken_eq (shown : Shows input chars) (mark : String) :
    atToken mark input = .ok (mark.toList.isPrefixOf chars, chars) := by
  unfold atToken
  rw [Reader.bind_eq_of_ok shown.gap_eq]
  rfl

theorem Shows.token_eq {mark : String} (shown : Shows input (mark.toList ++ rest)) :
    token mark input = .ok ((), rest) := by
  unfold token
  rw [Reader.bind_eq_of_ok shown.gap_eq, Reader.get_bind, isPrefixOf?_append_self]
  rfl

theorem Shows.token_eq_error {mark : String} (shown : Shows input chars)
    (missing : mark.toList.isPrefixOf chars = false) :
    token mark input = .error ⟨.expected mark, chars⟩ := by
  have absent : mark.toList.isPrefixOf? chars = none := by
    rw [← Option.not_isSome_iff_eq_none, List.isSome_isPrefixOf?_eq_isPrefixOf, missing]
    exact Bool.false_ne_true
  unfold token
  rw [Reader.bind_eq_of_ok shown.gap_eq, Reader.get_bind, absent]
  rfl

/-- The marks that are tokens on their own. -/
def marks : List Char :=
  ['(', ')', '[', ']', '\x7b', '\x7d', ';', ':', ',', '=']

theorem shows_mark {mark : Char} (listed : mark ∈ marks) :
    Shows (mark :: rest) (mark :: rest) := by
  simp only [marks, List.mem_cons, List.not_mem_nil, or_false] at listed
  rcases listed with rfl | rfl | rfl | rfl | rfl | rfl | rfl | rfl | rfl | rfl <;>
  exact shows_cons rfl (by decide)

theorem token_openParen : token "(" ('(' :: rest) = .ok ((), rest) :=
  Shows.token_eq (shows_mark (by decide) : Shows ('(' :: rest) _)

theorem token_closeParen : token ")" (')' :: rest) = .ok ((), rest) :=
  Shows.token_eq (shows_mark (by decide) : Shows (')' :: rest) _)

theorem token_openBrace : token "\x7b" ('\x7b' :: rest) = .ok ((), rest) :=
  Shows.token_eq (shows_mark (by decide) : Shows ('\x7b' :: rest) _)

theorem token_closeBrace : token "\x7d" ('\x7d' :: rest) = .ok ((), rest) :=
  Shows.token_eq (shows_mark (by decide) : Shows ('\x7d' :: rest) _)

theorem token_semicolon : token ";" (';' :: rest) = .ok ((), rest) :=
  Shows.token_eq (shows_mark (by decide) : Shows (';' :: rest) _)

theorem token_colon : token ":" (':' :: rest) = .ok ((), rest) :=
  Shows.token_eq (shows_mark (by decide) : Shows (':' :: rest) _)

theorem token_comma : token "," (',' :: rest) = .ok ((), rest) :=
  Shows.token_eq (shows_mark (by decide) : Shows (',' :: rest) _)

/-- A space in front of a token does not count. -/
theorem token_space (mark : String) : token mark (' ' :: rest) = token mark rest :=
  rfl

/-- Whether a text is a word from its first to its last character. -/
def isWord (name : String) : Bool :=
  match name.toList with
  | [] => false
  | c :: rest => isWordStart c && rest.all isWordChar

theorem isWordChar_of_isWordStart {c : Char} (starts : isWordStart c = true) :
    isWordChar c = true := by
  rw [isWordStart, Bool.or_eq_true] at starts
  rw [isWordChar, Char.isAlphanum, Bool.or_eq_true, Bool.or_eq_true]
  rcases starts with isAlpha | isLow
  · exact .inl (.inl isAlpha)
  · exact .inr isLow

theorem exists_cons_of_isWord {name : String} (word : isWord name = true) :
    ∃ c tail, name.toList = c :: tail ∧ isWordStart c = true ∧
      ∀ other ∈ tail, isWordChar other = true := by
  unfold isWord at word
  split at word
  · cases word
  · rename_i c tail split
    rw [Bool.and_eq_true, List.all_eq_true] at word
    exact ⟨c, tail, split, word.1, word.2⟩

theorem isWordChar_of_isWord {name : String} (word : isWord name = true) :
    ∀ c ∈ name.toList, isWordChar c = true := by
  rcases exists_cons_of_isWord word with ⟨c, tail, split, starts, goesOn⟩
  rw [split]
  intro other listed
  rcases List.mem_cons.mp listed with rfl | behind
  · exact isWordChar_of_isWordStart starts
  · exact goesOn other behind

theorem ne_slash_of_isWordStart {c : Char} (starts : isWordStart c = true) : c ≠ '/' := by
  rintro rfl
  revert starts
  decide

theorem not_isTokenBlank_of_isWordStart {c : Char} (starts : isWordStart c = true) :
    Text.isTokenBlank c = false := by
  by_contra blank
  simp only [Text.isTokenBlank, Bool.not_eq_false, Bool.or_eq_true, beq_iff_eq] at blank
  rcases blank with (((rfl | rfl) | rfl) | rfl) | rfl <;> revert starts <;> decide

/-- No digit begins a word. -/
theorem not_isWordStart_of_isDigit {c : Char} (isDigit : c.isDigit = true) :
    isWordStart c = false := by
  have notLow : c ≠ '_' := by
    rintro rfl
    revert isDigit
    decide
  rw [Char.isDigit, Bool.and_eq_true, decide_eq_true_iff, decide_eq_true_iff] at isDigit
  -- The digits come before the letters.
  have notUpper : c.isUpper = false := decide_eq_false fun isUpper =>
    absurd (UInt32.le_trans isUpper.1 isDigit.2) (by decide)
  have notLower : c.isLower = false := Bool.and_eq_false_iff.mpr <| .inl <|
    decide_eq_false fun above => absurd (UInt32.le_trans above isDigit.2) (by decide)
  have notAlpha : c.isAlpha = false := Bool.or_eq_false_iff.mpr ⟨notUpper, notLower⟩
  rw [isWordStart, notAlpha, beq_false_of_ne notLow, Bool.or_false]

/-- A word shows at once. -/
theorem shows_word {name : String} (word : isWord name = true) :
    Shows (name.toList ++ rest) (name.toList ++ rest) := by
  rcases exists_cons_of_isWord word with ⟨c, tail, split, starts, _⟩
  rw [split]
  exact shows_cons (not_isTokenBlank_of_isWordStart starts) (ne_slash_of_isWordStart starts)

/-- A run of characters that ends where the text no longer goes on in the same
way is the longest one. -/
theorem takeWhile_append_eq {holds : Char → Bool} {run : List Char}
    (all : ∀ c ∈ run, holds c = true) (ends : ∀ c ∈ rest.head?, holds c = false) :
    (run ++ rest).takeWhile holds = run := by
  rw [List.takeWhile_append_of_pos all]
  cases rest with
  | nil => simp
  | cons c rest => simp [ends c rfl]

theorem dropWhile_append_eq {holds : Char → Bool} {run : List Char}
    (all : ∀ c ∈ run, holds c = true) (ends : ∀ c ∈ rest.head?, holds c = false) :
    (run ++ rest).dropWhile holds = rest := by
  rw [List.dropWhile_append_of_pos all]
  cases rest with
  | nil => simp
  | cons c rest => simp [ends c rfl]

/-- Where a text does not go on with a character of a word, a word ends. -/
theorem not_isWordChar_head (ends : goesOn rest = false) :
    ∀ c ∈ rest.head?, isWordChar c = false := by
  cases rest with
  | nil => simp
  | cons c rest =>
      rintro other ⟨⟩
      exact ends

theorem takeWhile_word {name : String} (word : isWord name = true)
    (ends : goesOn rest = false) : (name.toList ++ rest).takeWhile isWordChar = name.toList :=
  takeWhile_append_eq (isWordChar_of_isWord word) (not_isWordChar_head ends)

theorem Shows.word_eq {name : String} (shown : Shows input (name.toList ++ rest))
    (isName : isWord name = true) (ends : goesOn rest = false) :
    word input = .ok (name, rest) := by
  rcases exists_cons_of_isWord isName with ⟨c, tail, split, starts, inside⟩
  have isSplit : name = String.ofList (c :: tail) := by rw [← split, String.ofList_toList]
  rw [split] at shown
  unfold word
  rw [Reader.bind_eq_of_ok shown.gap_eq, Reader.get_bind]
  dsimp only [List.cons_append]
  rw [if_pos starts, Reader.set_bind, Reader.pure_eq,
    dropWhile_append_eq inside (not_isWordChar_head ends),
    takeWhile_append_eq inside (not_isWordChar_head ends), isSplit]

/-- There is no word where no character begins one. -/
theorem Shows.word_eq_error (shown : Shows input chars)
    (noWord : ∀ c ∈ chars.head?, isWordStart c = false) :
    word input = .error ⟨.unexpected, chars⟩ := by
  unfold word
  rw [Reader.bind_eq_of_ok shown.gap_eq, Reader.get_bind]
  cases chars with
  | nil => rfl
  | cons c rest =>
      dsimp only
      rw [noWord c rfl, if_neg Bool.false_ne_true]
      rfl

theorem behindKeyword?_self {name : String} (ends : goesOn rest = false) :
    behindKeyword? name (name.toList ++ rest) = some rest := by
  rw [behindKeyword?, isPrefixOf?_append_self, Option.filter_some, ends]
  rfl

/-- A text that begins with a keyword has it as its longest beginning that is
made of the characters of words. -/
theorem takeWhile_of_behindKeyword? {name : String} (isName : isWord name = true)
    (behind : behindKeyword? name input = some rest) :
    input.takeWhile isWordChar = name.toList := by
  rw [behindKeyword?, Option.filter_eq_some_iff] at behind
  rw [← List.isPrefixOf?_eq_some_iff_append_eq.mp behind.1]
  exact takeWhile_word isName (by simpa using behind.2)

/-- One word is no other word. -/
theorem behindKeyword?_eq_none_of_ne {name other : String} (isName : isWord name = true)
    (isOther : isWord other = true) (differ : other ≠ name) (ends : goesOn rest = false) :
    behindKeyword? name (other.toList ++ rest) = none := by
  cases found : behindKeyword? name (other.toList ++ rest) with
  | none => rfl
  | some behind =>
      have same := takeWhile_of_behindKeyword? isName found
      rw [takeWhile_word isOther ends] at same
      exact absurd (String.toList_inj.mp same) differ

/-- Where no character begins a word there is no keyword. -/
theorem behindKeyword?_eq_none_of_head {name : String} (isName : isWord name = true)
    (noWord : ∀ c ∈ input.head?, isWordStart c = false) : behindKeyword? name input = none := by
  rcases exists_cons_of_isWord isName with ⟨c, tail, split, starts, _⟩
  cases found : behindKeyword? name input with
  | none => rfl
  | some behind =>
      rw [behindKeyword?, Option.filter_eq_some_iff] at found
      have isSplit := List.isPrefixOf?_eq_some_iff_append_eq.mp found.1
      rw [split] at isSplit
      rw [← isSplit] at noWord
      rw [noWord c rfl] at starts
      cases starts

theorem atKeyword_eq {name : String} :
    atKeyword name input = .ok ((behindKeyword? name input).isSome, input) :=
  rfl

theorem atKeyword_eq_true {name : String} (ends : goesOn rest = false) :
    atKeyword name (name.toList ++ rest) = .ok (true, name.toList ++ rest) := by
  rw [atKeyword_eq, behindKeyword?_self ends]
  rfl

theorem atKeyword_eq_false {name : String} (absent : behindKeyword? name input = none) :
    atKeyword name input = .ok (false, input) := by
  rw [atKeyword_eq, absent]
  rfl

/-- A reader that looks for a keyword first goes on in one way where it is. -/
theorem ifKeyword_eq_first {α : Type} {name : String} {first second : Reader α}
    (ends : goesOn rest = false) :
    (do if ← atKeyword name then first else second : Reader α) (name.toList ++ rest) =
      first (name.toList ++ rest) :=
  Reader.bind_eq_of_ok (atKeyword_eq_true ends)

/-- And it goes on in the other way where the keyword is missing. -/
theorem ifKeyword_eq_second {α : Type} {name : String} {first second : Reader α}
    (absent : behindKeyword? name input = none) :
    (do if ← atKeyword name then first else second : Reader α) input = second input :=
  Reader.bind_eq_of_ok (atKeyword_eq_false absent)

theorem Shows.keyword_eq {name : String} (shown : Shows input (name.toList ++ rest))
    (ends : goesOn rest = false) : keyword name input = .ok ((), rest) := by
  unfold keyword
  rw [Reader.bind_eq_of_ok shown.gap_eq, Reader.get_bind, behindKeyword?_self ends]
  rfl

theorem isWord_of_mem_reserved {name : String} (listed : name ∈ reserved) :
    isWord name = true := by
  revert name
  decide

end Parse
end Whittle
