import Mathlib.Data.List.TakeWhile
import Whittle.Proofs.Parse.Yields

namespace Whittle
namespace Parse

/-!
# Where tokens stop

No token but a comment goes beyond a blank, a semicolon or a closing brace, unless it is
that character.  So what is found at the beginning of a text, a number or an operator, can be
told from the characters in front of the first such character.
-/

variable {input chars rest : List Char}

/-- Whether the character ends a statement or a block. -/
def isEnding (c : Char) : Bool :=
  c == ';' || c == '\x7d'

/-- Whether no token goes on with the character. -/
def isStop (c : Char) : Bool :=
  Text.isTokenBlank c || isEnding c

theorem isStop_of_isTokenBlank {c : Char} (blank : Text.isTokenBlank c = true) : isStop c = true := by
  rw [isStop, blank, Bool.true_or]

theorem isStop_of_isEnding {c : Char} (ends : isEnding c = true) : isStop c = true := by
  rw [isStop, ends, Bool.or_true]

theorem ne_of_isStop {c d : Char} (stop : isStop c = true) (noStop : isStop d = false) : c ≠ d := by
  rintro rfl
  rw [stop] at noStop
  cases noStop

theorem not_isWordChar_of_isStop {c : Char} (stop : isStop c = true) : isWordChar c = false := by
  simp only [isStop, Text.isTokenBlank, isEnding, Bool.or_eq_true, beq_iff_eq] at stop
  rcases stop with ((((rfl | rfl) | rfl) | rfl) | rfl) | rfl | rfl <;> decide

theorem not_isDigit_of_isStop {c : Char} (stop : isStop c = true) : c.isDigit = false := by
  by_contra isDigit
  have isWordChar := isWordChar_of_isDigit (eq_true_of_ne_false isDigit)
  rw [not_isWordChar_of_isStop stop] at isWordChar
  cases isWordChar

theorem not_isWordStart_of_isStop {c : Char} (stop : isStop c = true) : isWordStart c = false := by
  by_contra starts
  have isWordChar := isWordChar_of_isWordStart (eq_true_of_ne_false starts)
  rw [not_isWordChar_of_isStop stop] at isWordChar
  cases isWordChar

/-- A run of characters goes no further than a character that does not belong to it. -/
theorem takeWhile_append_cons {holds : Char → Bool} {c : Char} (stops : holds c = false)
    (front rest : List Char) : (front ++ c :: rest).takeWhile holds = front.takeWhile holds := by
  induction front with
  | nil => rw [List.nil_append, List.takeWhile_cons_of_neg (by rw [stops]; decide), List.takeWhile_nil]
  | cons d front inductionHypothesis =>
      rw [List.cons_append, List.takeWhile_cons, List.takeWhile_cons, inductionHypothesis]

theorem dropWhile_append_cons {holds : Char → Bool} {c : Char} (stops : holds c = false)
    (front rest : List Char) :
    (front ++ c :: rest).dropWhile holds = front.dropWhile holds ++ c :: rest := by
  induction front with
  | nil => rw [List.nil_append, List.dropWhile_cons_of_neg (by rw [stops]; decide), List.dropWhile_nil,
      List.nil_append]
  | cons d front inductionHypothesis =>
      rw [List.cons_append, List.dropWhile_cons, List.dropWhile_cons, inductionHypothesis]
      split
      · rfl
      · rfl

/-- What is found at the beginning of a text, with more behind what is left. -/
def Behind {α : Type} (more : List Char) (read : α × List Char) : α × List Char :=
  (read.1, read.2 ++ more)

theorem map_behind_behind {α : Type} (found : Option (α × List Char)) (more further : List Char) :
    (found.map (Behind more)).map (Behind further) = found.map (Behind (more ++ further)) := by
  rw [Option.map_map]
  exact congrFun (congrArg Option.map (funext fun read => by simp [Behind])) _

/-- What the function finds at the beginning of a text goes no further than a character of the
given kind.  It has at least one character, and no slash behind the first one. -/
structure Stops {α : Type} (stop : Char → Bool) (find? : List Char → Option (α × List Char)) : Prop where
  append : ∀ {c}, stop c = true → ∀ front rest,
    find? (front ++ c :: rest) = (find? front).map (Behind (c :: rest))
  front : ∀ {chars left a}, find? chars = some (a, left) →
    ∃ c front, chars = c :: front ++ left ∧ '/' ∉ front

/-- What goes no further than a character that no token goes beyond goes no further than a blank. -/
theorem Stops.blank {α : Type} {find? : List Char → Option (α × List Char)}
    (stops : Stops isStop find?) :
    Stops Text.isTokenBlank find? where
  append blank := stops.append (isStop_of_isTokenBlank blank)
  front := stops.front

/-- An exponent has digits behind its letter, or behind the sign that follows it. -/
theorem exponent?_cons {mark : Char} (isMark : (mark == 'e' || mark == 'E') = true) (sign : Char)
    (tail : List Char) :
    exponent? (mark :: sign :: tail) =
      (if sign = '+' ∨ sign = '-' then
        (digits? tail).map fun read => (mark :: sign :: read.1, read.2)
      else (digits? (sign :: tail)).map fun read => (mark :: read.1, read.2)) := by
  unfold exponent?
  dsimp only
  rw [if_pos isMark]
  by_cases isPlus : sign = '+'
  · subst isPlus
    rfl
  by_cases isMinus : sign = '-'
  · subst isMinus
    rfl
  rw [if_neg (not_or.mpr ⟨isPlus, isMinus⟩)]
  split
  · rename_i split
    exact absurd (List.cons.inj split).1 isPlus
  · rename_i split
    exact absurd (List.cons.inj split).1 isMinus
  · rfl

theorem exponent?_of_not {mark : Char} (noMark : ¬(mark == 'e' || mark == 'E') = true)
    (input : List Char) : exponent? (mark :: input) = none := by
  unfold exponent?
  exact if_neg noMark

/-- Behind digits a point makes a float literal, and so does an exponent. -/
theorem floatText?_of_digits {input whole tail : List Char} {c : Char}
    (areDigits : digits? input = some (whole, c :: tail)) :
    floatText? input =
      (if c = '.' then
        some (whole ++ '.' :: tail.takeWhile Char.isDigit ++
          (optionalExponent (tail.dropWhile Char.isDigit)).1,
          (optionalExponent (tail.dropWhile Char.isDigit)).2)
      else (exponent? (c :: tail)).map fun read => (whole ++ read.1, read.2)) := by
  unfold floatText?
  rw [areDigits]
  by_cases isPoint : c = '.'
  · subst isPoint
    rfl
  · rw [if_neg isPoint]
    split
    · rename_i split
      exact absurd (List.cons.inj (Prod.mk.inj (Option.some.inj split)).2).1 isPoint
    · rename_i split
      cases split
      rfl
    · rename_i split
      cases split

/-- Where there are no digits, a point may begin a float literal. -/
theorem floatText?_of_no_digits {c : Char} {tail : List Char} (noDigits : digits? (c :: tail) = none) :
    floatText? (c :: tail) =
      (if c = '.' then
        (digits? tail).map fun read =>
          ('.' :: read.1 ++ (optionalExponent read.2).1, (optionalExponent read.2).2)
      else none) := by
  unfold floatText?
  rw [noDigits]
  by_cases isPoint : c = '.'
  · subst isPoint
    rfl
  · rw [if_neg isPoint]
    dsimp only
    split
    · rename_i split
      exact absurd (List.cons.inj split).1 isPoint
    · rfl

/-! What is found at the beginning of a text and what is left make up the text. -/

theorem eq_append_of_digits? {digits : List Char} (areDigits : digits? input = some (digits, rest)) :
    input = digits ++ rest := by
  unfold digits? at areDigits
  split at areDigits
  · cases areDigits
  · cases areDigits
    exact List.takeWhile_append_dropWhile.symm

theorem eq_append_of_exponent? {exponent : List Char}
    (isExponent : exponent? input = some (exponent, rest)) : input = exponent ++ rest := by
  rcases input with _ | ⟨mark, _ | ⟨sign, tail⟩⟩
  · cases isExponent
  · unfold exponent? at isExponent
    dsimp only at isExponent
    split at isExponent
    · cases isExponent
    · cases isExponent
  · by_cases isMark : (mark == 'e' || mark == 'E') = true
    · rw [exponent?_cons isMark] at isExponent
      split at isExponent
      · rcases Option.map_eq_some_iff.mp isExponent with ⟨read, areDigits, same⟩
        cases same
        exact congrArg (mark :: sign :: ·) (eq_append_of_digits? areDigits)
      · rcases Option.map_eq_some_iff.mp isExponent with ⟨read, areDigits, same⟩
        cases same
        exact congrArg (mark :: ·) (eq_append_of_digits? areDigits)
    · rw [exponent?_of_not isMark] at isExponent
      cases isExponent

theorem eq_append_optionalExponent (input : List Char) :
    input = (optionalExponent input).1 ++ (optionalExponent input).2 := by
  unfold optionalExponent
  cases isExponent : exponent? input with
  | none => rfl
  | some read => exact eq_append_of_exponent? isExponent

theorem eq_append_of_floatText? {text : List Char} (isFloat : floatText? input = some (text, rest)) :
    input = text ++ rest := by
  cases areDigits : digits? input with
  | some read =>
      rcases read with ⟨whole, _ | ⟨c, tail⟩⟩
      · unfold floatText? at isFloat
        rw [areDigits] at isFloat
        cases isFloat
      · rw [eq_append_of_digits? areDigits]
        rw [floatText?_of_digits areDigits] at isFloat
        split at isFloat
        · rename_i isPoint
          cases isFloat
          rw [List.append_assoc, ← eq_append_optionalExponent, List.append_assoc, List.cons_append,
            List.takeWhile_append_dropWhile, isPoint]
        · rcases Option.map_eq_some_iff.mp isFloat with ⟨read, isExponent, same⟩
          cases same
          rw [List.append_assoc, ← eq_append_of_exponent? isExponent]
  | none =>
      cases input with
      | nil => cases isFloat
      | cons c tail =>
          rw [floatText?_of_no_digits areDigits] at isFloat
          split at isFloat
          · rename_i isPoint
            rcases Option.map_eq_some_iff.mp isFloat with ⟨read, areDigits, same⟩
            cases same
            rw [isPoint, eq_append_of_digits? areDigits, List.append_assoc,
              ← eq_append_optionalExponent]
            rfl
          · cases isFloat

/-! Nothing in a number is a slash. -/

theorem slash_not_mem_of_isDigit {digits : List Char} (all : ∀ c ∈ digits, c.isDigit = true) :
    '/' ∉ digits := by
  intro listed
  exact absurd (all _ listed) (by decide)

theorem slash_not_mem_of_digits? {digits : List Char} (areDigits : digits? input = some (digits, rest)) :
    '/' ∉ digits := by
  unfold digits? at areDigits
  split at areDigits
  · cases areDigits
  · cases areDigits
    exact slash_not_mem_of_isDigit fun c listed => List.mem_takeWhile_imp listed

theorem slash_not_mem_of_exponent? {exponent : List Char}
    (isExponent : exponent? input = some (exponent, rest)) : '/' ∉ exponent := by
  rcases input with _ | ⟨mark, _ | ⟨sign, tail⟩⟩
  · cases isExponent
  · unfold exponent? at isExponent
    dsimp only at isExponent
    split at isExponent
    · cases isExponent
    · cases isExponent
  · by_cases isMark : (mark == 'e' || mark == 'E') = true
    · have noSlash : '/' ≠ mark := by
        rintro rfl
        cases isMark
      rw [exponent?_cons isMark] at isExponent
      split at isExponent
      · rename_i isSign
        have noSlash' : '/' ≠ sign := by rcases isSign with rfl | rfl <;> decide
        rcases Option.map_eq_some_iff.mp isExponent with ⟨read, areDigits, same⟩
        cases same
        exact List.not_mem_cons_of_ne_of_not_mem noSlash <|
          List.not_mem_cons_of_ne_of_not_mem noSlash' (slash_not_mem_of_digits? areDigits)
      · rcases Option.map_eq_some_iff.mp isExponent with ⟨read, areDigits, same⟩
        cases same
        exact List.not_mem_cons_of_ne_of_not_mem noSlash (slash_not_mem_of_digits? areDigits)
    · rw [exponent?_of_not isMark] at isExponent
      cases isExponent

theorem slash_not_mem_optionalExponent (input : List Char) : '/' ∉ (optionalExponent input).1 := by
  unfold optionalExponent
  cases isExponent : exponent? input with
  | none => exact List.not_mem_nil
  | some read => exact slash_not_mem_of_exponent? isExponent

/-- A float literal begins with a digit or a point, and it has no slash. -/
theorem exists_cons_of_floatText? {text : List Char} (isFloat : floatText? input = some (text, rest)) :
    ∃ c tail, text = c :: tail ∧ (c.isDigit || c == '.') = true ∧ '/' ∉ tail := by
  cases areDigits : digits? input with
  | some read =>
      rcases read with ⟨whole, behind⟩
      have noSlash := slash_not_mem_of_digits? areDigits
      rcases head?_of_digits? areDigits with ⟨c, digits, rfl, isDigit⟩
      have noSlash : '/' ∉ digits := fun listed => noSlash (List.mem_cons_of_mem c listed)
      cases behind with
      | nil =>
          unfold floatText? at isFloat
          rw [areDigits] at isFloat
          cases isFloat
      | cons d behind =>
          rw [floatText?_of_digits areDigits] at isFloat
          split at isFloat
          · cases isFloat
            have noFraction : '/' ∉ behind.takeWhile Char.isDigit :=
              slash_not_mem_of_isDigit fun _ => List.mem_takeWhile_imp
            refine ⟨c, digits ++ '.' :: behind.takeWhile Char.isDigit ++ _, rfl, ?_, ?_⟩
            · rw [isDigit, Bool.true_or]
            · refine List.not_mem_append (List.not_mem_append noSlash ?_)
                (slash_not_mem_optionalExponent _)
              exact List.not_mem_cons_of_ne_of_not_mem (by decide) noFraction
          · rcases Option.map_eq_some_iff.mp isFloat with ⟨read, isExponent, same⟩
            cases same
            refine ⟨c, _, rfl, by rw [isDigit, Bool.true_or], ?_⟩
            exact List.not_mem_append noSlash (slash_not_mem_of_exponent? isExponent)
  | none =>
      cases input with
      | nil => cases isFloat
      | cons c tail =>
          rw [floatText?_of_no_digits areDigits] at isFloat
          split at isFloat
          · rcases Option.map_eq_some_iff.mp isFloat with ⟨read, areDigits, same⟩
            cases same
            exact ⟨'.', _, rfl, rfl, List.not_mem_append (slash_not_mem_of_digits? areDigits)
              (slash_not_mem_optionalExponent _)⟩
          · cases isFloat

/-! A number stops where no token goes on. -/

theorem stops_digits? : Stops isStop digits? where
  append {c} stop front rest := by
    have noDigit := not_isDigit_of_isStop stop
    unfold digits?
    rw [takeWhile_append_cons noDigit, dropWhile_append_cons noDigit]
    split
    · rfl
    · rfl
  front {chars left digits} areDigits := by
    have noSlash := slash_not_mem_of_digits? areDigits
    rcases head?_of_digits? areDigits with ⟨c, tail, rfl, _⟩
    exact ⟨c, tail, eq_append_of_digits? areDigits, fun listed =>
      noSlash (List.mem_cons_of_mem c listed)⟩

theorem exponent?_append_cons {c : Char} (stop : isStop c = true) (front rest : List Char) :
    exponent? (front ++ c :: rest) = (exponent? front).map (Behind (c :: rest)) := by
  rcases front with _ | ⟨mark, _ | ⟨sign, tail⟩⟩
  · refine exponent?_of_not ?_ rest
    rw [Bool.or_eq_true, beq_iff_eq, beq_iff_eq]
    exact not_or.mpr ⟨ne_of_isStop stop rfl, ne_of_isStop stop rfl⟩
  · by_cases isMark : (mark == 'e' || mark == 'E') = true
    · have noDigits : digits? (c :: rest) = none := stops_digits?.append stop [] rest
      have noExponent : exponent? [mark] = none := by
        unfold exponent?
        exact ite_self none
      rw [noExponent, List.cons_append, List.nil_append, exponent?_cons isMark,
        if_neg (not_or.mpr ⟨ne_of_isStop stop rfl, ne_of_isStop stop rfl⟩), noDigits]
      rfl
    · rw [exponent?_of_not isMark, List.cons_append, exponent?_of_not isMark]
      rfl
  · by_cases isMark : (mark == 'e' || mark == 'E') = true
    · rw [List.cons_append, List.cons_append, exponent?_cons isMark, exponent?_cons isMark]
      split
      · rw [stops_digits?.append stop, Option.map_map, Option.map_map]
        rfl
      · rw [← List.cons_append, stops_digits?.append stop, Option.map_map, Option.map_map]
        rfl
    · rw [exponent?_of_not isMark, List.cons_append, exponent?_of_not isMark]
      rfl

theorem optionalExponent_append_cons {c : Char} (stop : isStop c = true) (front rest : List Char) :
    optionalExponent (front ++ c :: rest) = Behind (c :: rest) (optionalExponent front) := by
  unfold optionalExponent
  rw [exponent?_append_cons stop]
  cases exponent? front with
  | none => rfl
  | some read => rfl

theorem stops_floatText? : Stops isStop floatText? where
  append {c} stop front rest := by
    have behind := stops_digits?.append stop front rest
    cases areDigits : digits? front with
    | some read =>
        rcases read with ⟨whole, left⟩
        rw [areDigits] at behind
        cases left with
        | nil =>
            -- The number goes up to the character, which is no point and begins no exponent.
            have behind : digits? (front ++ c :: rest) = some (whole, c :: rest) := behind
            have noExponent : exponent? (c :: rest) = none := exponent?_append_cons stop [] rest
            have noFloat : floatText? front = none := by
              unfold floatText?
              rw [areDigits]
              rfl
            rw [floatText?_of_digits behind, if_neg (ne_of_isStop stop rfl), noExponent, noFloat]
            rfl
        | cons d tail =>
            have behind : digits? (front ++ c :: rest) = some (whole, d :: (tail ++ c :: rest)) := behind
            have noDigit := not_isDigit_of_isStop stop
            rw [floatText?_of_digits behind, floatText?_of_digits areDigits]
            split
            · rw [takeWhile_append_cons noDigit, dropWhile_append_cons noDigit,
                optionalExponent_append_cons stop]
              rfl
            · rw [← List.cons_append, exponent?_append_cons stop, Option.map_map, Option.map_map]
              rfl
    | none =>
        rw [areDigits] at behind
        cases front with
        | nil =>
            rw [List.nil_append, floatText?_of_no_digits behind, if_neg (ne_of_isStop stop rfl)]
            rfl
        | cons d tail =>
            have noDigits : digits? (d :: (tail ++ c :: rest)) = none := behind
            rw [List.cons_append, floatText?_of_no_digits noDigits, floatText?_of_no_digits areDigits]
            split
            · rw [stops_digits?.append stop]
              cases digits? tail with
              | none => rfl
              | some read =>
                  simp only [Option.map_some, Behind, optionalExponent_append_cons stop]
            · rfl
  front {chars left text} isFloat := by
    rcases exists_cons_of_floatText? isFloat with ⟨c, tail, rfl, _, noSlash⟩
    exact ⟨c, tail, eq_append_of_floatText? isFloat, noSlash⟩

/-! ## Punctuation and words -/

/-- Whether a fixed text comes first does not depend on what is behind a character that is not in
it. -/
theorem isPrefixOf?_append_cons {mark : List Char} {c : Char} (absent : c ∉ mark)
    (front rest : List Char) :
    mark.isPrefixOf? (front ++ c :: rest) = (mark.isPrefixOf? front).map (· ++ c :: rest) := by
  induction mark generalizing front with
  | nil => rfl
  | cons d mark inductionHypothesis =>
      rw [List.mem_cons, not_or] at absent
      cases front with
      | nil =>
          have noMark : (d :: mark).isPrefixOf? [] = none := rfl
          rw [noMark, List.nil_append, List.isPrefixOf?, beq_false_of_ne (Ne.symm absent.1),
            if_neg Bool.false_ne_true]
          rfl
      | cons e front =>
          rw [List.cons_append, List.isPrefixOf?, List.isPrefixOf?]
          split
          · exact inductionHypothesis absent.2 front
          · rfl

theorem goesOn_append_cons {c : Char} (stop : isStop c = true) (front rest : List Char) :
    goesOn (front ++ c :: rest) = goesOn front := by
  cases front with
  | nil => exact not_isWordChar_of_isStop stop
  | cons d front => rfl

theorem behindKeyword?_append_cons {name : String} (isName : isWord name = true) {c : Char}
    (stop : isStop c = true) (front rest : List Char) :
    behindKeyword? name (front ++ c :: rest) = (behindKeyword? name front).map (· ++ c :: rest) := by
  have absent : c ∉ name.toList := by
    intro listed
    have isWordChar := isWordChar_of_isWord isName c listed
    rw [not_isWordChar_of_isStop stop] at isWordChar
    cases isWordChar
  unfold behindKeyword?
  rw [isPrefixOf?_append_cons absent]
  cases name.toList.isPrefixOf? front with
  | none => rfl
  | some left =>
      rw [Option.map_some, Option.filter_some, Option.filter_some, goesOn_append_cons stop]
      split
      · rfl
      · rfl

theorem stops_mark {text : String} {mark : Char} (isMark : text.toList = [mark])
    (solid : Text.isTokenBlank mark = false) :
    Stops Text.isTokenBlank fun chars => (text.toList.isPrefixOf? chars).map ((), ·) where
  append {b} blank front rest := by
    have absent : b ∉ text.toList := by
      rw [isMark, List.mem_singleton]
      rintro rfl
      rw [blank] at solid
      cases solid
    rw [isPrefixOf?_append_cons absent, Option.map_map, Option.map_map]
    rfl
  front {chars left u} found := by
    rcases Option.map_eq_some_iff.mp found with ⟨rest, isPrefix, same⟩
    cases same
    rw [isMark] at isPrefix
    exact ⟨mark, [], (List.isPrefixOf?_eq_some_iff_append_eq.mp isPrefix).symm, List.not_mem_nil⟩

theorem stops_keyword {name : String} (isName : isWord name = true) :
    Stops isStop fun chars => (behindKeyword? name chars).map ((), ·) where
  append stop front rest := by
    rw [behindKeyword?_append_cons isName stop, Option.map_map, Option.map_map]
    rfl
  front {chars left u} found := by
    rcases Option.map_eq_some_iff.mp found with ⟨rest, isBehind, same⟩
    cases same
    have isPrefix := (Option.filter_eq_some_iff.mp isBehind).1
    rcases exists_cons_of_isWord isName with ⟨c, tail, isCons, _, goesOn⟩
    rw [isCons] at isPrefix
    exact ⟨c, tail, (List.isPrefixOf?_eq_some_iff_append_eq.mp isPrefix).symm,
      fun listed => absurd (goesOn _ listed) (by decide)⟩

def word? : List Char → Option (String × List Char)
  | c :: rest =>
      if isWordStart c then
        some (String.ofList (c :: rest.takeWhile isWordChar), rest.dropWhile isWordChar)
      else none
  | [] => none

theorem stops_word? : Stops isStop word? where
  append {b} stop front rest := by
    have noChar := not_isWordChar_of_isStop stop
    cases front with
    | nil =>
        rw [List.nil_append, word?, not_isWordStart_of_isStop stop]
        rfl
    | cons c front =>
        rw [List.cons_append, word?, word?, takeWhile_append_cons noChar, dropWhile_append_cons noChar]
        split
        · rfl
        · rfl
  front {chars left name} found := by
    cases chars with
    | nil => cases found
    | cons c rest =>
        rw [word?] at found
        split at found
        · cases found
          refine ⟨c, rest.takeWhile isWordChar, ?_, fun listed => ?_⟩
          · rw [List.cons_append, List.takeWhile_append_dropWhile]
          · exact absurd (List.mem_takeWhile_imp listed) (by decide)
        · cases found

theorem word_eq : word = (do
    gap
    match word? (← get) with
    | some (name, rest) =>
        set rest
        return name
    | none => Reader.fail .unexpected) := by
  refine bind_congr fun _ => bind_congr fun chars => ?_
  cases chars with
  | nil => rfl
  | cons c rest =>
      rw [word?]
      dsimp only
      split
      · rfl
      · rfl

/-! ## Operators -/

theorem prefixOp?_cons_cons (c d : Char) (tail : List Char) :
    prefixOp? (c :: d :: tail) = (prefixOp? [c, d]).map (Behind tail) := by
  rcases em (c ∈ ['+', '-', '!']) with listed | absent
  · simp only [List.mem_cons, List.not_mem_nil, or_false] at listed
    by_cases same : d = c
    · rcases listed with rfl | rfl | rfl <;> subst same <;> rfl
    · rcases listed with rfl | rfl | rfl <;> simp [prefixOp?, same, Behind]
  · simp only [List.mem_cons, List.not_mem_nil, or_false, not_or] at absent
    simp [prefixOp?, absent]

theorem assignOp?_cons_cons (c d : Char) (tail : List Char) :
    assignOp? (c :: d :: tail) = (assignOp? [c, d]).map (Behind tail) := by
  by_cases isEq : d = '='
  · subst isEq
    rcases em (c ∈ ['+', '-', '*', '/', '=']) with listed | absent
    · simp only [List.mem_cons, List.not_mem_nil, or_false] at listed
      rcases listed with rfl | rfl | rfl | rfl | rfl <;> rfl
    · simp only [List.mem_cons, List.not_mem_nil, or_false, not_or] at absent
      simp [assignOp?, absent]
  · by_cases isSet : c = '='
    · subst isSet
      simp [assignOp?, isEq, Behind]
    · simp [assignOp?, isEq, isSet]

/-- The operator of a character that is in no longer one. -/
def singleOp? : Char → Option BinaryOp
  | '<' => some .lt
  | '>' => some .gt
  | '+' => some .add
  | '-' => some .sub
  | '*' => some .mul
  | '/' => some .div
  | '%' => some .rem
  | _ => none

/-- The operator of two characters. -/
def doubleOp? : Char → Char → Option BinaryOp
  | '|', '|' => some .or
  | '^', '^' => some .xor
  | '&', '&' => some .and
  | '=', '=' => some .eq
  | '!', '=' => some .ne
  | '<', '=' => some .le
  | '>', '=' => some .ge
  | _, _ => none

/-- One character is an operator if neither an equals sign nor the same character follows. -/
theorem binaryOp?_cons_cons (c d : Char) (tail : List Char) :
    binaryOp? (c :: d :: tail) =
      match doubleOp? c d with
      | some op => some (op, tail)
      | none => if d = '=' ∨ d = c then none else (singleOp? c).map fun op => (op, d :: tail) := by
  unfold binaryOp?
  split
  case h_8 split =>
    rename_i noOr noXor noAnd noEq noNe noLe noGe
    cases split
    have noDouble : doubleOp? c d = none := by
      unfold doubleOp?
      split
      · exact absurd rfl (noOr tail rfl)
      · exact absurd rfl (noXor tail rfl)
      · exact absurd rfl (noAnd tail rfl)
      · exact absurd rfl (noEq tail rfl)
      · exact absurd rfl (noNe tail rfl)
      · exact absurd rfl (noLe tail rfl)
      · exact absurd rfl (noGe tail rfl)
      · rfl
    rw [noDouble]
    simp only [List.head?_cons, Bool.or_eq_true, beq_iff_eq, Option.some.injEq]
    split
    · rfl
    · split
      case h_8 =>
        rw [singleOp?]
        · rfl
        all_goals assumption
      all_goals rfl
  case h_9 split => cases split
  all_goals
    rename_i split
    cases split
    rfl

/-- One character alone is an operator if it is in no longer one. -/
theorem binaryOp?_singleton (c : Char) : binaryOp? [c] = (singleOp? c).map fun op => (op, []) := by
  unfold binaryOp?
  simp only [List.head?_nil, Bool.or_eq_true, beq_iff_eq, reduceCtorEq, or_self, if_false]
  split
  case h_8 =>
    rw [singleOp?]
    · rfl
    all_goals assumption
  all_goals rfl

/-- A function that looks at two characters at most stops where no token goes on if it does so with
one character or two. -/
theorem stops_of_two {α : Type} {find? : List Char → Option (α × List Char)} (nil : find? [] = none)
    (first : ∀ {c}, isStop c = true → ∀ tail, find? (c :: tail) = none)
    (second : ∀ {d}, isStop d = true → ∀ c, find? [c, d] = (find? [c]).map (Behind [d]))
    (two : ∀ c d tail, find? (c :: d :: tail) = (find? [c, d]).map (Behind tail))
    (front : ∀ {chars left a}, find? chars = some (a, left) →
      ∃ c front, chars = c :: front ++ left ∧ '/' ∉ front) : Stops isStop find? where
  append {c} stop := by
    rintro (_ | ⟨d, _ | ⟨e, tail⟩⟩) rest
    · rw [List.nil_append, first stop, nil]
      rfl
    · rw [List.cons_append, List.nil_append, two, second stop, map_behind_behind]
      rfl
    · rw [List.cons_append, List.cons_append, two, two d e tail, map_behind_behind]
  front := front

theorem stops_prefixOp? : Stops isStop prefixOp? := by
  refine stops_of_two rfl ?_ ?_ prefixOp?_cons_cons ?_
  · intro c stop tail
    have plus : c ≠ '+' := ne_of_isStop stop rfl
    have minus : c ≠ '-' := ne_of_isStop stop rfl
    have bang : c ≠ '!' := ne_of_isStop stop rfl
    simp [prefixOp?, plus, minus, bang]
  · intro d stop c
    have plus : d ≠ '+' := ne_of_isStop stop rfl
    have minus : d ≠ '-' := ne_of_isStop stop rfl
    rcases em (c ∈ ['+', '-', '!']) with listed | absent
    · simp only [List.mem_cons, List.not_mem_nil, or_false] at listed
      rcases listed with rfl | rfl | rfl <;> simp [prefixOp?, plus, minus, Behind]
    · simp only [List.mem_cons, List.not_mem_nil, or_false, not_or] at absent
      simp [prefixOp?, absent]
  · intro chars left op found
    unfold prefixOp? at found
    split at found <;> cases found
    · exact ⟨'+', ['+'], rfl, by decide⟩
    · exact ⟨'-', ['-'], rfl, by decide⟩
    · exact ⟨'-', [], rfl, List.not_mem_nil⟩
    · exact ⟨'!', [], rfl, List.not_mem_nil⟩
    · exact ⟨'+', [], rfl, List.not_mem_nil⟩

theorem stops_assignOp? : Stops isStop assignOp? := by
  refine stops_of_two rfl ?_ ?_ assignOp?_cons_cons ?_
  · intro c stop tail
    have plus : c ≠ '+' := ne_of_isStop stop rfl
    have minus : c ≠ '-' := ne_of_isStop stop rfl
    have star : c ≠ '*' := ne_of_isStop stop rfl
    have slash : c ≠ '/' := ne_of_isStop stop rfl
    have isSet : c ≠ '=' := ne_of_isStop stop rfl
    simp [assignOp?, plus, minus, star, slash, isSet]
  · intro d stop c
    have isSet : d ≠ '=' := ne_of_isStop stop rfl
    by_cases same : c = '='
    · subst same
      simp [assignOp?, isSet, Behind]
    · simp [assignOp?, isSet, same]
  · intro chars left op found
    unfold assignOp? at found
    split at found
    · cases found
      exact ⟨'+', ['='], rfl, by decide⟩
    · cases found
      exact ⟨'-', ['='], rfl, by decide⟩
    · cases found
      exact ⟨'*', ['='], rfl, by decide⟩
    · cases found
      exact ⟨'/', ['='], rfl, by decide⟩
    · split at found <;> cases found
      exact ⟨'=', [], rfl, List.not_mem_nil⟩
    · cases found

/-- No operator of two characters ends in a blank, an ending or a slash. -/
theorem doubleOp?_eq_none {c d : Char} (absent : d ∉ ['|', '^', '&', '=']) : doubleOp? c d = none := by
  simp only [List.mem_cons, List.not_mem_nil, or_false, not_or] at absent
  unfold doubleOp?
  split
  case h_8 => rfl
  all_goals simp at absent

theorem singleOp?_eq_none {c : Char} (stop : isStop c = true) : singleOp? c = none := by
  unfold singleOp?
  split
  case h_8 => rfl
  all_goals cases stop

theorem stops_binaryOp? : Stops isStop binaryOp? := by
  have noDouble : ∀ {d}, isStop d = true → ∀ c, doubleOp? c d = none := by
    intro d stop c
    refine doubleOp?_eq_none ?_
    simp only [List.mem_cons, List.not_mem_nil, or_false, not_or]
    exact ⟨ne_of_isStop stop rfl, ne_of_isStop stop rfl, ne_of_isStop stop rfl, ne_of_isStop stop rfl⟩
  refine stops_of_two rfl ?_ ?_ ?_ ?_
  · rintro c stop (_ | ⟨d, tail⟩)
    · rw [binaryOp?_singleton, singleOp?_eq_none stop]
      rfl
    · have noDouble : doubleOp? c d = none := by
        unfold doubleOp?
        split
        case h_8 => rfl
        all_goals cases stop
      rw [binaryOp?_cons_cons, noDouble, singleOp?_eq_none stop]
      exact ite_self none
  · intro d stop c
    rw [binaryOp?_cons_cons, noDouble stop, binaryOp?_singleton]
    dsimp only
    by_cases same : d = c
    · subst same
      rw [singleOp?_eq_none stop]
      exact ite_self none
    · rw [if_neg (not_or.mpr ⟨ne_of_isStop stop rfl, same⟩), Option.map_map]
      rfl
  · intro c d tail
    rw [binaryOp?_cons_cons, binaryOp?_cons_cons]
    split
    · rfl
    · split
      · rfl
      · rw [Option.map_map]
        rfl
  · rintro (_ | ⟨c, _ | ⟨d, tail⟩⟩) left op found
    · cases found
    · rw [binaryOp?_singleton] at found
      rcases Option.map_eq_some_iff.mp found with ⟨_, _, same⟩
      cases same
      exact ⟨c, [], rfl, List.not_mem_nil⟩
    · rw [binaryOp?_cons_cons] at found
      split at found
      · rename_i isDouble
        cases found
        refine ⟨c, [d], rfl, ?_⟩
        rw [List.mem_singleton]
        rintro rfl
        rw [doubleOp?_eq_none (by decide)] at isDouble
        cases isDouble
      · split at found
        · cases found
        · rcases Option.map_eq_some_iff.mp found with ⟨_, _, same⟩
          cases same
          exact ⟨c, [], rfl, List.not_mem_nil⟩

/-- What may stand directly behind an operand. -/
inductive Suffix where
  | member
  | index
  | step (op : UnaryOp)

/-- What a text begins with if it goes on with an operand, and what follows it. -/
def suffix? : List Char → Option (Suffix × List Char)
  | '.' :: c :: rest => if isWordStart c then some (.member, c :: rest) else none
  | '[' :: rest => some (.index, rest)
  | '+' :: '+' :: rest => some (.step .postIncrement, rest)
  | '-' :: '-' :: rest => some (.step .postDecrement, rest)
  | _ => none

theorem suffixes_succ (inner : Reader Expr) (fuel : Nat) (e : Expr) :
    suffixes inner (fuel + 1) e = do
      let start ← get
      gap
      match suffix? (← get) with
      | some (.member, rest) =>
          set rest
          let field ← word
          suffixes inner fuel (.member .unnumbered e field)
      | some (.index, rest) =>
          set rest
          let position ← inner
          token "]"
          suffixes inner fuel (.index .unnumbered e position)
      | some (.step op, rest) =>
          set rest
          suffixes inner fuel (.unary .unnumbered op e)
      | none =>
          set start
          return e := by
  rw [suffixes]
  refine bind_congr fun start => bind_congr fun _ => bind_congr fun chars => ?_
  split
  · rw [suffix?]
    split <;> rfl
  · rfl
  · rfl
  · rfl
  · rw [suffix?]
    all_goals assumption

theorem stops_suffix? : Stops isStop suffix? := by
  refine stops_of_two rfl ?_ ?_ ?_ ?_
  · intro c stop tail
    have point : c ≠ '.' := ne_of_isStop stop rfl
    have bracket : c ≠ '[' := ne_of_isStop stop rfl
    have plus : c ≠ '+' := ne_of_isStop stop rfl
    have minus : c ≠ '-' := ne_of_isStop stop rfl
    simp [suffix?, point, bracket, plus, minus]
  · intro d stop c
    have plus : d ≠ '+' := ne_of_isStop stop rfl
    have minus : d ≠ '-' := ne_of_isStop stop rfl
    have noWord := not_isWordStart_of_isStop stop
    rcases em (c ∈ ['.', '[', '+', '-']) with listed | absent
    · simp only [List.mem_cons, List.not_mem_nil, or_false] at listed
      rcases listed with rfl | rfl | rfl | rfl <;> simp [suffix?, plus, minus, noWord, Behind]
    · simp only [List.mem_cons, List.not_mem_nil, or_false, not_or] at absent
      simp [suffix?, absent]
  · intro c d tail
    rcases em (c ∈ ['.', '[', '+', '-']) with listed | absent
    · simp only [List.mem_cons, List.not_mem_nil, or_false] at listed
      rcases listed with rfl | rfl | rfl | rfl
      · simp only [suffix?]
        split <;> rfl
      · rfl
      · by_cases same : d = '+' <;> simp [suffix?, same, Behind]
      · by_cases same : d = '-' <;> simp [suffix?, same, Behind]
    · simp only [List.mem_cons, List.not_mem_nil, or_false, not_or] at absent
      simp [suffix?, absent]
  · intro chars left suffix found
    unfold suffix? at found
    split at found
    · split at found <;> cases found
      exact ⟨'.', [], rfl, List.not_mem_nil⟩
    · cases found
      exact ⟨'[', [], rfl, List.not_mem_nil⟩
    · cases found
      exact ⟨'+', ['+'], rfl, by decide⟩
    · cases found
      exact ⟨'-', ['-'], rfl, by decide⟩
    · cases found

end Parse
end Whittle
