namespace Whittle
namespace Text

/-!
# Blank characters and words

Two notions of blank occur in shader text.  Between tokens only the five ASCII
blanks count; in the text of a version any character with the Unicode property
White_Space does.  The property holds of twenty-five code points, which are
listed here as ranges, so no table of another library decides the answer.
-/

/-- The blanks that may stand between two tokens: space, tab, line feed, form
feed and carriage return.  The vertical tab is not among them. -/
def isTokenBlank (c : Char) : Bool :=
  c == ' ' || c == '\t' || c == '\n' || c == '\x0c' || c == '\r'

/-- The code points with the property White_Space, as closed ranges in
ascending order. -/
def whiteSpaceRanges : List (Nat × Nat) :=
  [(0x09, 0x0D), (0x20, 0x20), (0x85, 0x85), (0xA0, 0xA0), (0x1680, 0x1680),
   (0x2000, 0x200A), (0x2028, 0x2029), (0x202F, 0x202F), (0x205F, 0x205F),
   (0x3000, 0x3000)]

/-- Membership in the property White_Space. -/
def isWhiteSpace (c : Char) : Bool :=
  whiteSpaceRanges.any fun range => range.1 ≤ c.toNat && c.toNat ≤ range.2

/-- Every blank between tokens has the property, so the wider notion only
adds characters. -/
theorem isWhiteSpace_of_isTokenBlank {c : Char} (blank : isTokenBlank c = true) :
    isWhiteSpace c = true := by
  simp only [isTokenBlank, Bool.or_eq_true, beq_iff_eq] at blank
  rcases blank with (((rfl | rfl) | rfl) | rfl) | rfl <;> decide

/-- The text without white space at either end. -/
def trim (text : List Char) : List Char :=
  ((text.dropWhile isWhiteSpace).reverse.dropWhile isWhiteSpace).reverse

/-- The words that follow `current`, the letters of an unfinished word in
reverse order.  An empty `current` stands for no unfinished word. -/
def wordsFrom (current : List Char) : List Char → List (List Char)
  | [] => if current.isEmpty then [] else [current.reverse]
  | c :: rest =>
      if isWhiteSpace c then
        if current.isEmpty then wordsFrom [] rest
        else current.reverse :: wordsFrom [] rest
      else wordsFrom (c :: current) rest

/-- The maximal runs of characters that are not white space, in order. -/
def words (text : List Char) : List (List Char) :=
  wordsFrom [] text

/-- The text with its words one space apart and nothing around them. -/
def normalized (text : List Char) : List Char :=
  ((words text).intersperse [' ']).flatten

end Text
end Whittle
