namespace Whittle
namespace Text

/-!
# Positions in a text

A position is where a text has been read up to.  Offsets and columns count the
bytes of the text in UTF-8; lines and columns start at one.
-/

def utf8Size : List Char → Nat
  | [] => 0
  | c :: rest => c.utf8Size + utf8Size rest

/-- The bytes of two texts add up. -/
theorem utf8Size_append (first second : List Char) :
    utf8Size (first ++ second) = utf8Size first + utf8Size second := by
  induction first with
  | nil => exact (Nat.zero_add _).symm
  | cons c rest ih => rw [List.cons_append, utf8Size, utf8Size, ih, Nat.add_assoc]

/-- A place in a text. -/
structure Position where
  offset : Nat
  line : Nat
  column : Nat
deriving DecidableEq

/-- The position behind a text.  The column counts what follows the last line
feed. -/
def Position.behind (consumed : List Char) : Position where
  offset := utf8Size consumed
  line := consumed.count '\n' + 1
  column := utf8Size (consumed.reverse.takeWhile (· != '\n')) + 1

/-- The position at which `rest`, an end of the text, begins. -/
def Position.before (source rest : List Char) : Position :=
  .behind (source.take (source.length - rest.length))

end Text
end Whittle
