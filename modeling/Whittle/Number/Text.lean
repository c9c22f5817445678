import Whittle.Number.Shortest

namespace Whittle

/-!
# How a float literal is written

A float literal shows the shortest digits that read back.  Sizes from a
ten-thousandth up to ten million billion are written positionally, with at
least one digit on either side of the point; all others take an exponent.
-/

namespace Binary64

/-- The digits of a positive decimal around its point, which stands behind the
first `place` digits. -/
def positional (digits : List Char) (place : Int) : List Char :=
  if place ≤ 0 then
    ['0', '.'] ++ List.replicate (-place).toNat '0' ++ digits
  else
    let whole := digits.take place.toNat
    let fraction := digits.drop place.toNat
    whole ++ List.replicate (place.toNat - whole.length) '0' ++ ['.'] ++
      (if fraction.isEmpty then ['0'] else fraction)

/-- The digits of a positive decimal with its point behind the first digit, and
the power of ten that puts this right. -/
def scientific (digits : List Char) (place : Int) : List Char :=
  let power := (toString (place - 1)).toList
  match digits with
  | [] => []
  | [digit] => digit :: 'e' :: power
  | digit :: fraction => digit :: '.' :: fraction ++ 'e' :: power

/-- The text of a positive decimal.  The grid of the shortest decimal is as
coarse as can be, so its digits do not end in a zero. -/
def decimalText (decimal : Shortest.Decimal) : List Char :=
  let digits := (toString decimal.digits).toList
  let place := Int.ofNat digits.length + decimal.exponent
  if -3 ≤ place ∧ place ≤ 16 then positional digits place else scientific digits place

/-- The text of a number as a literal of the language, and the names of the
values that no literal has. -/
def text (x : Binary64) : String :=
  let sign := if x.isNegative then "-" else ""
  match x.magnitude with
  | .notANumber => "NaN"
  | .infinite => sign ++ "inf"
  | .finite significand exponent isPower =>
      match Shortest.decimal? significand exponent isPower with
      | some decimal => sign ++ String.ofList (decimalText decimal)
      | none => sign ++ "0.0"

end Binary64
end Whittle
