import Sluice.Number.Layout
import Sluice.Text.Ascii

/-!
# Reading numbers

The text of a number is a sign or none, digits with at most one point among or beside them, and an
exponent or none. It stands for the nearest number of the format. Infinities and the pattern that is no
number are written as words, in any case.
-/

namespace Sluice.Number

/-- A sign in front of a text, and the text behind it. -/
def takeSign : List Char → Bool × List Char
  | '-' :: rest => (true, rest)
  | '+' :: rest => (false, rest)
  | s => (false, s)

namespace Decimal

/-- Reads an exponent, which may be missing. -/
def exponent? : List Char → Option Int
  | [] => some 0
  | c :: rest =>
    let (negative, digits) := takeSign rest
    if Text.lower c ≠ 'e' || digits.isEmpty || !digits.all Char.isDigit then none
    else
      let value : Int := Text.decimal digits
      some (if negative then -value else value)

/-- Reads a number without sign. -/
def ofText? (s : List Char) : Option Decimal :=
  let whole := s.takeWhile Char.isDigit
  let (fraction, rest) := match s.dropWhile Char.isDigit with
    | '.' :: rest => (rest.takeWhile Char.isDigit, rest.dropWhile Char.isDigit)
    | rest => ([], rest)
  if whole.isEmpty && fraction.isEmpty then none
  else (exponent? rest).map fun e => ⟨Text.decimal (whole ++ fraction), e - fraction.length⟩

end Decimal

namespace Single

/-- A power of ten beyond the range of the numbers, of which the inverse is beyond it too. -/
def reach : Nat := 64

/-- The number nearest to a decimal. -/
def ofDecimal (negative : Bool) (d : Decimal) : Single :=
  if d.coefficient = 0 ∨ d.leading < -reach then ofBinary negative ⟨0, Format.single.least⟩
  else if reach < d.leading then infinity negative
  else
    ofBinary negative
      (Format.single.round (d.coefficient * Nat.pow 10 d.exponent.toNat)
        (Nat.pow 10 (-d.exponent).toNat))

/-- Reads a number, an infinity, or the pattern that is no number. -/
def ofText? (s : List Char) : Option Single :=
  let (negative, rest) := takeSign s
  if Text.isWord rest "inf" || Text.isWord rest "infinity" then some (infinity negative)
  else if Text.isWord rest "nan" then some nan
  else (Decimal.ofText? rest).map (ofDecimal negative)

end Single

end Sluice.Number
