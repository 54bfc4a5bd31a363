import Sluice.Number.Shortest
import Sluice.Number.Single

/-!
# Written numbers

Where the point goes and when an exponent is used is a decision of the text that holds the number.
A `Layout` is such a decision, and `Single.write` follows it with the fewest digits that read back.
`fixed` writes a quotient with a fixed number of places, a half going to the even neighbour.
-/

namespace Sluice.Number

/-- How a single-precision number is written. -/
structure Layout where
  /-- Whether a whole number is followed by a point and a zero. -/
  wholePoint : Bool
  /-- Exponents of the leading digit from which on, and below which, an exponent is written. -/
  positional : Option (Int × Int)
  deriving DecidableEq, Repr

namespace Layout

/-- Never an exponent, and whole numbers without a point. -/
def plain : Layout := ⟨false, none⟩

/-- A point in every number, and an exponent from `1e16` on and below `1e-4`. -/
def diagnostic : Layout := ⟨true, some (-4, 16)⟩

end Layout

/-- A row of zeros. -/
def zeros (n : Nat) : String := String.ofList (List.replicate n '0')

/-- Digits with a point that leaves `places` of them to its right, zeros being put in front where
there are too few. -/
def pointed (digits : String) (places : Nat) : String :=
  let padded := zeros (places + 1 - digits.length) ++ digits
  let whole := padded.length - places
  if places = 0 then padded
  else String.ofList (padded.toList.take whole) ++ "." ++ String.ofList (padded.toList.drop whole)

namespace Decimal

/-- The exponent of the leading digit. -/
def leading (d : Decimal) : Int := (toString d.coefficient).length - 1 + d.exponent

/-- The decimal with a point at its place and no exponent. -/
def positional (d : Decimal) (wholePoint : Bool) : String :=
  let digits := toString d.coefficient
  if 0 ≤ d.exponent then
    digits ++ zeros d.exponent.toNat ++ (if wholePoint then ".0" else "")
  else pointed digits (-d.exponent).toNat

/-- The decimal as one digit, a point if more follow, and an exponent. -/
def scientific (d : Decimal) : String :=
  let digits := (toString d.coefficient).toList
  let tail := String.ofList (digits.drop 1)
  String.ofList (digits.take 1) ++ (if tail.isEmpty then "" else "." ++ tail) ++ "e" ++
    toString d.leading

/-- The decimal as a layout wants it. -/
def write (layout : Layout) (d : Decimal) : String :=
  match layout.positional with
  | none => d.positional layout.wholePoint
  | some (low, high) =>
    if low ≤ d.leading ∧ d.leading < high then d.positional layout.wholePoint else d.scientific

end Decimal

/-- The text of a single-precision number: the fewest digits that read back, with its sign. -/
def Single.write (layout : Layout) (x : Single) : String :=
  if x.isNaN then "NaN"
  else
    let sign := if x.isNegative then "-" else ""
    if x.isInfinite then sign ++ "inf"
    else if x.magnitude = 0 then sign ++ (Decimal.positional ⟨0, 0⟩ layout.wholePoint)
    else sign ++ (shortest Format.single x.value).write layout

/-- The quotient `num / den` with `places` digits after the point, a half going to the even
neighbour. -/
def fixed (places num den : Nat) : String :=
  pointed (toString (roundDiv (num * Nat.pow 10 places) den)) places


end Sluice.Number
