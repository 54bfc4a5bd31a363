import Sluice.Number.Rounding

/-!
# Fewest digits

Several decimals round to the same binary number. `shortest` chooses the one on the coarsest grid of
powers of ten that has such a decimal, and of those on that grid the nearest to the number. The
decimals that round to `m * 2 ^ q` form an interval around it, half a unit wide on either side (a
quarter below a power of two), with its ends included if and only if `m` is even.
-/

namespace Sluice.Number

/-- The number `coefficient * 10 ^ exponent`. -/
structure Decimal where
  coefficient : Nat
  exponent : Int
  deriving DecidableEq, Repr

namespace Decimal

/-- Moves the zeros at the end of the coefficient, at most `fuel` of them, into the exponent. -/
def trim : Nat → Decimal → Decimal
  | 0, d => d
  | fuel + 1, d =>
    if d.coefficient ≠ 0 ∧ d.coefficient % 10 = 0 then
      trim fuel ⟨d.coefficient / 10, d.exponent + 1⟩
    else d

end Decimal

/-- The decimals that a format reads back as one of its numbers. All four values are multiples of
the quarter of the number's unit. -/
structure Neighbourhood where
  low : Nat
  value : Nat
  high : Nat
  closed : Bool
  exponent : Int
  deriving DecidableEq, Repr

namespace Neighbourhood

/-- The neighbourhood of a number of the format. -/
def of (f : Format) (b : Binary) : Neighbourhood where
  low := if b.significand = Nat.pow 2 (f.precision - 1) ∧ f.least < b.exponent
    then 4 * b.significand - 1 else 4 * b.significand - 2
  value := 4 * b.significand
  high := 4 * b.significand + 2
  closed := b.significand % 2 = 0
  exponent := b.exponent - 2

/-- The point of the grid of multiples of `10 ^ k` that lies in the neighbourhood and is nearest to
the value, and of two equally near ones the upper. -/
def pointOnGrid (n : Neighbourhood) (k : Int) : Option Nat :=
  let scale := Nat.pow 2 n.exponent.toNat * Nat.pow 10 (-k).toNat
  let step := Nat.pow 2 (-n.exponent).toNat * Nat.pow 10 k.toNat
  let inside (c : Nat) : Bool :=
    if n.closed then n.low * scale ≤ c * step && c * step ≤ n.high * scale
    else n.low * scale < c * step && c * step < n.high * scale
  let below := n.value * scale / step
  let rest := n.value * scale % step
  let order := if 2 * rest < step then [below, below + 1] else [below + 1, below]
  order.find? fun c => c ≠ 0 && inside c

/-- The first of the grids `10 ^ k`, `10 ^ (k - 1)`, … that has a point in the neighbourhood. -/
def coarsest (n : Neighbourhood) : Nat → Int → Decimal
  | 0, _ => ⟨0, 0⟩
  | fuel + 1, k =>
    match n.pointOnGrid k with
    | some c => ⟨c, k⟩
    | none => coarsest n fuel (k - 1)

end Neighbourhood

/-- The decimal of fewest digits that reads back as a positive number of the format. The grids start
above the greatest number of the format and end below its least unit. -/
def shortest (f : Format) (b : Binary) : Decimal :=
  let top := (f.greatest + f.precision).toNat
  let decimal := (Neighbourhood.of f b).coarsest (top + (-f.least).toNat + 2) (top + 1)
  decimal.trim (top + 1)

end Sluice.Number
