import Sluice.Number.Rounding

/-!
# Single-precision numbers

A `Single` is a bit pattern: a sign, then a magnitude whose greatest values stand for infinity and
for the patterns that are no number. Priorities are such numbers, and the ones that a queue accepts
are exactly those for which `Single.isPositive` holds.
-/

namespace Sluice.Number

/-- A single-precision number, by its bit pattern. -/
structure Single where
  bits : UInt32
  deriving DecidableEq, Repr

namespace Single

/-- The pattern without its sign. -/
def magnitude (x : Single) : Nat := x.bits.toNat % Nat.pow 2 31

/-- Whether the sign bit is set. -/
def isNegative (x : Single) : Bool := Nat.pow 2 31 ≤ x.bits.toNat

/-- Whether the pattern stands for no number. -/
def isNaN (x : Single) : Bool := Format.single.infinityBits < x.magnitude

/-- Whether the pattern stands for an infinity. -/
def isInfinite (x : Single) : Bool := x.magnitude == Format.single.infinityBits

/-- Whether the pattern stands for a number. -/
def isFinite (x : Single) : Bool := x.magnitude < Format.single.infinityBits

/-- Whether the pattern stands for a number above zero. -/
def isPositive (x : Single) : Bool := x.isFinite && !x.isNegative && x.magnitude != 0

/-- The absolute value of a finite pattern. -/
def value (x : Single) : Binary := Format.single.ofBits x.magnitude

/-- A sign and a number without sign, beyond the range infinite. -/
def ofBinary (negative : Bool) (b : Binary) : Single :=
  ⟨UInt32.ofNat ((if negative then Nat.pow 2 31 else 0) + Format.single.bits b)⟩

/-- The infinity of a sign. -/
def infinity (negative : Bool) : Single :=
  ⟨UInt32.ofNat ((if negative then Nat.pow 2 31 else 0) + Format.single.infinityBits)⟩

/-- A pattern that stands for no number. -/
def nan : Single := ⟨0x7fc00000⟩

/-- A natural number rounded to single precision. -/
def ofNat (n : Nat) : Single := ofBinary false (Format.single.ofNat n)

end Single

end Sluice.Number
