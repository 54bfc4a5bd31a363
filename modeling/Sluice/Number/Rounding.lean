/-!
# Rounding to binary formats

A nonnegative number with finitely many binary digits is a `Binary`. A `Format` keeps `precision`
digits of a quotient and rounds to the nearest, a tie to the even significand. Everything is exact
arithmetic on natural numbers: a quotient `num / den` is scaled by the unit in its last place and
divided once.
-/

namespace Sluice.Number

/-- The quotient `num / den` rounded to the nearest integer, a tie to the even one. -/
def roundDiv (num den : Nat) : Nat :=
  let below := num / den
  let rest := num % den
  if 2 * rest < den then below
  else if den < 2 * rest then below + 1
  else if below % 2 = 0 then below
  else below + 1

/-- The number `significand * 2 ^ exponent`. -/
structure Binary where
  significand : Nat
  exponent : Int
  deriving DecidableEq, Repr

namespace Binary

/-- The numerator of the number as a quotient of natural numbers. -/
def num (b : Binary) : Nat := b.significand * Nat.pow 2 b.exponent.toNat

/-- The denominator of the number as a quotient of natural numbers. -/
def den (b : Binary) : Nat := Nat.pow 2 (-b.exponent).toNat

/-- The greatest integer that is not above the number. -/
def floor (b : Binary) : Nat := b.num / b.den

/-- An integer as a binary number. -/
def ofNat (n : Nat) : Binary := ⟨n, 0⟩

theorem den_pos (b : Binary) : 0 < b.den := Nat.two_pow_pos _

end Binary

/-- A binary format: how many digits a significand has, and between which exponents its unit lies. -/
structure Format where
  precision : Nat
  least : Int
  greatest : Int
  deriving DecidableEq, Repr

namespace Format

/-- Numbers of 24 binary digits. -/
def single : Format := ⟨24, -149, 104⟩

/-- Numbers of 53 binary digits. -/
def double : Format := ⟨53, -1074, 971⟩

/-- The exponent of the leading binary digit of `num / den`. -/
def leading (num den : Nat) : Int :=
  let guess : Int := (num.log2 : Int) - (den.log2 : Int)
  if den * Nat.pow 2 guess.toNat ≤ num * Nat.pow 2 (-guess).toNat then guess else guess - 1

/-- The exponent of the last digit that the format keeps of `num / den`. -/
def unit (f : Format) (num den : Nat) : Int :=
  max f.least (leading num den - (f.precision - 1))

/-- The number of the format nearest to `num / den`, with an unbounded range upwards. -/
def round (f : Format) (num den : Nat) : Binary :=
  if num = 0 then ⟨0, f.least⟩
  else
    let e := f.unit num den
    ⟨roundDiv (num * Nat.pow 2 (-e).toNat) (den * Nat.pow 2 e.toNat), e⟩

/-- An integer rounded to the format. -/
def ofNat (f : Format) (n : Nat) : Binary := f.round n 1

/-- The rounded sum of two numbers. -/
def add (f : Format) (a b : Binary) : Binary :=
  f.round (a.num * b.den + b.num * a.den) (a.den * b.den)

/-- The rounded product of two numbers. -/
def mul (f : Format) (a b : Binary) : Binary := f.round (a.num * b.num) (a.den * b.den)

/-- The rounded quotient of two numbers. -/
def div (f : Format) (a b : Binary) : Binary := f.round (a.num * b.den) (a.den * b.num)

/-- The bit pattern that stands for infinity in the format. -/
def infinityBits (f : Format) : Nat :=
  (f.greatest - f.least + 2).toNat * Nat.pow 2 (f.precision - 1)

/-- The bit pattern of a rounded number: the exponents count the steps above the least one, and a
significand that reaches its bound carries into the exponent by itself. -/
def bits (f : Format) (b : Binary) : Nat :=
  min f.infinityBits ((b.exponent - f.least).toNat * Nat.pow 2 (f.precision - 1) + b.significand)

/-- The number that a finite bit pattern without sign stands for. -/
def ofBits (f : Format) (pattern : Nat) : Binary :=
  let field := pattern / Nat.pow 2 (f.precision - 1)
  let fraction := pattern % Nat.pow 2 (f.precision - 1)
  if field = 0 then ⟨fraction, f.least⟩
  else ⟨Nat.pow 2 (f.precision - 1) + fraction, f.least + field - 1⟩

/-- Whether a rounded number lies in the range of the format. -/
def inRange (f : Format) (b : Binary) : Bool := f.bits b < f.infinityBits

end Format

end Sluice.Number
