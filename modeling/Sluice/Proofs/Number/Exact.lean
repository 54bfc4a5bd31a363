import Mathlib.Algebra.Field.Rat
import Mathlib.Algebra.Order.Field.Power
import Mathlib.Algebra.Order.Field.Rat
import Mathlib.Algebra.Order.Floor.Semifield
import Mathlib.Data.Nat.Log
import Mathlib.Data.Rat.Floor
import Sluice.Number.Single

/-!
# Numbers that a format holds

`Binary.toRat` is the number that a significand and an exponent stand for. A quotient is held by a format if
it is `m * 2 ^ e` for a significand `m` of no more digits than the format keeps, and an exponent that is not
below the least one. Such a quotient is rounded to itself (`Format.toRat_round`): the unit of its last place is
at most `2 ^ e`, because its leading digit has no more than `precision - 1` places behind it in `m`, and of a
multiple of the unit nothing is rounded off.

Products and quotients are rounded once, so that they are exact if they are held (`Format.toRat_mul`,
`Format.toRat_div`). No bound upwards is needed, since the rounding has none.
-/

namespace Sluice.Number

theorem roundDiv_mul_right {den : Nat} (hden : 0 < den) (q : Nat) : roundDiv (q * den) den = q := by
  have hrest : q * den % den = 0 := Nat.mul_mod_left q den
  rw [roundDiv, hrest, Nat.mul_div_cancel q hden]
  exact if_pos hden

/-- The two powers of which one is the numerator and the other the denominator of `2 ^ e`. -/
theorem two_pow_toNat_div (e : ℤ) : (2 : ℚ) ^ e.toNat / 2 ^ (-e).toNat = 2 ^ e := by
  obtain ⟨n, rfl | rfl⟩ := e.eq_nat_or_neg
  · simp
  · simp

namespace Binary

/-- The number that a significand and an exponent stand for. -/
def toRat (b : Binary) : ℚ := b.significand * 2 ^ b.exponent

theorem num_div_den (b : Binary) : (b.num : ℚ) / b.den = b.toRat := by
  rw [num, den, toRat, ← two_pow_toNat_div b.exponent, mul_div_assoc']
  push_cast [Nat.pow_eq]
  rfl

theorem floor_eq (b : Binary) : b.floor = ⌊b.toRat⌋₊ := by
  rw [← num_div_den, Nat.floor_div_eq_div]
  rfl

theorem toRat_lt {b : Binary} {digits : ℕ} {e : ℤ} (hdigits : b.significand < 2 ^ digits)
    (he : b.exponent ≤ e) : b.toRat < 2 ^ (digits + e : ℤ) := by
  rw [toRat, zpow_add₀ two_ne_zero, zpow_natCast]
  have hcast : (b.significand : ℚ) < 2 ^ digits := by exact_mod_cast hdigits
  have hpow : (2 : ℚ) ^ b.exponent ≤ 2 ^ e := zpow_le_zpow_right₀ one_le_two he
  exact mul_lt_mul hcast hpow (by positivity) (by positivity)

end Binary

namespace Format

/-- A number of a format: its significand has no more digits than the format keeps, and its last digit is not
below the least unit. -/
def Holds (f : Format) (x : ℚ) : Prop :=
  ∃ b : Binary, b.significand < 2 ^ f.precision ∧ f.least ≤ b.exponent ∧ b.toRat = x

theorem holds_mul_zpow {f : Format} {m : ℕ} {e : ℤ} (hm : m < 2 ^ f.precision) (he : f.least ≤ e) :
    f.Holds (m * 2 ^ e) :=
  ⟨⟨m, e⟩, hm, he, rfl⟩

theorem holds_natCast {f : Format} {m : ℕ} (hm : m < 2 ^ f.precision) (hf : f.least ≤ 0) : f.Holds m := by
  have h := holds_mul_zpow hm hf
  rwa [zpow_zero, mul_one] at h

/-- A quotient is not below the power of two of its leading digit. -/
theorem two_zpow_leading_le {num den : Nat} (hnum : num ≠ 0) (hden : 0 < den) :
    (2 : ℚ) ^ leading num den ≤ num / den := by
  have hden' : (0 : ℚ) < den := Nat.cast_pos.mpr hden
  rw [leading]
  split
  · next hle =>
    -- The comparison of the definition, with the power on one side.
    have hcast : (den : ℚ) * 2 ^ ((num.log2 : ℤ) - den.log2).toNat ≤
        num * 2 ^ (-((num.log2 : ℤ) - den.log2)).toNat := by
      exact_mod_cast hle
    rw [← two_pow_toNat_div, div_le_div_iff₀ (by positivity) hden', mul_comm]
    exact hcast
  · -- The numerator is at least the power of its own leading digit, the denominator below the next one.
    have hlow : (2 : ℚ) ^ num.log2 ≤ num := by exact_mod_cast Nat.log2_self_le hnum
    have hhigh : (den : ℚ) ≤ 2 ^ (den.log2 + 1) := by exact_mod_cast Nat.lt_log2_self.le
    have hpow : (2 : ℚ) ^ ((num.log2 : ℤ) - den.log2 - 1) = 2 ^ num.log2 / 2 ^ (den.log2 + 1) := by
      rw [← zpow_natCast, ← zpow_natCast, ← zpow_sub₀ two_ne_zero]
      congr 1
      omega
    rw [hpow]
    exact div_le_div₀ (Nat.cast_nonneg num) hlow hden' hhigh

/-- A quotient that the format holds is rounded to itself. -/
theorem toRat_round {f : Format} {num den : Nat} (hden : 0 < den) (h : f.Holds (num / den)) :
    (f.round num den).toRat = num / den := by
  obtain ⟨b, hdigits, hleast, heq⟩ := h
  rw [round]
  split
  · next hzero => rw [hzero, Binary.toRat, Nat.cast_zero, zero_mul, zero_div]
  next hnum =>
  have hden' : (den : ℚ) ≠ 0 := Nat.cast_ne_zero.mpr hden.ne'
  -- The leading digit is one of the `precision` digits above the exponent.
  have hunit : f.unit num den ≤ b.exponent := by
    have hlt : (2 : ℚ) ^ leading num den < 2 ^ (f.precision + b.exponent : ℤ) :=
      lt_of_le_of_lt (two_zpow_leading_le hnum hden) (heq ▸ Binary.toRat_lt hdigits (Int.le_refl _))
    have hdigits := (zpow_lt_zpow_iff_right₀ one_lt_two).mp hlt
    rw [unit]
    omega
  -- So the quotient is a multiple of the unit, and the division has no rest.
  generalize f.unit num den = u at hunit
  obtain ⟨k, hk⟩ : ∃ k : ℕ, (num : ℚ) / den = k * 2 ^ u := by
    refine ⟨b.significand * 2 ^ (b.exponent - u).toNat, ?_⟩
    rw [← heq, Binary.toRat, Nat.cast_mul, Nat.cast_pow, Nat.cast_ofNat, mul_assoc, ← zpow_natCast,
      Int.toNat_of_nonneg (by omega), ← zpow_add₀ two_ne_zero, Int.sub_add_cancel]
  have hscaled : num * Nat.pow 2 (-u).toNat = k * (den * Nat.pow 2 u.toNat) := by
    rw [← two_pow_toNat_div, ← mul_div_assoc, div_eq_div_iff hden' (by positivity)] at hk
    rw [← Nat.cast_inj (R := ℚ)]
    push_cast [Nat.pow_eq]
    linarith
  have hpos : 0 < den * Nat.pow 2 u.toNat := Nat.mul_pos hden (Nat.two_pow_pos _)
  show (⟨roundDiv (num * Nat.pow 2 (-u).toNat) (den * Nat.pow 2 u.toNat), u⟩ : Binary).toRat = num / den
  rw [hscaled, roundDiv_mul_right hpos, hk]
  rfl

theorem toRat_ofNat {f : Format} {n : Nat} (h : f.Holds n) : (f.ofNat n).toRat = n := by
  have hone : (n : ℚ) / (1 : ℕ) = n := by rw [Nat.cast_one, div_one]
  rw [ofNat, toRat_round Nat.one_pos (by rwa [hone]), hone]

theorem toRat_mul {f : Format} {a b : Binary} (h : f.Holds (a.toRat * b.toRat)) :
    (f.mul a b).toRat = a.toRat * b.toRat := by
  have heq : ((a.num * b.num : ℕ) : ℚ) / (a.den * b.den : ℕ) = a.toRat * b.toRat := by
    rw [Nat.cast_mul, Nat.cast_mul, mul_div_mul_comm, a.num_div_den, b.num_div_den]
  rw [mul, toRat_round (Nat.mul_pos a.den_pos b.den_pos) (by rwa [heq]), heq]

/-- A quotient by a number that is not zero. -/
theorem toRat_div {f : Format} {a b : Binary} (hb : b.toRat ≠ 0) (h : f.Holds (a.toRat / b.toRat)) :
    (f.div a b).toRat = a.toRat / b.toRat := by
  have hnum : 0 < b.num := by
    refine Nat.pos_of_ne_zero fun hzero => hb ?_
    rw [← b.num_div_den, hzero, Nat.cast_zero, zero_div]
  have heq : ((a.num * b.den : ℕ) : ℚ) / (a.den * b.num : ℕ) = a.toRat / b.toRat := by
    rw [Nat.cast_mul, Nat.cast_mul, ← a.num_div_den, ← b.num_div_den, div_div_div_eq]
  rw [div, toRat_round (Nat.mul_pos a.den_pos hnum) (by rwa [heq]), heq]

theorem significand_ofBits_lt {f : Format} (hf : 0 < f.precision) (pattern : Nat) :
    (f.ofBits pattern).significand < 2 ^ f.precision := by
  have hpow : 2 ^ f.precision = 2 * Nat.pow 2 (f.precision - 1) := by
    rw [Nat.pow_eq, ← Nat.pow_succ', Nat.succ_eq_add_one, Nat.sub_add_cancel hf]
  have hfraction : pattern % Nat.pow 2 (f.precision - 1) < Nat.pow 2 (f.precision - 1) :=
    Nat.mod_lt _ (Nat.two_pow_pos _)
  rw [hpow]
  simp only [ofBits]
  split
  · show pattern % Nat.pow 2 (f.precision - 1) < _
    omega
  · show Nat.pow 2 (f.precision - 1) + pattern % Nat.pow 2 (f.precision - 1) < _
    omega

theorem exponent_ofBits_le (f : Format) (pattern : Nat) :
    (f.ofBits pattern).exponent ≤ f.least + (pattern / Nat.pow 2 (f.precision - 1) : Nat) := by
  simp only [ofBits]
  split
  · show f.least ≤ _
    omega
  · show f.least + (pattern / Nat.pow 2 (f.precision - 1) : Nat) - 1 ≤ _
    omega

end Format

/-- The exponent field of a single-precision number has eight digits, so that none is as great as `2 ^ 130`. -/
theorem Single.toRat_value_lt (x : Single) : x.value.toRat < 2 ^ (130 : ℤ) := by
  have hfield : x.magnitude / Nat.pow 2 23 < Nat.pow 2 8 := by
    rw [Nat.div_lt_iff_lt_mul (Nat.two_pow_pos 23)]
    exact Nat.mod_lt _ (Nat.two_pow_pos 31)
  have hexponent : x.value.exponent ≤ 106 := by
    refine Int.le_trans (Format.single.exponent_ofBits_le x.magnitude) ?_
    show (-149 : ℤ) + (x.magnitude / Nat.pow 2 23 : ℕ) ≤ 106
    have hpow : Nat.pow 2 8 = 256 := rfl
    omega
  exact Binary.toRat_lt (Format.significand_ofBits_lt (by decide) x.magnitude) hexponent

end Sluice.Number
