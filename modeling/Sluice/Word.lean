/-!
# Machine words

Counters, sizes and instants are natural numbers below `2 ^ 64`. The sums that could leave that
range stop at its end, and `Word.add` is that sum: it is exact as long as the result fits.
-/

namespace Sluice.Word

/-- The greatest 64-bit word. -/
def greatest : Nat := 18446744073709551615

/-- A natural number cut down to the words. -/
def clip (n : Nat) : Nat := min n greatest

/-- A sum that stops at the greatest word. -/
def add (a b : Nat) : Nat := min (a + b) greatest

theorem greatest_eq : greatest = Nat.pow 2 64 - 1 := by decide

theorem add_le (a b : Nat) : add a b ≤ greatest := Nat.min_le_right _ _

theorem add_eq_of_le {a b : Nat} (h : a + b ≤ greatest) : add a b = a + b := Nat.min_eq_left h

theorem clip_eq_of_le {n : Nat} (h : n ≤ greatest) : clip n = n := Nat.min_eq_left h

theorem clip_le_clip {a b : Nat} (hle : a ≤ b) : clip a ≤ clip b := by
  rw [clip, clip]
  omega

end Sluice.Word
