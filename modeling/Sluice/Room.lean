import Sluice.Text.Record
import Sluice.Word

/-!
# Room

Not everything that settings may ask for can be had. One stretch of memory has no more than
`Room.mostThings` bytes, no more than `Room.mostPermits` permits can be given out at once, be they for
the objects of a pool or for the places of a queue, and a product has to fit into a word. Whoever needs
room claims it before using it, and a claim that cannot be met is a `Shortage`.
-/

namespace Sluice

namespace Room

/-- How many things of one byte a stretch of memory can have: the distance between two of them has to
fit into a signed word. -/
def mostThings : Nat := Nat.pow 2 63 - 1

/-- How many permits there can be. -/
def mostPermits : Nat := Nat.pow 2 61 - 1

end Room

/-- What there is not enough of. -/
inductive Shortage where
  | memory
  | permits
  | words
  deriving DecidableEq, Repr

namespace Shortage

/-- The sentence that reports the shortage. -/
def message : Shortage → String
  | memory => "capacity overflow"
  | permits =>
    "a semaphore may not have more than MAX_PERMITS permits (" ++ toString Room.mostPermits ++ ")"
  | words => "attempt to multiply with overflow"

/-- The shortage with its message, for diagnostics. -/
def diagnostic (s : Shortage) : String := Text.applied "NoRoom" (Text.quoted s.message)

end Shortage

namespace Room

/-- Claims room in memory for things of one byte each. -/
def things (count : Nat) : Except Shortage Unit :=
  if count ≤ mostThings then .ok () else .error .memory

/-- Claims permits. -/
def permits (count : Nat) : Except Shortage Unit :=
  if count ≤ mostPermits then .ok () else .error .permits

/-- The product of two words, if a word can hold it. -/
def product (a b : Nat) : Except Shortage Nat :=
  if a * b ≤ Word.greatest then .ok (a * b) else .error .words

theorem things_eq_ok_iff (count : Nat) : things count = .ok () ↔ count ≤ mostThings := by
  by_cases h : count ≤ mostThings <;> simp [things, h]

end Room

end Sluice
