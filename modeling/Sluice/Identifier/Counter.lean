import Sluice.Fault
import Sluice.Identifier.Basic

/-!
# Numbers in sequence

A `Counter` hands out consecutive words. It stops before the greatest word, which is therefore never
handed out, and a refused request leaves it as it was.
-/

namespace Sluice

/-- A source of consecutive numbers. -/
structure Counter where
  /-- The number that the next request gets. -/
  upcoming : Nat := 0
  deriving DecidableEq, Repr

namespace Counter

/-- Hands out the upcoming number. -/
def take (c : Counter) : Except Fault (Nat × Counter) :=
  if c.upcoming < Word.greatest then .ok (c.upcoming, ⟨c.upcoming + 1⟩)
  else .error (.exhausted "numeric ids")

/-- Hands out the upcoming number as an identifier. -/
def takeId (kind : Kind) (c : Counter) : Except Fault (Id kind × Counter) :=
  c.take.map fun (n, rest) => (⟨n⟩, rest)

end Counter

end Sluice
