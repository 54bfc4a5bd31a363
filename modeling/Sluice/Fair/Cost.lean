import Sluice.Number.Single
import Sluice.Word

/-!
# Virtual cost

Serving a resource costs its target virtual time in proportion to the size of the resource and in
inverse proportion to the priority of the target.
-/

namespace Sluice.Fair

/-- What a resource of a size costs at a priority. -/
abbrev Cost := Number.Single → Nat → Nat

/-- The virtual time that one unit costs at priority one. -/
def unitCost : Nat := 1000000

/-- The cost in double precision, rounded after every operation, cut down to a word. -/
def cost : Cost := fun priority size =>
  let f := Number.Format.double
  Word.clip (f.div (f.mul (f.ofNat size) (f.ofNat unitCost)) priority.value).floor

end Sluice.Fair
