import Sluice.Proofs.Fair.Overtaking
import Sluice.Proofs.Number.Exact

/-!
# What a delivery adds to the virtual time

At a priority that is a power of two, and for sizes up to `2 ^ 32`, every step of the cost is a number that
double precision holds: the product has less than 53 digits, and the quotient has the digits of the product.
So the cost is the quotient itself, rounded down (`Fair.cost_eq`).

It is zero for a priority above `size * unitCost`, and such a delivery leaves the virtual time of its target
where it was (`virtualTime_rises_iff`), as in the run of `served_for_nothing`, where it keeps its turn.
-/

namespace Sluice

open Fair

namespace Fair

open Number (Binary Format Single)

/-- The cost at a priority that is a power of two. -/
theorem cost_eq {priority : Single} {n : ℤ} (hpriority : priority.value.toRat = 2 ^ n) {size : Nat}
    (hsize : size ≤ 2 ^ 32) : cost priority size = Word.clip ⌊(size * unitCost : ℚ) / 2 ^ n⌋₊ := by
  have hpower : n < 130 := by
    have hlt := priority.toRat_value_lt
    rw [hpriority] at hlt
    exact (zpow_lt_zpow_iff_right₀ one_lt_two).mp hlt
  have hproduct : size * unitCost < 2 ^ 53 := by
    rw [unitCost]
    omega
  -- The two factors, their product and its quotient, each held by the format.
  have hleft : (Format.double.ofNat size).toRat = size :=
    Format.toRat_ofNat (Format.holds_natCast (show size < 2 ^ 53 by omega) (by decide))
  have hright : (Format.double.ofNat unitCost).toRat = unitCost :=
    Format.toRat_ofNat (Format.holds_natCast (show unitCost < 2 ^ 53 by decide) (by decide))
  have hmul : (Format.double.mul (Format.double.ofNat size) (Format.double.ofNat unitCost)).toRat =
      size * unitCost := by
    rw [Format.toRat_mul, hleft, hright]
    rw [hleft, hright, ← Nat.cast_mul]
    exact Format.holds_natCast hproduct (by decide)
  have hdiv : (Format.double.div (Format.double.mul (Format.double.ofNat size)
      (Format.double.ofNat unitCost)) priority.value).toRat = size * unitCost / 2 ^ n := by
    rw [Format.toRat_div, hmul, hpriority]
    · rw [hpriority]
      positivity
    · rw [hmul, hpriority, ← Nat.cast_mul, div_eq_mul_inv, ← zpow_neg]
      refine Format.holds_mul_zpow hproduct ?_
      show (-1074 : ℤ) ≤ -n
      omega
  simp only [cost]
  rw [Binary.floor_eq, hdiv]

end Fair

namespace FairQueue

variable {ρ : Type}

/-- A delivery adds its cost to the virtual time of its target, at the priority that the target has. -/
theorem virtualTimeOf_pop {cost : Cost} {q q' : FairQueue ρ} (hq : Sound q) {d : Delivery ρ}
    {priority : Number.Single} (hpriority : q.priorityOf d.target = some priority)
    (hpop : q.popWith cost = (some d, q')) :
    q'.virtualTimeOf d.target = Word.add (q.virtualTimeOf d.target) (cost priority d.size) := by
  have heffect := hq.effect (step_pop hpop)
  rw [← virtualTimeOf_plain, ← virtualTimeOf_plain]
  generalize q'.plain = p' at heffect
  cases heffect with
  | @served t a resource size rest hnext hbacklog =>
    obtain ⟨ha, -, -⟩ := q.listed_plain.next?_eq_some.mp hnext
    have hsame : a.priority = priority := by
      obtain ⟨e, he, rfl⟩ := Option.map_eq_some_iff.mp ha
      rw [priorityOf, he, Option.map_some] at hpriority
      exact Option.some.inj hpriority
    have ha' : (q.plain.serve t a rest size (cost a.priority size)).account t =
        some (a.served rest size (cost a.priority size)) :=
      Function.update_self ..
    rw [PlainQueue.virtualTimeOf, PlainQueue.virtualTimeOf, ha', ha, ← hsame]
    rfl
  | quiet hquiet => cases hquiet

/-- **What a delivery costs at a power of two.** After any calls on a new queue, let a resource of a size up to
`2 ^ 32` be delivered for a target whose priority is a power of two. The virtual time of the target rises by the
quotient rounded down, up to the greatest word. So it rises at all exactly if it was not at the greatest word and
the priority is no more than the scaled size. -/
theorem virtualTime_rises_iff (settings : FairSettings) (calls : List (Call ρ)) {d : Delivery ρ}
    {q' : FairQueue ρ} {priority : Number.Single} {n : ℤ}
    (hpop : ((ofSettings settings).after Fair.cost calls).pop = (some d, q'))
    (hpriority : ((ofSettings settings : FairQueue ρ).after Fair.cost calls).priorityOf d.target = some priority)
    (hpower : priority.value.toRat = 2 ^ n) (hsize : d.size ≤ 2 ^ 32) :
    q'.virtualTimeOf d.target =
        Word.add (((ofSettings settings : FairQueue ρ).after Fair.cost calls).virtualTimeOf d.target)
          (Word.clip ⌊(d.size * unitCost : ℚ) / 2 ^ n⌋₊) ∧
      (((ofSettings settings : FairQueue ρ).after Fair.cost calls).virtualTimeOf d.target <
          q'.virtualTimeOf d.target ↔
        ((ofSettings settings : FairQueue ρ).after Fair.cost calls).virtualTimeOf d.target ≠ Word.greatest ∧
          (2 : ℚ) ^ n ≤ d.size * unitCost) := by
  have hstart : Sound (ofSettings settings : FairQueue ρ) := Sound.ofSettings settings
  have hsound := sound_after Fair.cost hstart calls
  have l := (Level.ofSettings Fair.cost settings).run Fair.cost calls (ρ := ρ)
  rw [← plain_ofSettings, ← plain_after Fair.cost hstart] at l
  generalize (ofSettings settings : FairQueue ρ).after Fair.cost calls = q at *
  have htime : q.virtualTimeOf d.target ≤ Word.greatest := by
    obtain ⟨e, he, -⟩ := Option.map_eq_some_iff.mp hpriority
    have haccount : q.plain.account d.target = some e.account := by rw [account_plain, he, Option.map_some]
    rw [virtualTimeOf, he, Option.elim_some]
    exact l.time_le_greatest haccount
  have hrise := virtualTimeOf_pop hsound hpriority hpop
  rw [Fair.cost_eq hpower hsize] at hrise
  refine ⟨hrise, ?_⟩
  have hcost : 0 < ⌊(d.size * unitCost : ℚ) / 2 ^ n⌋₊ ↔ (2 : ℚ) ^ n ≤ d.size * unitCost := by
    rw [Nat.floor_pos, one_le_div (by positivity)]
  rw [hrise, ← hcost]
  generalize ⌊(d.size * unitCost : ℚ) / 2 ^ n⌋₊ = added
  rw [Word.add, Word.clip]
  have hgreatest : 0 < Word.greatest := by decide
  omega

/-- Two busy targets, the first at the priority `2 ^ 20`. -/
def light : List (Call Unit) :=
  [.addTarget ⟨1⟩ ⟨0x49800000⟩, .addTarget ⟨2⟩ ⟨0x3f800000⟩, .push ⟨1⟩ () 1, .push ⟨1⟩ () 2,
    .push ⟨2⟩ () 1]

theorem toRat_light : (⟨0x49800000⟩ : Number.Single).value.toRat = 2 ^ (20 : ℤ) := by
  have hvalue : (⟨0x49800000⟩ : Number.Single).value = ⟨2 ^ 23, -3⟩ := by decide +kernel
  rw [hvalue, Number.Binary.toRat]
  norm_num

/-- The second delivery of the first target, of two units. -/
theorem virtualTime_rises_iff_light :
    ∃ q', ((ofSettings .small).after Fair.cost (light ++ [.pop])).pop = (some ⟨⟨1⟩, 1, (), 2⟩, q') ∧
      q'.virtualTimeOf ⟨1⟩ =
        Word.add (((ofSettings .small).after Fair.cost (light ++ [.pop])).virtualTimeOf ⟨1⟩)
          (Word.clip ⌊((2 : ℕ) * unitCost : ℚ) / 2 ^ (20 : ℤ)⌋₊) ∧
      (((ofSettings .small).after Fair.cost (light ++ [.pop])).virtualTimeOf ⟨1⟩ < q'.virtualTimeOf ⟨1⟩ ↔
        ((ofSettings .small).after Fair.cost (light ++ [.pop])).virtualTimeOf ⟨1⟩ ≠ Word.greatest ∧
          (2 : ℚ) ^ (20 : ℤ) ≤ (2 : ℕ) * unitCost) := by
  have hpriority : ((ofSettings .small).after Fair.cost (light ++ [.pop])).priorityOf ⟨1⟩ =
      some ⟨0x49800000⟩ := by
    decide +kernel
  have hfirst : ((ofSettings .small).after Fair.cost (light ++ [.pop])).pop.1 = some ⟨⟨1⟩, 1, (), 2⟩ := by
    decide +kernel
  -- From here on the calls do not matter, and the queue that they leave need not be computed.
  generalize light ++ [.pop] = calls at *
  obtain ⟨q', hpop⟩ :
      ∃ q', ((ofSettings .small).after Fair.cost calls).pop = (some ⟨⟨1⟩, 1, (), 2⟩, q') :=
    ⟨_, Prod.ext hfirst rfl⟩
  have hsize : 2 ≤ 2 ^ 32 := by decide
  exact ⟨q', hpop, virtualTime_rises_iff .small calls hpop hpriority toRat_light hsize⟩

/-- The first delivery of the same run, of one unit, leaves the virtual time at zero, and the target is served
again although the other one has waited at the same time. -/
theorem served_for_nothing :
    (⟨0x49800000⟩ : Number.Single).value.toRat = 2 ^ (20 : ℤ) ∧
      let q := (ofSettings .small).after Fair.cost light
      q.priorityOf ⟨1⟩ = some ⟨0x49800000⟩ ∧ q.pop.1 = some ⟨⟨1⟩, 1, (), 1⟩ ∧
        q.virtualTimeOf ⟨1⟩ ≠ Word.greatest ∧ q.pop.2.virtualTimeOf ⟨1⟩ = q.virtualTimeOf ⟨1⟩ ∧
        q.pop.2.pop.1 = some ⟨⟨1⟩, 1, (), 2⟩ := by
  refine ⟨toRat_light, ?_⟩
  decide +kernel

end FairQueue

end Sluice
