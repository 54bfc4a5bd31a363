import Sluice.Proofs.Rate.Admission

/-!
# Who waits longer

Of two amounts the larger one waits at least as long, and under a lower limit an amount waits at least as long as
under a higher one, where no limit is the highest of all (`waitTime_mono`). So nobody waits longer when the limit is
raised or removed.

A larger amount and a lower limit both mean less room, and room decides twice. What fits into less room fits into
more. And the total falls to a higher goal no later than to a lower one (`fallsAt_mono`). The loop does not run out
of samples as long as there are any, since the amounts it takes off add up to no less than the total, so an amount
that does not fit is told not to wait only if the window is empty, and then all are.
-/

namespace Sluice

open Sample

/-- The second limit is at least as high as the first one. No limit is higher than every limit. -/
def NoLower : Option Nat → Option Nat → Prop
  | _, none => True
  | none, some _ => False
  | some low, some high => low ≤ high

namespace Limiter

open Monitor (Steady)

variable {l l' : Limiter} {now later a b : Nat}

/-- The total falls to a higher goal no later than to a lower one. -/
theorem fallsAt_mono {window total low high early late : Nat} {samples : List Sample}
    (hsorted : samples.Pairwise (·.time ≤ ·.time)) (hle : low ≤ high)
    (hearly : fallsAt window high total samples = some early)
    (hlate : fallsAt window low total samples = some late) : early ≤ late := by
  induction samples generalizing total with
  | nil => cases hearly
  | cons s rest ih =>
    have hend : Word.add s.time window ≤ late := end_le_of_fallsAt hsorted hlate
    rw [fallsAt] at hearly hlate
    by_cases hhigh : total - Word.clip s.amount ≤ high
    · rw [if_pos hhigh] at hearly
      cases hearly
      exact hend
    · rw [if_neg hhigh] at hearly
      rw [if_neg (by omega)] at hlate
      exact ih (List.pairwise_cons.mp hsorted).2 hearly hlate

theorem budget_mono {low high : Nat} (hle : low ≤ high) (l : Limiter) : l.budget low ≤ l.budget high := by
  have hmul : low * l.window / 1000000 ≤ high * l.window / 1000000 :=
    Nat.div_le_div_right (Nat.mul_le_mul_right _ hle)
  rw [budget, budget, Word.clip, Word.clip]
  omega

/-- A smaller amount under a higher limit waits no longer. -/
theorem waitTime_le_of_le (h : l.monitor.Steady now) {low high : Nat} (hlimits : low ≤ high) (hamounts : a ≤ b) :
    (({ l with limit := some high } : Limiter).waitTime a later).1 ≤
      (({ l with limit := some low } : Limiter).waitTime b later).1 := by
  have hbudget : l.budget low ≤ l.budget high := budget_mono hlimits l
  have hwait (limit amount : Nat) :
      (({ l with limit := some limit } : Limiter).waitTime amount later).1 =
        if Word.add (Word.clip (sum (l.inside later))) amount ≤ l.budget limit then 0
        else (fallsAt l.monitor.window (l.budget limit - amount) (Word.clip (sum (l.inside later)))
          (l.inside later)).elim 0 (· - later) :=
    waitTime_fst (l := { l with limit := some limit }) rfl h.balanced amount later
  rw [hwait, hwait]
  by_cases hfits : Word.add (Word.clip (sum (l.inside later))) a ≤ l.budget high
  · rw [if_pos hfits]
    exact Nat.zero_le _
  have hover : ¬ Word.add (Word.clip (sum (l.inside later))) b ≤ l.budget low := by
    rw [Word.add] at hfits ⊢
    omega
  rw [if_neg hfits, if_neg hover]
  by_cases hnone : l.inside later = []
  · rw [hnone]
    exact Nat.le_refl 0
  obtain ⟨early, hearly⟩ := fallsAt_isSome l.monitor.window (l.budget high - a) hnone (clip_sum_le _)
  obtain ⟨late, hlate⟩ := fallsAt_isSome l.monitor.window (l.budget low - b) hnone (clip_sum_le _)
  have hroom : l.budget low - b ≤ l.budget high - a := by omega
  have hfalls : early ≤ late := fallsAt_mono (sorted_inside h later) hroom hearly hlate
  rw [hearly, hlate, Option.elim_some, Option.elim_some]
  omega

/-- The same where there need not be a limit. -/
theorem waitTime_le_of_noLower (h : l.monitor.Steady now) {low high : Option Nat} (hlimits : NoLower low high)
    (hamounts : a ≤ b) :
    (({ l with limit := high } : Limiter).waitTime a later).1 ≤
      (({ l with limit := low } : Limiter).waitTime b later).1 := by
  cases high with
  | none => exact Nat.zero_le _
  | some high =>
    cases low with
    | none => exact hlimits.elim
    | some low => exact waitTime_le_of_le h hlimits hamounts

theorem setLimit_eq_ok {limit : Option Nat} (hset : l.setLimit limit = .ok l') : l' = { l with limit } := by
  rw [setLimit] at hset
  cases hvalid : (LimiterSettings.mk limit l.window).validate with
  | error e =>
    rw [hvalid] at hset
    cases hset
  | ok =>
    rw [hvalid] at hset
    exact (Except.ok.inj hset).symm

/-- **Waits are monotone.** After any calls on a new limiter, ask at `now` how long to wait. Under one limit, a
larger amount waits at least as long. With one record, an amount waits under a higher limit at most as long. So a
change of the limit to one that is no lower, or to none, lets nobody wait longer. -/
theorem waitTime_mono {s : LimiterSettings} {new : Limiter} (hnew : ofSettings? s = .ok new) (calls : List Call)
    {now : Nat} (hordered : (times calls ++ [now]).Pairwise (· ≤ ·)) :
    let l := new.after calls
    (∀ limit a b, a ≤ b → (({ l with limit } : Limiter).waitTime a now).1 ≤
        (({ l with limit } : Limiter).waitTime b now).1) ∧
      (∀ low high a, NoLower low high → (({ l with limit := high } : Limiter).waitTime a now).1 ≤
        (({ l with limit := low } : Limiter).waitTime a now).1) ∧
      ∀ limit raised a, NoLower l.limit limit → l.setLimit limit = .ok raised →
        (raised.waitTime a now).1 ≤ (l.waitTime a now).1 := by
  obtain ⟨-, rfl⟩ := ofSettings?_eq_ok hnew
  intro l
  have h : l.monitor.Steady now := steady_after s hordered
  refine ⟨fun limit a b hamounts => ?_, fun low high a hlimits => ?_, fun limit raised a hlimits hset => ?_⟩
  · refine waitTime_le_of_noLower h ?_ hamounts
    cases limit with
    | none => trivial
    | some limit => exact Nat.le_refl limit
  · exact waitTime_le_of_noLower h hlimits (Nat.le_refl a)
  · rw [setLimit_eq_ok hset]
    exact waitTime_le_of_noLower h hlimits (Nat.le_refl a)

/-- Three amounts in the window, and a request that is refused: the wait for 50 units grows with the amount, shrinks
when the limit is raised, and goes when it is removed. -/
theorem waitTime_mono_raised :
    let l := (ofSettings .small).after [.record 60 0, .record 30 10, .record 10 20, .tryAcquire 5 25]
    (l.waitTime 50 30).1 = 99970 ∧ (l.waitTime 80 30).1 = 99980 ∧
      ((l.waitTime 50 30).1 ≤ (l.waitTime 80 30).1) ∧
      (({ l with limit := some 1500 } : Limiter).waitTime 50 30).1 ≤
        (({ l with limit := some 800 } : Limiter).waitTime 50 30).1 ∧
      ∃ raised, l.setLimit none = .ok raised ∧ (raised.waitTime 50 30).1 ≤ (l.waitTime 50 30).1 := by
  intro l
  have hnew : ofSettings? .small = .ok (ofSettings .small) := rfl
  have hordered : (times [.record 60 0, .record 30 10, .record 10 20, .tryAcquire 5 25] ++ [30]).Pairwise
      (· ≤ ·) := by decide
  obtain ⟨hamounts, hlimits, hraised⟩ :=
    waitTime_mono hnew [.record 60 0, .record 30 10, .record 10 20, .tryAcquire 5 25] hordered
  refine ⟨by decide +kernel, by decide +kernel, ?_, ?_, ?_⟩
  · exact hamounts l.limit 50 80 (by decide)
  · exact hlimits (some 800) (some 1500) 50 (by show (800 : Nat) ≤ 1500; decide)
  · exact ⟨{ l with limit := none }, rfl, hraised none _ 50 trivial rfl⟩

end Limiter

end Sluice
