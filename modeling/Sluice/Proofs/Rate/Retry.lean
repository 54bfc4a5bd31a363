import Sluice.Proofs.Rate.Admission

/-!
# Asking again

Whoever is told to wait sleeps for that long and asks again (`Limiter.retry`). The wait may have been too short: the
loop works on a sum that was cut down to a word, and samples of zero outlast the ones that count. But it never ends
between two samples. Each wait ends at the end of a sample in the window (`exists_end_of_wait`), so that each sleep
leaves fewer samples there (`length_inside_end_of_wait`), and when none is left there is nothing to wait for.

So a request is granted after at most as many sleeps as there are samples in the window, whatever its amount and
whatever the limit, and the instants at which it is made are words (`retry_ends`). All this needs only that the
samples stand in the order of time and that the running total is theirs.
-/

namespace Sluice

namespace Limiter

open Monitor (Steady hasExpired)

variable {l : Limiter} {now later amount count : Nat}

/-- The instant and the limiter after a number of sleeps, each for as long as the request is told to wait. -/
def retry (amount : Nat) : Nat → Nat → Limiter → Nat × Limiter
  | 0, now, l => (now, l)
  | count + 1, now, l =>
    let (wait, l) := l.waitTime amount now
    retry amount count (now + wait) l

/-- How long the request is told to wait after a number of sleeps. -/
def waitAfter (amount count now : Nat) (l : Limiter) : Nat :=
  ((retry amount count now l).2.waitTime amount (retry amount count now l).1).1

/-- To ask at some instant does not change what is in the window later. -/
theorem inside_asked (hle : now ≤ later) (amount : Nat) :
    (l.waitTime amount now).2.inside later = l.inside later := by
  rcases l.monitor_waitTime amount now with hsame | hevict
  · rw [inside, hsame, inside]
  · rw [inside, hevict, Monitor.samples_evict, Monitor.window_evict, Monitor.dropWhile_hasExpired_of_le hle, inside]

/-- When a wait is over, fewer samples are in the window. -/
theorem length_inside_end_of_wait (h : l.monitor.Steady now) (hpos : 0 < (l.waitTime amount now).1) :
    (l.inside (now + (l.waitTime amount now).1)).length < (l.inside now).length := by
  obtain ⟨s, hs, hend⟩ := exists_end_of_wait h.balanced hpos
  rw [inside_of_le (Nat.le_add_right _ _), Monitor.dropWhile_eq_filter (sorted_inside h now), hend,
    List.length_filter_lt_length_iff_exists]
  have hexpired : hasExpired l.monitor.window (Word.add s.time l.monitor.window) s = true :=
    Monitor.hasExpired_iff.mpr (Nat.le_refl _)
  exact ⟨s, hs, by rw [hexpired]; decide⟩

/-- The instants at which a request is made again are words. -/
theorem retry_le (h : l.monitor.Steady now) (hnow : now ≤ Word.greatest) (amount count : Nat) :
    (retry amount count now l).1 ≤ Word.greatest := by
  induction count generalizing l now with
  | zero => exact hnow
  | succ count ih =>
    have hle : now ≤ now + (l.waitTime amount now).1 := Nat.le_add_right _ _
    have hend : now + (l.waitTime amount now).1 ≤ Word.greatest := by
      rcases Nat.eq_zero_or_pos (l.waitTime amount now).1 with hzero | hpos
      · rw [hzero]
        exact hnow
      · exact add_waitTime_le h.balanced hpos
    exact ih ((steady_waitTime h amount).mono hle) hend

/-- The number of samples in the window bounds the number of sleeps. -/
theorem exists_waitAfter_eq_zero (h : l.monitor.Steady now) (amount : Nat) :
    ∃ count ≤ (l.inside now).length, (∀ earlier < count, 0 < waitAfter amount earlier now l) ∧
      waitAfter amount count now l = 0 := by
  generalize hlength : (l.inside now).length = length
  induction length using Nat.strong_induction_on generalizing l now with
  | _ length ih =>
    rcases Nat.eq_zero_or_pos (l.waitTime amount now).1 with hzero | hpos
    · exact ⟨0, Nat.zero_le _, fun _ hearlier => absurd hearlier (Nat.not_lt_zero _), hzero⟩
    · have hle : now ≤ now + (l.waitTime amount now).1 := Nat.le_add_right _ _
      have hfewer := length_inside_end_of_wait h hpos
      rw [← inside_asked hle amount, hlength] at hfewer
      obtain ⟨count, hcount, hwaits, hdone⟩ := ih _ hfewer ((steady_waitTime h amount).mono hle) rfl
      refine ⟨count + 1, by omega, fun earlier hearlier => ?_, hdone⟩
      cases earlier with
      | zero => exact hpos
      | succ earlier => exact hwaits earlier (by omega)

/-- **Asking again ends.** After any calls on a new limiter, whatever its limit is now, let a request of any amount
sleep for as long as it is told and ask again, while nothing is recorded. The instants at which it asks are words,
and after at most as many sleeps as there are samples in the window it need not wait any more and is granted. -/
theorem retry_ends {s : LimiterSettings} {l : Limiter} (hl : ofSettings? s = .ok l) (calls : List Call)
    (amount : Nat) {now : Nat} (hordered : (times calls ++ [now]).Pairwise (· ≤ ·)) (hnow : now ≤ Word.greatest) :
    (∀ count, (retry amount count now (l.after calls)).1 ≤ Word.greatest) ∧
      ∃ count ≤ ((l.after calls).monitor.evict now).samples.length,
        (∀ earlier < count, 0 < waitAfter amount earlier now (l.after calls)) ∧
          waitAfter amount count now (l.after calls) = 0 ∧
          ((retry amount count now (l.after calls)).2.tryAcquire amount
            (retry amount count now (l.after calls)).1).1 = .ok () := by
  obtain ⟨-, rfl⟩ := ofSettings?_eq_ok hl
  have h : ((ofSettings s).after calls).monitor.Steady now := steady_after s hordered
  obtain ⟨count, hcount, hwaits, hdone⟩ := exists_waitAfter_eq_zero h amount
  refine ⟨retry_le h hnow amount, count, ?_, hwaits, hdone, (tryAcquire_isOk _ _ _).mpr hdone⟩
  rw [Monitor.samples_evict]
  exact hcount

/-- A request above the budget that has to sleep twice, since an amount of zero outlasts the one that counts. -/
theorem retry_ends_trailing :
    let l := (ofSettings ⟨some 1000, 1000000⟩).after [.record 5 0, .setLimit (some 900), .record 0 10]
    (∀ count, (retry 2000 count 20 l).1 ≤ Word.greatest) ∧
      (0 < waitAfter 2000 0 20 l ∧ 0 < waitAfter 2000 1 20 l ∧ (l.monitor.evict 20).samples.length = 2) ∧
      ∃ count ≤ (l.monitor.evict 20).samples.length,
        (∀ earlier < count, 0 < waitAfter 2000 earlier 20 l) ∧ waitAfter 2000 count 20 l = 0 ∧
          ((retry 2000 count 20 l).2.tryAcquire 2000 (retry 2000 count 20 l).1).1 = .ok () := by
  intro l
  have hl : ofSettings? ⟨some 1000, 1000000⟩ = .ok (ofSettings ⟨some 1000, 1000000⟩) := rfl
  have hordered : (times [.record 5 0, .setLimit (some 900), .record 0 10] ++ [20]).Pairwise (· ≤ ·) := by decide
  have hnow : 20 ≤ Word.greatest := by decide
  obtain ⟨hwords, hends⟩ := retry_ends hl [.record 5 0, .setLimit (some 900), .record 0 10] 2000 hordered hnow
  exact ⟨hwords, by decide +kernel, hends⟩

end Limiter

end Sluice
