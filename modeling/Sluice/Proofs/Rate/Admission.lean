import Sluice.Proofs.Rate.Waiting

/-!
# When a refused amount is admitted

What a limiter has admitted leaves the window sample by sample, and an amount that fits into the budget has to
wait for the first instant at which enough has left. `fallsAt_le_iff` says that `fallsAt` finds this instant: it
has come exactly if some sample has left and what is still in the window is no more than the goal. So the wait is
neither too long nor too short, and it counts down while nothing is recorded (`waitTime_counts_down`).

Both hold as long as the sum over the window is a word. The loop subtracts amounts that were cut down to words,
and from a larger sum it would stop too early.

An amount above the budget needs an empty window, and it waits for the first instant at which the sum over the
window is zero. Samples of zero that were taken later are still there then, so that the amount is refused again
(`granted_after_wait_iff`, `refused_again`).
-/

namespace Sluice

open Sample

/-- Some of the takings are followed at a later instant, and from then on by amounts of zero alone. -/
def Sample.TrailsOff (takings : List Sample) : Prop :=
  ∃ first ∈ takings, ∃ other ∈ takings, first.time < other.time ∧
    sum (takings.filter (first.time < ·.time)) = 0

instance (takings : List Sample) : Decidable (TrailsOff takings) :=
  inferInstanceAs (Decidable (∃ first ∈ takings, ∃ other ∈ takings, _))

namespace Monitor

/-! ### Merged recordings -/

theorem sum_filter_append (p : Nat → Bool) (amount now : Nat) (samples : List Sample) :
    sum ((append amount now samples).filter fun s => p s.time) =
      sum (samples.filter fun s => p s.time) + if p now then amount else 0 := by
  fun_induction append amount now samples with
  | case1 => cases hp : p now <;> simp [hp]
  | case2 last htime => cases hp : p now <;> simp [hp, htime]
  | case3 last hne => cases hp : p last.time <;> cases hp' : p now <;> simp [hp, hp']
  | case4 s rest hrest ih =>
    cases hp : p s.time with
    | false =>
      simp only [List.filter_cons, hp]
      exact ih
    | true =>
      simp only [List.filter_cons, hp, if_true, sum_cons, ih]
      omega

/-- Merging keeps the sum over any set of instants. -/
theorem sum_filter_merge (p : Nat → Bool) (recordings : List Sample) :
    sum ((merge recordings).filter fun s => p s.time) = sum (recordings.filter fun s => p s.time) := by
  induction recordings using List.reverseRecOn with
  | nil => rfl
  | append_singleton recordings s ih =>
    rw [merge_concat, sum_filter_append, ih, List.filter_append, Sample.sum_append]
    cases hp : p s.time <;> simp [hp]

theorem exists_mem_append (amount now : Nat) (samples : List Sample) :
    (∃ s ∈ append amount now samples, s.time = now) ∧
      ∀ r ∈ samples, ∃ s ∈ append amount now samples, s.time = r.time := by
  fun_induction append amount now samples with
  | case1 => simp
  | case2 last htime => simp [htime]
  | case3 last hne => simp
  | case4 s rest hrest ih =>
    obtain ⟨⟨last, hlast, htime⟩, hothers⟩ := ih
    refine ⟨⟨last, List.mem_cons_of_mem _ hlast, htime⟩, fun r hr => ?_⟩
    rcases List.mem_cons.mp hr with rfl | hr
    · exact ⟨r, List.mem_cons_self, rfl⟩
    · obtain ⟨s', hs', htime⟩ := hothers r hr
      exact ⟨s', List.mem_cons_of_mem _ hs', htime⟩

/-- Merging leaves out no instant. -/
theorem exists_mem_merge {recordings : List Sample} {r : Sample} (hr : r ∈ recordings) :
    ∃ s ∈ merge recordings, s.time = r.time := by
  induction recordings using List.reverseRecOn with
  | nil => cases hr
  | append_singleton recordings last ih =>
    rw [merge_concat]
    obtain ⟨hnew, hold⟩ := exists_mem_append last.amount last.time (merge recordings)
    rcases List.mem_append.mp hr with hr | hr
    · obtain ⟨s, hs, htime⟩ := ih hr
      obtain ⟨s', hs', htime'⟩ := hold s hs
      exact ⟨s', hs', htime'.trans htime⟩
    · rw [List.mem_singleton.mp hr]
      exact hnew

theorem trailsOff_merge {recordings : List Sample} : TrailsOff (merge recordings) ↔ TrailsOff recordings := by
  have hsum (time : Nat) := sum_filter_merge (fun t => decide (time < t)) recordings
  constructor
  · rintro ⟨s, hs, u, hu, hlt, hzero⟩
    obtain ⟨r, hr, htime⟩ := time_of_mem_merge hs
    obtain ⟨v, hv, htime'⟩ := time_of_mem_merge hu
    refine ⟨r, hr, v, hv, by omega, ?_⟩
    rw [← hsum, htime]
    exact hzero
  · rintro ⟨r, hr, v, hv, hlt, hzero⟩
    obtain ⟨s, hs, htime⟩ := exists_mem_merge hr
    obtain ⟨u, hu, htime'⟩ := exists_mem_merge hv
    refine ⟨s, hs, u, hu, by omega, ?_⟩
    rw [htime, hsum]
    exact hzero

theorem sorted_merge {recordings : List Sample} (hsorted : recordings.Pairwise (·.time ≤ ·.time)) :
    (merge recordings).Pairwise (·.time ≤ ·.time) := by
  induction recordings using List.reverseRecOn with
  | nil => exact List.Pairwise.nil
  | append_singleton recordings s ih =>
    obtain ⟨hbefore, -, hle⟩ := List.pairwise_append.mp hsorted
    rw [merge_concat]
    refine sorted_append (ih hbefore) fun r hr => ?_
    obtain ⟨r', hr', htime⟩ := time_of_mem_merge hr
    have := hle r' hr' s (List.mem_singleton.mpr rfl)
    omega

theorem Holds.steady {m : Monitor} {recordings : List Sample} {now : Nat} (h : m.Holds recordings now) :
    m.Steady now where
  balanced := h.balanced
  sorted := by
    rw [h.samples]
    exact sorted_merge (h.sorted.sublist (List.dropWhile_sublist _))
  time_le s hs := by
    rw [h.samples] at hs
    obtain ⟨r, hr, htime⟩ := time_of_mem_merge hs
    rw [← htime]
    exact h.time_le r ((List.dropWhile_sublist _).subset hr)

/-- At the greatest word everything has left the window. -/
theorem hasExpired_of_greatest_le {window now : Nat} (hnow : Word.greatest ≤ now) (s : Sample) :
    hasExpired window now s = true :=
  hasExpired_iff.mpr (Nat.le_trans (Word.add_le _ _) hnow)

/-- Of samples in order, those in front that have left the window are all that have left it. -/
theorem dropWhile_eq_filter {window now : Nat} {samples : List Sample}
    (hsorted : samples.Pairwise (·.time ≤ ·.time)) :
    samples.dropWhile (hasExpired window now) = samples.filter (!hasExpired window now ·) := by
  induction samples with
  | nil => rfl
  | cons s rest ih =>
    obtain ⟨hfirst, hrest⟩ := List.pairwise_cons.mp hsorted
    cases hexpired : hasExpired window now s with
    | true =>
      rw [List.dropWhile_cons_of_pos hexpired, List.filter_cons_of_neg (by rw [hexpired]; decide)]
      exact ih hrest
    | false =>
      rw [List.dropWhile_cons_of_neg (by rw [hexpired]; decide)]
      refine (List.filter_eq_self.mpr fun r hr => ?_).symm
      have hkept : r ∈ (s :: rest).dropWhile (hasExpired window now) := by
        rw [List.dropWhile_cons_of_neg (by rw [hexpired]; decide)]
        exact hr
      rw [not_hasExpired_of_mem_dropWhile hsorted hkept]
      rfl

end Monitor

namespace Limiter

open Monitor (Steady hasExpired)

/-! ### The instant at which enough has left -/

/-- The total does not fall to a goal before the first sample has left. -/
theorem end_le_of_fallsAt {window goal total free : Nat} {s : Sample} {rest : List Sample}
    (hsorted : (s :: rest).Pairwise (·.time ≤ ·.time))
    (hfree : fallsAt window goal total (s :: rest) = some free) : Word.add s.time window ≤ free := by
  obtain ⟨s', hs', rfl⟩ := mem_of_fallsAt hfree
  rcases List.mem_cons.mp hs' with rfl | hs'
  · exact Nat.le_refl _
  · have := (List.pairwise_cons.mp hsorted).1 s' hs'
    rw [Word.add, Word.add]
    omega

/-- The total has fallen to a goal exactly if some sample has left and what stays is no more than the goal. -/
theorem fallsAt_le_iff {window goal free later : Nat} {samples : List Sample}
    (hsorted : samples.Pairwise (·.time ≤ ·.time)) (hword : sum samples ≤ Word.greatest)
    (hfree : fallsAt window goal (sum samples) samples = some free) :
    free ≤ later ↔ samples.takeWhile (hasExpired window later) ≠ [] ∧
      sum (samples.dropWhile (hasExpired window later)) ≤ goal := by
  induction samples with
  | nil => cases hfree
  | cons s rest ih =>
    have hrest := (List.pairwise_cons.mp hsorted).2
    have hend : Word.add s.time window ≤ free := end_le_of_fallsAt hsorted hfree
    rw [sum_cons] at hword
    have hleft : s.amount + sum rest - Word.clip s.amount = sum rest := by
      rw [Word.clip_eq_of_le (by omega)]
      omega
    rw [fallsAt, sum_cons, hleft] at hfree
    cases hexpired : hasExpired window later s with
    | false =>
      rw [List.takeWhile_cons_of_neg (by rw [hexpired]; decide)]
      rw [← Bool.not_eq_true, Monitor.hasExpired_iff] at hexpired
      refine iff_of_false (fun hle => ?_) (fun h => h.1 rfl)
      omega
    | true =>
      rw [List.takeWhile_cons_of_pos hexpired, List.dropWhile_cons_of_pos hexpired]
      have hends := Monitor.hasExpired_iff.mp hexpired
      split at hfree
      · next hlow =>
        -- With the first sample enough has left, and what leaves after it only lowers the total.
        cases hfree
        have hle := sum_le_of_sublist (List.dropWhile_sublist (l := rest) (hasExpired window later))
        exact iff_of_true hends ⟨List.cons_ne_nil _ _, by omega⟩
      · next hhigh =>
        rw [ih hrest (by omega) hfree]
        refine and_congr_left fun hle => iff_of_true (fun hnone => ?_) (List.cons_ne_nil _ _)
        have hsplit := List.takeWhile_append_dropWhile (p := hasExpired window later) (l := rest)
        rw [hnone, List.nil_append] at hsplit
        rw [hsplit] at hle
        exact hhigh hle

variable {l : Limiter} {limit now later amount : Nat}

theorem inside_of_le (hle : now ≤ later) :
    l.inside later = (l.inside now).dropWhile (hasExpired l.monitor.window later) :=
  (Monitor.dropWhile_hasExpired_of_le hle l.monitor.samples).symm

/-- While nothing is recorded, the sum over the window only falls. -/
theorem sum_inside_le (hle : now ≤ later) : sum (l.inside later) ≤ sum (l.inside now) := by
  rw [inside_of_le hle]
  exact sum_le_of_sublist (List.dropWhile_sublist _)

theorem sorted_inside (h : l.monitor.Steady now) (later : Nat) :
    (l.inside later).Pairwise (·.time ≤ ·.time) :=
  h.sorted.sublist (List.dropWhile_sublist _)

theorem lt_of_mem_inside (h : l.monitor.Steady now) {s : Sample} (hs : s ∈ l.inside later) :
    later < Word.add s.time l.monitor.window := by
  have hkept := Monitor.not_hasExpired_of_mem_dropWhile h.sorted hs
  rw [← Bool.not_eq_true, Monitor.hasExpired_iff] at hkept
  omega

/-- An amount that does not fit has to wait for the end of a sample, and that is the first instant at which
some sample has left and what stays is no more than the budget leaves. -/
theorem waits_until (hlimit : l.limit = some limit) (h : l.monitor.Steady now)
    (hword : sum (l.inside later) ≤ Word.greatest) (hne : l.inside later ≠ [])
    (hover : ¬ Word.add (sum (l.inside later)) amount ≤ l.budget limit) :
    0 < (l.waitTime amount later).1 ∧
      (∃ s ∈ l.inside later, later + (l.waitTime amount later).1 = Word.add s.time l.monitor.window) ∧
      ∀ free, later + (l.waitTime amount later).1 ≤ free ↔
        (l.inside later).takeWhile (hasExpired l.monitor.window free) ≠ [] ∧
          sum ((l.inside later).dropWhile (hasExpired l.monitor.window free)) ≤ l.budget limit - amount := by
  have hclip : Word.clip (sum (l.inside later)) = sum (l.inside later) := Word.clip_eq_of_le hword
  have htotal := clip_sum_le (l.inside later)
  rw [hclip] at htotal
  obtain ⟨free, hfree⟩ := fallsAt_isSome l.monitor.window (l.budget limit - amount) hne htotal
  obtain ⟨s, hs, hend⟩ := mem_of_fallsAt hfree
  have hlater := lt_of_mem_inside h hs
  have hwait : (l.waitTime amount later).1 = free - later := by
    rw [waitTime_fst hlimit h.balanced, hclip, if_neg hover, hfree, Option.elim_some]
  have hsum : later + (l.waitTime amount later).1 = free := by omega
  refine ⟨by omega, ⟨s, hs, hsum.trans hend⟩, fun instant => ?_⟩
  rw [hsum]
  exact fallsAt_le_iff (sorted_inside h later) hword hfree

/-- An amount need not wait exactly if it fits beside what is in the window, or if nothing is. -/
theorem waitTime_eq_zero_iff_inside (hlimit : l.limit = some limit) (h : l.monitor.Steady now)
    (hword : sum (l.inside later) ≤ Word.greatest) :
    (l.waitTime amount later).1 = 0 ↔
      Word.add (sum (l.inside later)) amount ≤ l.budget limit ∨ l.inside later = [] := by
  have hclip : Word.clip (sum (l.inside later)) = sum (l.inside later) := Word.clip_eq_of_le hword
  by_cases hover : Word.add (sum (l.inside later)) amount ≤ l.budget limit
  · refine iff_of_true ?_ (.inl hover)
    rw [waitTime_fst hlimit h.balanced, hclip, if_pos hover]
  by_cases hne : l.inside later = []
  · refine iff_of_true ?_ (.inr hne)
    rw [waitTime_fst hlimit h.balanced, hclip, if_neg hover, hne]
    rfl
  · obtain ⟨hpos, -⟩ := waits_until hlimit h hword hne hover
    refine iff_of_false (by omega) ?_
    rintro (hfits | hnone)
    · exact hover hfits
    · exact hne hnone

/-- An amount within the budget fits exactly from the end of its wait on. -/
theorem fits_iff (hlimit : l.limit = some limit) (h : l.monitor.Steady now)
    (hword : sum (l.inside now) ≤ Word.greatest) (hamount : amount ≤ l.budget limit) (hle : now ≤ later) :
    Word.add (sum (l.inside later)) amount ≤ l.budget limit ↔
      now + (l.waitTime amount now).1 ≤ later := by
  have hinside : l.inside later = (l.inside now).dropWhile (hasExpired l.monitor.window later) :=
    inside_of_le hle
  have hfall : sum (l.inside later) ≤ sum (l.inside now) := sum_inside_le hle
  by_cases hover : Word.add (sum (l.inside now)) amount ≤ l.budget limit
  · have hzero := (waitTime_eq_zero_iff_inside hlimit h hword).mpr (.inl hover)
    refine iff_of_true ?_ (by omega)
    rw [Word.add] at hover ⊢
    omega
  have hne : l.inside now ≠ [] := by
    intro hnil
    rw [hnil, sum_nil, Word.add] at hover
    omega
  obtain ⟨-, -, hfree⟩ := waits_until hlimit h hword hne hover
  rw [hfree, ← hinside]
  -- Short of the greatest word, to fit is to leave room, and room comes only when something leaves.
  rw [Word.add] at hover ⊢
  constructor
  · intro hfits
    refine ⟨fun hnone => ?_, by omega⟩
    have hsplit := List.takeWhile_append_dropWhile (p := hasExpired l.monitor.window later)
      (l := l.inside now)
    rw [hnone, List.nil_append, ← hinside] at hsplit
    rw [hsplit] at hfits
    exact hover hfits
  · rintro ⟨-, hroom⟩
    omega

/-- Nobody waits for an empty window. -/
theorem waitTime_of_inside_nil (hnil : l.inside now = []) (amount : Nat) :
    (l.waitTime amount now).1 = 0 := by
  have hsamples : (l.monitor.evict now).samples = [] := by
    rw [Monitor.samples_evict]
    exact hnil
  rcases Option.eq_none_or_eq_some l.limit with hlimit | ⟨limit, hlimit⟩
  · simp only [waitTime, hlimit]
  · simp only [waitTime, hlimit, freeAt_eq, hsamples, fallsAt]
    split <;> rfl

theorem inside_of_greatest_le (hnow : Word.greatest ≤ now) : l.inside now = [] :=
  List.dropWhile_eq_nil_iff.mpr fun s _ => Monitor.hasExpired_of_greatest_le hnow s

/-- The samples that are in the window at the end of an earlier one are of a later instant. -/
theorem lt_of_mem_inside_end (h : l.monitor.Steady now) {s r : Sample}
    (hr : r ∈ l.inside (Word.add s.time l.monitor.window)) : s.time < r.time := by
  have hkept := lt_of_mem_inside h hr
  rw [Word.add, Word.add] at hkept
  omega

/-- A wait for the first instant at which the sum over the window is zero ends before everything has left, if the
window trails off. Only at the greatest word it does not. -/
theorem inside_ne_nil_of_trailsOff (h : l.monitor.Steady now) {free : Nat} (hle : now ≤ free)
    (hword : free < Word.greatest) (htrails : TrailsOff (l.inside now))
    (hzero : ∀ instant, free ≤ instant ↔
      (l.inside now).takeWhile (hasExpired l.monitor.window instant) ≠ [] ∧
        sum ((l.inside now).dropWhile (hasExpired l.monitor.window instant)) = 0) :
    l.inside free ≠ [] := by
  obtain ⟨first, hfirst, other, hother, hlt, hrest⟩ := htrails
  have hsorted := sorted_inside h now
  have hends : hasExpired l.monitor.window (Word.add first.time l.monitor.window) first = true :=
    Monitor.hasExpired_iff.mpr (Nat.le_refl _)
  -- Nothing that counts is left at the end of `first`, so the wait is over then.
  have hearly : free ≤ Word.add first.time l.monitor.window := by
    refine (hzero _).mpr ⟨fun hnone => ?_, ?_⟩
    · have hall := List.takeWhile_append_dropWhile
        (p := hasExpired l.monitor.window (Word.add first.time l.monitor.window)) (l := l.inside now)
      rw [hnone, List.nil_append] at hall
      have hkept := Monitor.not_hasExpired_of_mem_dropWhile hsorted (hall.symm ▸ hfirst)
      rw [hends] at hkept
      cases hkept
    · rw [Monitor.dropWhile_eq_filter hsorted, ← Nat.le_zero, ← hrest]
      refine sum_le_of_sublist (List.monotone_filter_right _ fun r hkept => ?_)
      rw [Bool.not_eq_true', ← Bool.not_eq_true, Monitor.hasExpired_iff, Word.add, Word.add] at hkept
      rw [decide_eq_true_eq]
      omega
  intro hnil
  rw [inside_of_le hle] at hnil
  have hgone := Monitor.hasExpired_iff.mp (List.dropWhile_eq_nil_iff.mp hnil other hother)
  rw [Word.add] at hgone hearly
  omega

/-- What is left of a window at the end of one of its samples, and adds up to nothing, was trailing off. -/
theorem trailsOff_of_inside_ne_nil (h : l.monitor.Steady now) {s : Sample} (hs : s ∈ l.inside now)
    (hle : now ≤ Word.add s.time l.monitor.window)
    (hzero : sum (l.inside (Word.add s.time l.monitor.window)) = 0)
    (hne : l.inside (Word.add s.time l.monitor.window) ≠ []) : TrailsOff (l.inside now) := by
  obtain ⟨other, hother⟩ := List.exists_mem_of_ne_nil _ hne
  have hkept := lt_of_mem_inside h hother
  have hlt := lt_of_mem_inside_end h hother
  rw [inside_of_le hle] at hother hzero
  rw [Monitor.dropWhile_eq_filter (sorted_inside h now)] at hzero
  refine ⟨s, hs, other, (List.dropWhile_sublist _).subset hother, hlt, ?_⟩
  rw [← Nat.le_zero, ← hzero]
  refine sum_le_of_sublist (List.monotone_filter_right _ fun r hlater => ?_)
  rw [decide_eq_true_eq] at hlater
  rw [Bool.not_eq_true', ← Bool.not_eq_true, Monitor.hasExpired_iff]
  rw [Word.add, Word.add] at hkept ⊢
  omega

/-- When the sum over a window has come down to zero, the window is empty unless it trails off. -/
theorem inside_eq_nil_iff (h : l.monitor.Steady now) {free : Nat} {s : Sample} (hs : s ∈ l.inside now)
    (hend : free = Word.add s.time l.monitor.window) (hle : now ≤ free)
    (hzero : ∀ instant, free ≤ instant ↔
      (l.inside now).takeWhile (hasExpired l.monitor.window instant) ≠ [] ∧
        sum ((l.inside now).dropWhile (hasExpired l.monitor.window instant)) = 0) :
    l.inside free = [] ↔ free = Word.greatest ∨ ¬ TrailsOff (l.inside now) := by
  constructor
  · intro hnil
    by_cases hlast : free = Word.greatest
    · exact .inl hlast
    have hword : free < Word.greatest := Nat.lt_of_le_of_ne (hend ▸ Word.add_le _ _) hlast
    exact .inr fun htrails => inside_ne_nil_of_trailsOff h hle hword htrails hzero hnil
  · rintro (hlast | hsteady)
    · exact inside_of_greatest_le (Nat.le_of_eq hlast.symm)
    · by_contra hne
      have hsum := ((hzero free).mp (Nat.le_refl _)).2
      rw [← inside_of_le hle] at hsum
      subst hend
      exact hsteady (trailsOff_of_inside_ne_nil h hs hle hsum hne)

/-! ### Runs -/

theorem monitor_waitTime (l : Limiter) (amount now : Nat) :
    (l.waitTime amount now).2.monitor = l.monitor ∨
      (l.waitTime amount now).2.monitor = l.monitor.evict now := by
  rcases Option.eq_none_or_eq_some l.limit with hlimit | ⟨limit, hlimit⟩
  · left
    simp only [waitTime, hlimit]
  · right
    rw [waitTime_snd hlimit]

/-- The monitor of a limiter holds what was taken, as of an instant that is not later than `now`. A limiter
without a limit drops nothing when it is asked. -/
structure Remembers (s : LimiterSettings) (l : Limiter) (takings : List Sample) (now : Nat) : Prop where
  window_eq : l.monitor.window = s.window
  holds : ∃ kept ≤ now, l.monitor.Holds takings kept

namespace Remembers

variable {s : LimiterSettings} {takings : List Sample}

theorem ofSettings (hwindow : 0 < s.window) (now : Nat) :
    Remembers s (Limiter.ofSettings s) [] now where
  window_eq := Nat.max_eq_left hwindow
  holds := ⟨now, Nat.le_refl now, .ofWindow s.window now⟩

theorem mono (r : Remembers s l takings now) (hle : now ≤ later) : Remembers s l takings later where
  window_eq := r.window_eq
  holds := by
    obtain ⟨kept, hkept, hholds⟩ := r.holds
    exact ⟨kept, Nat.le_trans hkept hle, hholds⟩

theorem evict (r : Remembers s l takings now) (hle : now ≤ later) {l' : Limiter}
    (hmonitor : l'.monitor = l.monitor.evict later) : Remembers s l' takings later where
  window_eq := by
    rw [hmonitor, Monitor.window_evict]
    exact r.window_eq
  holds := by
    obtain ⟨kept, hkept, hholds⟩ := r.holds
    rw [hmonitor]
    exact ⟨later, Nat.le_refl later, hholds.evict (Nat.le_trans hkept hle)⟩

theorem record (r : Remembers s l takings now) (hwindow : 0 < s.window) (hle : now ≤ later)
    (hlater : later < Word.greatest) (amount : Nat) :
    Remembers s (l.record amount later) (takings ++ [⟨later, amount⟩]) later where
  window_eq := (Monitor.window_evict later l.monitor).trans r.window_eq
  holds := by
    obtain ⟨kept, hkept, hholds⟩ := r.holds
    have hpos : 0 < l.monitor.window := by
      rw [r.window_eq]
      exact hwindow
    exact ⟨later, Nat.le_refl later, hholds.record hpos (Nat.le_trans hkept hle) hlater amount⟩

theorem waitTime (r : Remembers s l takings now) (hle : now ≤ later) (amount : Nat) :
    Remembers s (l.waitTime amount later).2 takings later := by
  rcases l.monitor_waitTime amount later with hsame | hevict
  · exact ⟨hsame ▸ r.window_eq, hsame ▸ (r.mono hle).holds⟩
  · exact r.evict hle hevict

/-- Every call keeps what was taken, and adds what it takes. -/
theorem step (r : Remembers s l takings now) (hwindow : 0 < s.window) {call : Call}
    (hcall : ∀ t ∈ call.time?, now ≤ t ∧ t < Word.greatest) (hle : ∀ t ∈ call.time?, t ≤ later)
    (hnow : now ≤ later) : Remembers s (l.step call) (takings ++ l.taking call) later := by
  cases call with
  | tryAcquire amount t =>
    obtain ⟨hordered, hword⟩ := hcall t rfl
    refine mono ?_ (hle t rfl)
    rw [Limiter.step, taking, tryAcquire_eq]
    split
    · exact (r.waitTime hordered amount).record hwindow (Nat.le_refl t) hword amount
    · rw [if_neg (by simp [Except.isOk, Except.toBool]), List.append_nil]
      exact r.waitTime hordered amount
  | waitTime amount t =>
    have hnone : l.taking (.waitTime amount t) = [] := rfl
    rw [hnone, List.append_nil]
    exact (r.waitTime (hcall t rfl).1 amount).mono (hle t rfl)
  | record amount t =>
    obtain ⟨hordered, hword⟩ := hcall t rfl
    exact (r.record hwindow hordered hword amount).mono (hle t rfl)
  | totalInWindow t =>
    have hnone : l.taking (.totalInWindow t) = [] := rfl
    rw [hnone, List.append_nil]
    exact (r.evict (hcall t rfl).1 rfl).mono (hle t rfl)
  | speed t =>
    have hnone : l.taking (.speed t) = [] := rfl
    rw [hnone, List.append_nil]
    exact (r.evict (hcall t rfl).1 rfl).mono (hle t rfl)
  | setLimit limit =>
    have hnone : l.taking (.setLimit limit) = [] := rfl
    rw [hnone, List.append_nil]
    have hsame : (l.step (.setLimit limit)).monitor = l.monitor := l.monitor_step_setLimit limit
    exact ⟨hsame ▸ r.window_eq, hsame ▸ (r.mono hnow).holds⟩

theorem run (r : Remembers s l takings now) (hwindow : 0 < s.window) {calls : List Call}
    (hordered : (now :: times calls ++ [later]).Pairwise (· ≤ ·))
    (hword : ∀ t ∈ times calls, t < Word.greatest) :
    Remembers s (l.after calls) (takings ++ l.taken calls) later := by
  induction calls generalizing l takings now with
  | nil =>
    rw [taken, List.append_nil]
    refine r.mono ?_
    simpa [times] using hordered
  | cons call calls ih =>
    have htimes : times (call :: calls) = call.time?.toList ++ times calls := by
      rw [times, List.filterMap_cons]
      cases call.time? <;> rfl
    rw [htimes] at hordered hword
    rw [taken, ← List.append_assoc]
    show Remembers s ((l.step call).after calls) (takings ++ l.taking call ++ (l.step call).taken calls) later
    -- The clock stands at the instant of the last call that has one.
    cases htime : call.time? with
    | none =>
      rw [htime] at hordered hword
      have hstep : Remembers s (l.step call) (takings ++ l.taking call) now :=
        r.step hwindow (by simp [htime]) (by simp [htime]) (Nat.le_refl now)
      exact ih hstep hordered hword
    | some t =>
      rw [htime, Option.toList_some] at hordered hword
      obtain ⟨hnow, hrest⟩ := List.pairwise_cons.mp hordered
      have hle : now ≤ t := hnow t (by simp)
      have hshort : t < Word.greatest := hword t (by simp)
      have hstep : Remembers s (l.step call) (takings ++ l.taking call) t :=
        r.step hwindow (by simpa [htime] using ⟨hle, hshort⟩) (by simp [htime]) hle
      refine ih hstep ?_ fun t' ht' => hword t' (List.mem_append_right _ ht')
      exact hrest

theorem steady (r : Remembers s l takings now) : l.monitor.Steady now := by
  obtain ⟨kept, hkept, hholds⟩ := r.holds
  exact hholds.steady.mono hkept

/-- What is in the window of the limiter is what was taken in it. -/
theorem inside_eq (r : Remembers s l takings now) (hle : now ≤ later) (hlater : later < Word.greatest) :
    l.inside later = Monitor.merge (takings.filter (·.inWindow s.window later)) := by
  obtain ⟨kept, hkept, hholds⟩ := r.holds
  have h := hholds.evict (Nat.le_trans hkept hle)
  have hinside : (l.monitor.evict later).samples = l.inside later := Monitor.samples_evict later l.monitor
  rw [← hinside, h.samples, Monitor.window_evict, r.window_eq,
    Monitor.dropWhile_hasExpired hlater h.sorted h.time_le]

theorem sum_inside (r : Remembers s l takings now) (hnow : now < Word.greatest) :
    sum (l.inside now) = sum (takings.filter (·.inWindow s.window now)) := by
  rw [r.inside_eq (Nat.le_refl now) hnow, Monitor.sum_merge]

theorem budget_eq (r : Remembers s l takings now) (limit : Nat) : l.budget limit = s.allowance limit :=
  budget_eq_allowance r.window_eq limit

end Remembers

/-- A new limiter remembers what its calls took. -/
theorem remembers_after {s : LimiterSettings} (hwindow : 0 < s.window) {calls : List Call} {now : Nat}
    (hordered : (times calls ++ [now]).Pairwise (· ≤ ·)) (hword : ∀ t ∈ times calls, t < Word.greatest) :
    Remembers s ((ofSettings s).after calls) ((ofSettings s).taken calls) now := by
  refine (Remembers.ofSettings hwindow 0).run hwindow ?_ hword
  exact List.pairwise_cons.mpr ⟨fun t _ => Nat.zero_le t, hordered⟩

/-- **The wait is exact.** After any calls on a new limiter, ask at `now` how long an amount within the budget
has to wait, and let the sum over the window be a word. After any further calls that take nothing and leave the
limit as it is, the time that passed is taken off the wait. So the amount is granted from its end on, and not
before, and that is from when on it fits beside what is still in the window. -/
theorem waitTime_counts_down {s : LimiterSettings} {l : Limiter} (hl : ofSettings? s = .ok l)
    (calls between : List Call) {limit amount now delay : Nat} (hlimit : (l.after calls).limit = some limit)
    (hamount : amount ≤ s.allowance limit)
    (hordered : (times calls ++ now :: times between ++ [now + delay]).Pairwise (· ≤ ·))
    (hword : now + delay < Word.greatest)
    (hsum : sum ((l.taken calls).filter (·.inWindow s.window now)) ≤ Word.greatest)
    (hnothing : (l.after calls).taken between = [])
    (hsame : (l.after (calls ++ between)).limit = some limit) :
    ((l.after (calls ++ between)).waitTime amount (now + delay)).1 =
        ((l.after calls).waitTime amount now).1 - delay ∧
      (((l.after (calls ++ between)).tryAcquire amount (now + delay)).1 = .ok () ↔
        ((l.after calls).waitTime amount now).1 ≤ delay) ∧
      (((l.after calls).waitTime amount now).1 ≤ delay ↔
        Word.add (sum ((l.taken calls).filter (·.inWindow s.window (now + delay)))) amount ≤
          s.allowance limit) := by
  obtain ⟨hwindow, rfl⟩ := ofSettings?_eq_ok hl
  rw [List.append_assoc, List.cons_append] at hordered
  obtain ⟨-, hrest, hbefore⟩ := List.pairwise_append.mp hordered
  have hnow : now ≤ now + delay := Nat.le_add_right now delay
  have hcalls : ∀ t ∈ times calls, t < Word.greatest := by
    intro t ht
    exact Nat.lt_of_le_of_lt (hbefore t ht (now + delay) (by simp)) hword
  have hbetween : ∀ t ∈ times between, t < Word.greatest := by
    intro t ht
    obtain ⟨-, hafter⟩ := List.pairwise_cons.mp hrest
    obtain ⟨-, -, hle⟩ := List.pairwise_append.mp hafter
    exact Nat.lt_of_le_of_lt (hle t ht _ (List.mem_singleton.mpr rfl)) hword
  have hfirst : (times calls ++ [now]).Pairwise (· ≤ ·) := by
    refine hordered.sublist ?_
    exact (List.Sublist.refl _).append (List.singleton_sublist.mpr List.mem_cons_self)
  have r₁ := remembers_after hwindow hfirst hcalls
  have r₂ := r₁.run hwindow hrest hbetween
  have hafter : (ofSettings s).after (calls ++ between) = ((ofSettings s).after calls).after between :=
    List.foldl_append
  rw [hnothing, List.append_nil] at r₂
  rw [hafter] at hsame ⊢
  generalize (ofSettings s).after calls = l₁ at *
  generalize l₁.after between = l₂ at *
  -- From `now + delay` on the two limiters have the same in the window.
  have hinside : ∀ later, now + delay ≤ later → l₂.inside later = l₁.inside later := by
    intro later hle
    rw [inside_of_le hle, inside_of_le (l := l₁) hle, r₂.inside_eq (Nat.le_refl _) hword,
      r₁.inside_eq hnow hword, r₁.window_eq, r₂.window_eq]
  have hsum₁ : sum (l₁.inside now) ≤ Word.greatest := by
    rw [r₁.sum_inside (Nat.lt_of_le_of_lt hnow hword)]
    exact hsum
  have hsum₂ : sum (l₂.inside (now + delay)) ≤ Word.greatest := by
    rw [hinside _ (Nat.le_refl _)]
    exact Nat.le_trans (sum_inside_le hnow) hsum₁
  -- So the instants at which the amount fits are the same.
  have hfits : ∀ later, now + delay ≤ later →
      (now + (l₁.waitTime amount now).1 ≤ later ↔
        now + delay + (l₂.waitTime amount (now + delay)).1 ≤ later) := by
    intro later hle
    rw [← fits_iff hlimit r₁.steady hsum₁ (by rwa [r₁.budget_eq]) (Nat.le_trans hnow hle),
      ← fits_iff hsame r₂.steady hsum₂ (by rwa [r₂.budget_eq]) hle, hinside later hle, r₁.budget_eq,
      r₂.budget_eq]
  have hlow := hfits (now + delay + (l₂.waitTime amount (now + delay)).1) (Nat.le_add_right _ _)
  have hhigh := hfits (now + delay + ((l₁.waitTime amount now).1 - delay)) (Nat.le_add_right _ _)
  have hwait : (l₂.waitTime amount (now + delay)).1 = (l₁.waitTime amount now).1 - delay := by omega
  refine ⟨hwait, ?_, ?_⟩
  · rw [tryAcquire_isOk, hwait, Nat.sub_eq_zero_iff_le]
  · rw [← (r₁.mono hnow).sum_inside hword, ← r₁.budget_eq,
      fits_iff hlimit r₁.steady hsum₁ (by rwa [r₁.budget_eq]) hnow, Nat.add_le_add_iff_left]

/-- Two amounts of one window, one of them under a limit that is lowered after it, and a request that is refused
while the limit is lifted for a moment. -/
theorem waitTime_counts_down_lowered :
    let l := ofSettings .small
    let calls : List Call := [.record 60 0, .record 40 10, .setLimit (some 800), .tryAcquire 0 20]
    let between : List Call := [.tryAcquire 30 100, .setLimit none, .speed 200, .setLimit (some 800)]
    ((l.after (calls ++ between)).waitTime 50 (50 + 49950)).1 = ((l.after calls).waitTime 50 50).1 - 49950 ∧
      (((l.after (calls ++ between)).tryAcquire 50 (50 + 49950)).1 = .ok () ↔
        ((l.after calls).waitTime 50 50).1 ≤ 49950) ∧
      (((l.after calls).waitTime 50 50).1 ≤ 49950 ↔
        Word.add (sum ((l.taken calls).filter (·.inWindow LimiterSettings.small.window (50 + 49950)))) 50 ≤
          LimiterSettings.small.allowance 800) := by
  intro l calls between
  have hl : ofSettings? .small = .ok l := rfl
  have hlimit : (l.after calls).limit = some 800 := by decide
  have hamount : 50 ≤ LimiterSettings.small.allowance 800 := by decide
  have hordered : (times calls ++ 50 :: times between ++ [50 + 49950]).Pairwise (· ≤ ·) := by decide
  have hword : 50 + 49950 < Word.greatest := by decide
  have hsum : sum ((l.taken calls).filter (·.inWindow LimiterSettings.small.window 50)) ≤ Word.greatest := by
    decide
  have hnothing : (l.after calls).taken between = [] := by decide
  have hsame : (l.after (calls ++ between)).limit = some 800 := by decide
  exact waitTime_counts_down hl calls between hlimit hamount hordered hword hsum hnothing hsame

/-- **When a refused request is granted at the instant it was told.** Let a request at `now` be refused after
any calls on a new limiter, with a wait, and let the sum over the window be a word. Asked again at the end of the
wait, it is granted exactly if it is within the budget, or if the takings in the window do not trail off in
amounts of zero. The greatest word is the one instant at which even those have left. -/
theorem granted_after_wait_iff {s : LimiterSettings} {l : Limiter} (hl : ofSettings? s = .ok l)
    (calls : List Call) {limit amount now wait : Nat} (hlimit : (l.after calls).limit = some limit)
    (hordered : (times calls ++ [now]).Pairwise (· ≤ ·))
    (hrefused : ((l.after calls).tryAcquire amount now).1 = .error (.rateLimitExceeded amount wait))
    (hsum : sum ((l.taken calls).filter (·.inWindow s.window now)) ≤ Word.greatest) :
    (((l.after calls).tryAcquire amount now).2.tryAcquire amount (now + wait)).1 = .ok () ↔
      amount ≤ s.allowance limit ∨ now + wait = Word.greatest ∨
        ¬ TrailsOff ((l.taken calls).filter (·.inWindow s.window now)) := by
  obtain ⟨hwindow, rfl⟩ := ofSettings?_eq_ok hl
  rw [tryAcquire_eq] at hrefused
  split at hrefused
  · cases hrefused
  next hwaits =>
  obtain rfl : ((ofSettings s).after calls |>.waitTime amount now).1 = wait := by
    injection hrefused with herror
    injection herror
  have hnow : now < Word.greatest := by
    refine Nat.lt_of_not_le fun hlast => hwaits ?_
    exact waitTime_of_inside_nil (inside_of_greatest_le hlast) amount
  have hcalls : ∀ t ∈ times calls, t < Word.greatest := by
    obtain ⟨-, -, hle⟩ := List.pairwise_append.mp hordered
    exact fun t ht => Nat.lt_of_le_of_lt (hle t ht now (List.mem_singleton.mpr rfl)) hnow
  have r := remembers_after hwindow hordered hcalls
  rw [tryAcquire_isOk, tryAcquire_eq, if_neg hwaits, waitTime_snd hlimit]
  have hinside := r.inside_eq (Nat.le_refl now) hnow
  generalize (ofSettings s).taken calls = takings at *
  generalize (ofSettings s).after calls = l at *
  have hle : now ≤ now + (l.waitTime amount now).1 := Nat.le_add_right _ _
  have hword : sum (l.inside now) ≤ Word.greatest := by
    rw [r.sum_inside hnow]
    exact hsum
  have hword' : sum (l.inside (now + (l.waitTime amount now).1)) ≤ Word.greatest :=
    Nat.le_trans (sum_inside_le hle) hword
  rw [waitTime_evict r.steady.balanced hle, waitTime_eq_zero_iff_inside hlimit r.steady hword',
    ← r.budget_eq]
  by_cases hamount : amount ≤ l.budget limit
  · have hfits := (fits_iff hlimit r.steady hword hamount hle).mpr (Nat.le_refl _)
    exact iff_of_true (.inl hfits) (.inl hamount)
  obtain ⟨hover, hne⟩ := not_or.mp (mt (waitTime_eq_zero_iff_inside hlimit r.steady hword).mpr hwaits)
  -- Above the budget nothing fits, not even alone.
  have hover' : ¬ Word.add (sum (l.inside (now + (l.waitTime amount now).1))) amount ≤ l.budget limit := by
    rw [Word.add] at hover ⊢
    omega
  obtain ⟨-, ⟨last, hlast, hend⟩, hfree⟩ := waits_until hlimit r.steady hword hne hover
  have hgoal : l.budget limit - amount = 0 := by omega
  simp only [hgoal, Nat.le_zero] at hfree
  rw [or_iff_right hover', or_iff_right hamount, inside_eq_nil_iff r.steady hlast hend hle hfree, hinside,
    Monitor.trailsOff_merge]

/-- A request above the budget behind two amounts that count: it is granted when the second has left. -/
theorem granted_after_wait_iff_oversized :
    let l := ofSettings .small
    let calls : List Call := [.record 0 0, .tryAcquire 60 5, .record 40 10]
    ((l.after calls).tryAcquire 250 20).1 = .error (.rateLimitExceeded 250 99990) ∧
      ((((l.after calls).tryAcquire 250 20).2.tryAcquire 250 (20 + 99990)).1 = .ok () ↔
        250 ≤ LimiterSettings.small.allowance 1000 ∨ 20 + 99990 = Word.greatest ∨
          ¬ TrailsOff ((l.taken calls).filter (·.inWindow LimiterSettings.small.window 20))) := by
  intro l calls
  have hl : ofSettings? .small = .ok l := rfl
  have hlimit : (l.after calls).limit = some 1000 := by decide
  have hordered : (times calls ++ [20]).Pairwise (· ≤ ·) := by decide
  have hrefused : ((l.after calls).tryAcquire 250 20).1 = .error (.rateLimitExceeded 250 99990) := by
    decide +kernel
  have hsum : sum ((l.taken calls).filter (·.inWindow LimiterSettings.small.window 20)) ≤ Word.greatest := by
    decide
  exact ⟨hrefused, granted_after_wait_iff hl calls hlimit hordered hrefused hsum⟩

/-- Both ways to be refused again: a later amount of nothing is still in the window when the one that counts
has left, and a sum above the greatest word has not come down as far as the cut sum has. -/
theorem refused_again :
    let l := ofSettings ⟨some 1000, 1000000⟩
    let trailing := l.after [.record 5 0, .record 0 10]
    let full := l.after [.record Word.greatest 0, .record Word.greatest 10]
    (trailing.tryAcquire 2000 20).1 = .error (.rateLimitExceeded 2000 999980) ∧
      ((trailing.tryAcquire 2000 20).2.tryAcquire 2000 (20 + 999980)).1 =
        .error (.rateLimitExceeded 2000 10) ∧
      (full.tryAcquire 1 20).1 = .error (.rateLimitExceeded 1 999980) ∧
      ((full.tryAcquire 1 20).2.tryAcquire 1 (20 + 999980)).1 = .error (.rateLimitExceeded 1 10) := by
  decide +kernel

end Limiter

end Sluice
