import Sluice.Proofs.Rate.Budget

/-!
# How long an amount has to wait

A limiter tells how long an amount has to wait at `now`. `waitTime_pos_of_lt` says that this is no longer than
necessary: as long as nothing is recorded and the limit stays, the amount has to wait at every instant short of
the end of that time. Reading the speed meanwhile changes nothing, since what has left the window is dropped at
every reading anyway (`waitTime_evict`).

All this needs only that the samples stand in the order of time and that the running total is theirs
(`Monitor.Steady`), which every use keeps as long as the clock does not go back.
-/

namespace Sluice

open Sample

namespace Monitor

/-- At an instant, the samples of a monitor are in order, none is of a later instant, and the total is theirs. -/
structure Steady (m : Monitor) (now : Nat) : Prop where
  balanced : m.Balanced
  sorted : m.samples.Pairwise (·.time ≤ ·.time)
  time_le : ∀ s ∈ m.samples, s.time ≤ now

theorem sorted_append {amount now : Nat} {samples : List Sample}
    (hsorted : samples.Pairwise (·.time ≤ ·.time)) (hle : ∀ s ∈ samples, s.time ≤ now) :
    (append amount now samples).Pairwise (·.time ≤ ·.time) := by
  fun_induction append amount now samples with
  | case1 => exact List.pairwise_singleton _ _
  | case2 last _ => exact List.pairwise_singleton _ _
  | case3 last _ =>
    refine List.pairwise_cons.mpr ⟨fun s hs => ?_, List.pairwise_singleton _ _⟩
    rw [List.mem_singleton.mp hs]
    exact hle last List.mem_cons_self
  | case4 first rest _ ih =>
    obtain ⟨hfirst, hrest⟩ := List.pairwise_cons.mp hsorted
    refine List.pairwise_cons.mpr ⟨fun s hs => ?_, ih hrest fun s hs => hle s (List.mem_cons_of_mem _ hs)⟩
    rcases of_mem_append hs with hnow | hs
    · rw [hnow]
      exact hle first List.mem_cons_self
    · exact hfirst s hs

namespace Steady

variable {m : Monitor} {now later : Nat}

theorem ofWindow (window now : Nat) : (Monitor.ofWindow window).Steady now where
  balanced := rfl
  sorted := List.Pairwise.nil
  time_le _ hs := nomatch hs

theorem mono (h : m.Steady now) (hle : now ≤ later) : m.Steady later :=
  { h with time_le := fun s hs => Nat.le_trans (h.time_le s hs) hle }

theorem evict (h : m.Steady now) (hle : now ≤ later) : (m.evict later).Steady later where
  balanced := h.balanced.evict later
  sorted := by
    rw [samples_evict]
    exact h.sorted.sublist (List.dropWhile_sublist _)
  time_le s hs := by
    rw [samples_evict] at hs
    exact Nat.le_trans (h.time_le s ((List.dropWhile_sublist _).subset hs)) hle

theorem record (h : m.Steady now) (hle : now ≤ later) (amount : Nat) :
    (m.record amount later).Steady later where
  balanced := h.balanced.record amount later
  sorted := by
    rw [samples_record]
    exact sorted_append (h.evict hle).sorted (h.evict hle).time_le
  time_le s hs := by
    rw [samples_record] at hs
    rcases of_mem_append hs with hnow | hs
    · exact Nat.le_of_eq hnow
    · exact (h.evict hle).time_le s hs

end Steady

/-- Of samples in order, what is left after the expired ones in front has not expired. -/
theorem not_hasExpired_of_mem_dropWhile {window now : Nat} {samples : List Sample}
    (hsorted : samples.Pairwise (·.time ≤ ·.time)) {s : Sample}
    (hs : s ∈ samples.dropWhile (hasExpired window now)) : hasExpired window now s = false := by
  induction samples with
  | nil => cases hs
  | cons first rest ih =>
    obtain ⟨hfirst, hrest⟩ := List.pairwise_cons.mp hsorted
    cases hexpired : hasExpired window now first with
    | true =>
      rw [List.dropWhile_cons_of_pos hexpired] at hs
      exact ih hrest hs
    | false =>
      rw [List.dropWhile_cons_of_neg (by rw [hexpired]; decide)] at hs
      rcases List.mem_cons.mp hs with rfl | hs
      · exact hexpired
      · rw [← Bool.not_eq_true]
        intro hlater
        cases hexpired.symm.trans (hasExpired_of_le (hfirst s hs) hlater)

end Monitor

namespace Limiter

open Monitor (Steady hasExpired)

variable {l : Limiter} {limit now later amount : Nat}

/-- What is in the window of a limiter. -/
def inside (l : Limiter) (now : Nat) : List Sample :=
  l.monitor.samples.dropWhile (hasExpired l.monitor.window now)

/-- How long an amount has to wait depends on what is in the window. -/
theorem waitTime_fst (hlimit : l.limit = some limit) (h : l.monitor.Balanced) (amount now : Nat) :
    (l.waitTime amount now).1 =
      if Word.add (Word.clip (sum (l.inside now))) amount ≤ l.budget limit then 0
      else
        (fallsAt l.monitor.window (l.budget limit - amount) (Word.clip (sum (l.inside now)))
          (l.inside now)).elim 0 (· - now) := by
  have hrecorded : (l.monitor.evict now).recorded = Word.clip (sum (l.inside now)) := by
    rw [Monitor.recorded, h.evict now, Monitor.samples_evict]
    rfl
  simp only [waitTime, hlimit, freeAt_eq, hrecorded, Monitor.window_evict, Monitor.samples_evict]
  split
  · rfl
  · have hinside : l.monitor.samples.dropWhile (hasExpired l.monitor.window now) = l.inside now := rfl
    rw [hinside]
    cases fallsAt l.monitor.window (l.budget limit - amount) (Word.clip (sum (l.inside now)))
      (l.inside now) with
    | none => rfl
    | some free => rfl

/-- To drop at some instant what has left the window does not change what is told later. -/
theorem waitTime_evict (h : l.monitor.Balanced) (hle : now ≤ later) (amount : Nat) :
    (({ l with monitor := l.monitor.evict now } : Limiter).waitTime amount later).1 =
      (l.waitTime amount later).1 := by
  rcases Option.eq_none_or_eq_some l.limit with hlimit | ⟨limit, hlimit⟩
  · simp only [waitTime, hlimit]
  · have hinside : ({ l with monitor := l.monitor.evict now } : Limiter).inside later = l.inside later := by
      show (l.monitor.evict now).samples.dropWhile (hasExpired (l.monitor.evict now).window later) = _
      rw [Monitor.samples_evict, Monitor.window_evict, Monitor.dropWhile_hasExpired_of_le hle]
      rfl
    have hbudget : ({ l with monitor := l.monitor.evict now } : Limiter).budget limit = l.budget limit := by
      simp only [budget, window, Monitor.window_evict]
    rw [waitTime_fst (l := { l with monitor := l.monitor.evict now }) hlimit (h.evict now),
      waitTime_fst hlimit h, hinside, hbudget]
    simp only [Monitor.window_evict]

theorem steady_waitTime (h : l.monitor.Steady now) (amount : Nat) :
    (l.waitTime amount now).2.monitor.Steady now := by
  rcases Option.eq_none_or_eq_some l.limit with hlimit | ⟨limit, hlimit⟩
  · simp only [waitTime, hlimit]
    exact h
  · rw [waitTime_snd hlimit]
    exact h.evict (Nat.le_refl now)

/-- Before the total has fallen to a goal, what has left the window by then does not bring it down there. -/
theorem lt_of_fallsAt {window goal total free : Nat} {samples : List Sample}
    (hfree : fallsAt window goal total samples = some free) (hlater : later < free) :
    samples.takeWhile (hasExpired window later) = [] ∨
      goal < total - ((samples.takeWhile (hasExpired window later)).map fun s => Word.clip s.amount).sum := by
  induction samples generalizing total with
  | nil => exact .inl rfl
  | cons s rest ih =>
    rw [fallsAt] at hfree
    cases hexpired : hasExpired window later s with
    | false =>
      left
      rw [List.takeWhile_cons_of_neg (by rw [hexpired]; decide)]
    | true =>
      right
      rw [List.takeWhile_cons_of_pos hexpired, List.map_cons, List.sum_cons]
      split at hfree
      · -- The total has fallen with the first sample, but that has left the window before.
        have hends := Monitor.hasExpired_iff.mp hexpired
        cases hfree
        omega
      · next habove =>
        rcases ih hfree with hnone | hrest
        · rw [hnone, List.map_nil, List.sum_nil]
          omega
        · omega

/-- An amount has to wait as long as it was told. -/
theorem waitTime_pos_of_lt (h : l.monitor.Steady now) (hle : now ≤ later)
    (hlater : later < now + (l.waitTime amount now).1) : 0 < (l.waitTime amount later).1 := by
  rcases Option.eq_none_or_eq_some l.limit with hlimit | ⟨limit, hlimit⟩
  · simp only [waitTime, hlimit] at hlater
    omega
  have hinside : (l.inside now).dropWhile (hasExpired l.monitor.window later) = l.inside later :=
    Monitor.dropWhile_hasExpired_of_le hle l.monitor.samples
  rw [waitTime_fst hlimit h.balanced] at hlater ⊢
  split at hlater
  · omega
  next hover =>
  cases hfree : fallsAt l.monitor.window (l.budget limit - amount) (Word.clip (sum (l.inside now)))
      (l.inside now) with
  | none =>
    rw [hfree, Option.elim_none] at hlater
    omega
  | some free =>
    rw [hfree, Option.elim_some] at hlater
    have hshort : later < free := by omega
    -- What leaves the window meanwhile, and what stays.
    have hsplit := List.takeWhile_append_dropWhile (p := hasExpired l.monitor.window later)
      (l := l.inside now)
    have hfalls := lt_of_fallsAt hfree hshort
    rw [hinside] at hsplit
    generalize (l.inside now).takeWhile (hasExpired l.monitor.window later) = gone at hsplit hfalls
    have hsum : sum (l.inside now) = sum gone + sum (l.inside later) := by
      rw [← hsplit, Sample.sum_append]
    have hgone := clip_sum_le gone
    have hover' : ¬ Word.add (Word.clip (sum (l.inside later))) amount ≤ l.budget limit := by
      rcases hfalls with hnone | hfalls
      · rw [hnone, sum_nil, Nat.zero_add] at hsum
        rw [← hsum]
        exact hover
      · rw [Word.add, Word.clip] at hover ⊢
        rw [Word.clip] at hfalls hgone
        omega
    have hne : l.inside later ≠ [] := by
      intro hnil
      rcases hfalls with hnone | hfalls
      · rw [hnone, hnil] at hsplit
        rw [← hsplit] at hfree
        cases hfree
      · rw [hnil, sum_nil] at hsum
        rw [Word.clip] at hfalls hgone
        omega
    obtain ⟨free', hfree'⟩ := fallsAt_isSome l.monitor.window (l.budget limit - amount) hne
      (clip_sum_le (l.inside later))
    rw [if_neg hover', hfree', Option.elim_some]
    -- The sample that is waited for is in the window, so its end is still to come.
    obtain ⟨s, hs, rfl⟩ := mem_of_fallsAt hfree'
    have hkept := Monitor.not_hasExpired_of_mem_dropWhile h.sorted hs
    rw [← Bool.not_eq_true, Monitor.hasExpired_iff] at hkept
    omega

/-- The same after the limiter has been asked. -/
theorem waitTime_asked_pos (h : l.monitor.Steady now) (hle : now ≤ later)
    (hlater : later < now + (l.waitTime amount now).1) :
    0 < ((l.waitTime amount now).2.waitTime amount later).1 := by
  rcases Option.eq_none_or_eq_some l.limit with hlimit | ⟨limit, hlimit⟩
  · simp only [waitTime, hlimit] at hlater
    omega
  rw [waitTime_snd hlimit, waitTime_evict h.balanced hle]
  exact waitTime_pos_of_lt h hle hlater

/-- What is waited for is the end of a sample that is in the window. -/
theorem exists_end_of_wait (h : l.monitor.Balanced) (hpos : 0 < (l.waitTime amount now).1) :
    ∃ s ∈ l.inside now, now + (l.waitTime amount now).1 = Word.add s.time l.monitor.window := by
  rcases Option.eq_none_or_eq_some l.limit with hlimit | ⟨limit, hlimit⟩
  · simp only [waitTime, hlimit] at hpos
    omega
  rw [waitTime_fst hlimit h] at hpos ⊢
  split at hpos
  · omega
  next hover =>
  rw [if_neg hover]
  cases hfree : fallsAt l.monitor.window (l.budget limit - amount) (Word.clip (sum (l.inside now)))
      (l.inside now) with
  | none =>
    rw [hfree, Option.elim_none] at hpos
    omega
  | some free =>
    rw [hfree, Option.elim_some] at hpos
    obtain ⟨s, hs, rfl⟩ := mem_of_fallsAt hfree
    refine ⟨s, hs, ?_⟩
    rw [Option.elim_some]
    omega

/-- The instant until which an amount has to wait is a word. -/
theorem add_waitTime_le (h : l.monitor.Balanced) (hpos : 0 < (l.waitTime amount now).1) :
    now + (l.waitTime amount now).1 ≤ Word.greatest := by
  obtain ⟨s, -, hend⟩ := exists_end_of_wait h hpos
  rw [hend]
  exact Word.add_le _ _

/-! ### Runs -/

/-- A change of the limit keeps the record. -/
theorem monitor_step_setLimit (l : Limiter) (limit : Option Nat) :
    (l.step (.setLimit limit)).monitor = l.monitor := by
  rw [step, setLimit]
  cases (LimiterSettings.mk limit l.window).validate with
  | error e => rfl
  | ok u => rfl

/-- Every call at an instant keeps the record in order. -/
theorem steady_step (h : l.monitor.Steady now) {call : Call} (htime : ∀ t ∈ call.time?, t = now) :
    (l.step call).monitor.Steady now := by
  cases call with
  | tryAcquire amount t =>
    obtain rfl : t = now := htime t rfl
    rw [step, tryAcquire_eq]
    split
    · exact (steady_waitTime h amount).record (Nat.le_refl t) amount
    · exact steady_waitTime h amount
  | waitTime amount t =>
    obtain rfl : t = now := htime t rfl
    exact steady_waitTime h amount
  | record amount t =>
    obtain rfl : t = now := htime t rfl
    exact h.record (Nat.le_refl t) amount
  | totalInWindow t =>
    obtain rfl : t = now := htime t rfl
    exact h.evict (Nat.le_refl t)
  | speed t =>
    obtain rfl : t = now := htime t rfl
    exact h.evict (Nat.le_refl t)
  | setLimit limit =>
    rw [monitor_step_setLimit]
    exact h

/-- After calls in order, the record of a limiter is in order, whatever its limits were. -/
theorem steady_after (s : LimiterSettings) {calls : List Call} {now : Nat}
    (hordered : (times calls ++ [now]).Pairwise (· ≤ ·)) :
    ((ofSettings s).after calls).monitor.Steady now := by
  induction calls using List.reverseRecOn generalizing now with
  | nil => exact .ofWindow _ _
  | append_singleton calls call ih =>
    rw [times_concat] at hordered
    rw [after_concat]
    cases htime : call.time? with
    | none =>
      rw [htime, Option.toList_none, List.append_nil] at hordered
      exact steady_step (ih hordered) (by simp [htime])
    | some t =>
      rw [htime, Option.toList_some] at hordered
      obtain ⟨hbefore, -, hle⟩ := List.pairwise_append.mp hordered
      have hnow : t ≤ now := hle t (by simp) now (List.mem_singleton.mpr rfl)
      exact (steady_step (ih hbefore) (by simp [htime])).mono hnow

end Limiter

end Sluice
