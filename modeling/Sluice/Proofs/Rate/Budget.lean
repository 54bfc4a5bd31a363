import Sluice.Proofs.Rate.Window
import Sluice.Rate.Limiter

/-!
# No window takes more than its budget

A limiter is used by calls at instants in order. What it lets pass is the `taken` of a run: the amounts of the
requests that it grants, and whatever is recorded unasked. Its monitor holds exactly that, so that a request is
granted if the sum over the window still fits into the budget, or if nothing at all was taken in the window
(`Limiter.waitTime_eq_zero_iff`). Otherwise it waits for a sample that has not left yet.

`Within` is what this comes to: whatever instant a window ends at, what was taken in it adds up to no more
than the budget, or is a single amount above it. A granted request keeps it (`Within.concat`), for windows
that end later too, since an earlier taking that such a window still holds is also in the window that ends at
the request.
-/

namespace Sluice

open Sample

/-- The units that one window admits: the limit times the length of the window in seconds, cut down to a
word, and at least one. -/
def LimiterSettings.allowance (s : LimiterSettings) (limit : Nat) : Nat :=
  max 1 (min Word.greatest (limit * s.window / 1000000))

/-- In no window, wherever it ends, do takings exceed the budget, but for a single one that is larger. -/
def Within (window budget : Nat) (takings : List Sample) : Prop :=
  ∀ instant,
    Word.clip (sum (takings.filter (·.inWindow window instant))) ≤ budget ∨
      ∃ s, takings.filter (·.inWindow window instant) = [s] ∧ budget < s.amount

/-- A taking that fits into the window that ends with it, or has that window to itself. -/
theorem Within.concat {window budget : Nat} {takings : List Sample} (h : Within window budget takings)
    {amount now : Nat} (hle : ∀ s ∈ takings, s.time ≤ now)
    (hfits : Word.add (Word.clip (sum (takings.filter (·.inWindow window now)))) amount ≤ budget ∨
      takings.filter (·.inWindow window now) = []) :
    Within window budget (takings ++ [⟨now, amount⟩]) := by
  intro instant
  rw [List.filter_append, List.filter_singleton]
  cases hin : (⟨now, amount⟩ : Sample).inWindow window instant with
  | false =>
    rw [cond_false, List.append_nil]
    exact h instant
  | true =>
    obtain ⟨hnow, hshort⟩ := inWindow_iff.mp hin
    -- What such a window holds is also in the window that ends with the new taking.
    have hsub : (takings.filter (·.inWindow window instant)).Sublist
        (takings.filter (·.inWindow window now)) := by
      have hsame : takings.filter (·.inWindow window instant) =
          (takings.filter (·.inWindow window now)).filter (·.inWindow window instant) := by
        rw [List.filter_filter]
        refine List.filter_congr fun s hs => ?_
        have hle := hle s hs
        rw [Bool.eq_iff_iff, Bool.and_eq_true, inWindow_iff, inWindow_iff]
        simp only at hnow
        omega
      rw [hsame]
      exact List.filter_sublist
    rw [cond_true, Sample.sum_append, sum_cons, sum_nil, Nat.add_zero]
    rcases hfits with hfits | hnone
    · left
      have hsum : sum (takings.filter (·.inWindow window instant)) ≤
          sum (takings.filter (·.inWindow window now)) := sum_le_of_sublist hsub
      rw [Word.add, Word.clip] at hfits
      show min (_ + amount) Word.greatest ≤ budget
      omega
    · rw [hnone] at hsub
      rw [List.sublist_nil.mp hsub, sum_nil, Nat.zero_add, List.nil_append]
      by_cases hamount : amount ≤ budget
      · exact .inl (Nat.le_trans (Nat.min_le_left _ _) hamount)
      · exact .inr ⟨_, rfl, Nat.lt_of_not_le hamount⟩

namespace Limiter

/-! ### How long a request waits -/

/-- What is waited for is the end of a sample. -/
theorem mem_of_fallsAt {window goal total free : Nat} {samples : List Sample}
    (h : fallsAt window goal total samples = some free) :
    ∃ s ∈ samples, free = Word.add s.time window := by
  induction samples generalizing total with
  | nil => cases h
  | cons s rest ih =>
    rw [fallsAt] at h
    split at h
    · exact ⟨s, List.mem_cons_self, (Option.some.inj h).symm⟩
    · obtain ⟨r, hr, hfree⟩ := ih h
      exact ⟨r, List.mem_cons_of_mem _ hr, hfree⟩

/-- Once all samples have left, the total has fallen to any goal. -/
theorem fallsAt_isSome (window goal : Nat) {total : Nat} {samples : List Sample} (hne : samples ≠ [])
    (htotal : total ≤ (samples.map fun s => Word.clip s.amount).sum) :
    ∃ free, fallsAt window goal total samples = some free := by
  induction samples generalizing total with
  | nil => exact absurd rfl hne
  | cons s rest ih =>
    rw [List.map_cons, List.sum_cons] at htotal
    rw [fallsAt]
    split
    · exact ⟨_, rfl⟩
    · next hleft =>
      -- Something is left of the total, so there are samples that it is left to.
      refine ih ?_ (by omega)
      rintro rfl
      rw [List.map_nil, List.sum_nil] at htotal
      omega

theorem clip_sum_le (samples : List Sample) :
    Word.clip (sum samples) ≤ (samples.map fun s => Word.clip s.amount).sum := by
  induction samples with
  | nil => exact Nat.zero_le _
  | cons s rest ih =>
    rw [sum_cons, List.map_cons, List.sum_cons]
    rw [Word.clip] at ih ⊢
    rw [Word.clip]
    omega

variable {l : Limiter} {limit : Nat} {takings : List Sample} {now later amount : Nat}

/-- A request passes at once if it fits into the budget of the window that ends with it, or if nothing was
taken in that window. -/
theorem waitTime_eq_zero_iff (hlimit : l.limit = some limit) (h : l.monitor.Holds takings now)
    (hle : now ≤ later) (hlater : later < Word.greatest) :
    (l.waitTime amount later).1 = 0 ↔
      Word.add (Word.clip (sum (takings.filter (·.inWindow l.monitor.window later)))) amount ≤
          l.budget limit ∨
        takings.filter (·.inWindow l.monitor.window later) = [] := by
  have hread := h.recorded_evict hle hlater
  have hkept := h.evict hle
  have hsamples : (l.monitor.evict later).samples =
      Monitor.merge (takings.filter (·.inWindow l.monitor.window later)) := by
    rw [hkept.samples, Monitor.window_evict,
      Monitor.dropWhile_hasExpired hlater h.sorted hkept.time_le]
  simp only [waitTime, hlimit, freeAt_eq, hsamples, hread, Monitor.window_evict]
  generalize hin : takings.filter (·.inWindow l.monitor.window later) = inside
  split
  · next hfits => exact iff_of_true rfl (.inl hfits)
  · next hover =>
    rw [or_iff_right hover]
    by_cases hnone : inside = []
    · refine iff_of_true ?_ hnone
      rw [hnone]
      rfl
    · refine iff_of_false ?_ hnone
      have hne : Monitor.merge inside ≠ [] := mt Monitor.merge_eq_nil.mp hnone
      have htotal : Word.clip (sum inside) ≤
          ((Monitor.merge inside).map fun s => Word.clip s.amount).sum := by
        rw [← Monitor.sum_merge]
        exact clip_sum_le _
      obtain ⟨free, hfree⟩ :=
        fallsAt_isSome l.monitor.window (l.budget limit - amount) hne htotal
      rw [hfree]
      -- The sample that is waited for is in the window, so its end is still to come.
      obtain ⟨s, hs, rfl⟩ := mem_of_fallsAt hfree
      obtain ⟨r, hr, htime⟩ := Monitor.time_of_mem_merge hs
      rw [← hin, List.mem_filter] at hr
      obtain ⟨-, hshort⟩ := inWindow_iff.mp hr.2
      rw [← htime, Word.add]
      simp only
      omega

/-! ### Calls -/

/-- One use of a limiter. -/
inductive Call where
  | tryAcquire (amount now : Nat)
  | waitTime (amount now : Nat)
  | record (amount now : Nat)
  | totalInWindow (now : Nat)
  | speed (now : Nat)
  | setLimit (limit : Option Nat)
  deriving DecidableEq, Repr

/-- The instant of a call. A change of the limit has none. -/
def Call.time? : Call → Option Nat
  | .tryAcquire _ now => some now
  | .waitTime _ now => some now
  | .record _ now => some now
  | .totalInWindow now => some now
  | .speed now => some now
  | .setLimit _ => none

/-- Whether a call asks before it takes, and leaves the limit as it is. -/
def Call.asks : Call → Bool
  | .record _ _ => false
  | .setLimit _ => false
  | _ => true

/-- The limiter that a call leaves. -/
def step (l : Limiter) : Call → Limiter
  | .tryAcquire amount now => (l.tryAcquire amount now).2
  | .waitTime amount now => (l.waitTime amount now).2
  | .record amount now => l.record amount now
  | .totalInWindow now => (l.totalInWindow now).2
  | .speed now => (l.speed now).2
  | .setLimit limit => (l.setLimit limit).toOption.getD l

/-- What a call takes: an amount that it is granted, or records unasked. -/
def taking (l : Limiter) : Call → List Sample
  | .tryAcquire amount now => if (l.tryAcquire amount now).1.isOk then [⟨now, amount⟩] else []
  | .record amount now => [⟨now, amount⟩]
  | _ => []

/-- The limiter after some calls. -/
def after (l : Limiter) (calls : List Call) : Limiter := calls.foldl step l

/-- What the calls of a run take, in order. -/
def taken (l : Limiter) : List Call → List Sample
  | [] => []
  | call :: calls => l.taking call ++ (l.step call).taken calls

/-- The instants of calls, in order. -/
def times (calls : List Call) : List Nat := calls.filterMap Call.time?

theorem after_concat (l : Limiter) (calls : List Call) (call : Call) :
    l.after (calls ++ [call]) = (l.after calls).step call :=
  List.foldl_concat ..

theorem taken_concat (l : Limiter) (calls : List Call) (call : Call) :
    l.taken (calls ++ [call]) = l.taken calls ++ (l.after calls).taking call := by
  induction calls generalizing l with
  | nil => exact List.append_nil _
  | cons first calls ih =>
    rw [List.cons_append, taken, ih, taken, List.append_assoc]
    rfl

theorem times_concat (calls : List Call) (call : Call) :
    times (calls ++ [call]) = times calls ++ call.time?.toList :=
  List.filterMap_append.trans (congrArg _ (by cases h : call.time? <;> simp [h]))

theorem tryAcquire_eq (l : Limiter) (amount now : Nat) :
    l.tryAcquire amount now =
      if (l.waitTime amount now).1 = 0 then (.ok (), (l.waitTime amount now).2.record amount now)
      else (.error (.rateLimitExceeded amount (l.waitTime amount now).1), (l.waitTime amount now).2) := by
  by_cases hwait : (l.waitTime amount now).1 = 0
  · simp [tryAcquire, hwait]
  · simp [tryAcquire, hwait, Nat.pos_of_ne_zero hwait]

/-- A request is granted exactly if it need not wait. -/
theorem tryAcquire_isOk (l : Limiter) (amount now : Nat) :
    (l.tryAcquire amount now).1 = .ok () ↔ (l.waitTime amount now).1 = 0 := by
  rw [tryAcquire_eq]
  split
  · next hwait => exact iff_of_true rfl hwait
  · next hwait => exact iff_of_false (fun h => nomatch h) hwait

theorem waitTime_snd (hlimit : l.limit = some limit) (amount now : Nat) :
    (l.waitTime amount now).2 = { l with monitor := l.monitor.evict now } := by
  simp only [waitTime, hlimit]

theorem ofSettings?_eq_ok {s : LimiterSettings} (h : ofSettings? s = .ok l) :
    0 < s.window ∧ l = ofSettings s := by
  rw [ofSettings?, LimiterSettings.validate] at h
  by_cases hwindow : s.window = 0
  · rw [if_pos hwindow] at h
    cases h
  · rw [if_neg hwindow] at h
    refine ⟨Nat.pos_of_ne_zero hwindow, ?_⟩
    by_cases hlimit : s.limit = some 0
    · rw [if_pos hlimit] at h
      cases h
    · rw [if_neg hlimit] at h
      exact (Except.ok.inj h).symm

theorem budget_eq_allowance {s : LimiterSettings} (hwindow : l.monitor.window = s.window) (limit : Nat) :
    l.budget limit = s.allowance limit := by
  rw [budget, window, hwindow, LimiterSettings.allowance, Word.clip, Nat.max_comm, Nat.min_comm]

/-- A limiter under a limit holds what was taken, and no window took more than its budget. -/
structure Metered (s : LimiterSettings) (limit : Nat) (l : Limiter) (takings : List Sample) (now : Nat) :
    Prop where
  limit_eq : l.limit = some limit
  window_eq : l.monitor.window = s.window
  holds : l.monitor.Holds takings now
  within : Within s.window (s.allowance limit) takings

namespace Metered

variable {s : LimiterSettings}

theorem ofSettings (hwindow : 0 < s.window) (hlimit : s.limit = some limit) :
    Metered s limit (Limiter.ofSettings s) [] 0 where
  limit_eq := hlimit
  window_eq := Nat.max_eq_left hwindow
  holds := .ofWindow s.window 0
  within _ := .inl (Nat.zero_le _)

theorem budget_eq (m : Metered s limit l takings now) : l.budget limit = s.allowance limit :=
  budget_eq_allowance m.window_eq limit

/-- A request is granted if it fits into the budget of the window that ends with it, or if nothing was taken
in that window. -/
theorem waits_iff (m : Metered s limit l takings now) (hle : now ≤ later)
    (hlater : later < Word.greatest) :
    (l.waitTime amount later).1 = 0 ↔
      Word.add (Word.clip (sum (takings.filter (·.inWindow s.window later)))) amount ≤
          s.allowance limit ∨
        takings.filter (·.inWindow s.window later) = [] := by
  rw [← m.window_eq, ← m.budget_eq]
  exact waitTime_eq_zero_iff m.limit_eq m.holds hle hlater

theorem evict (m : Metered s limit l takings now) (hle : now ≤ later) :
    Metered s limit { l with monitor := l.monitor.evict later } takings later where
  limit_eq := m.limit_eq
  window_eq := (Monitor.window_evict later l.monitor).trans m.window_eq
  holds := m.holds.evict hle
  within := m.within

theorem evict_earlier {earlier : Nat} (m : Metered s limit l takings now) (hle : earlier ≤ now) :
    Metered s limit { l with monitor := l.monitor.evict earlier } takings now where
  limit_eq := m.limit_eq
  window_eq := (Monitor.window_evict earlier l.monitor).trans m.window_eq
  holds := m.holds.evict_earlier hle
  within := m.within

/-- What may pass at once can be recorded. -/
theorem record (m : Metered s limit l takings now) (hwindow : 0 < s.window) (hle : now ≤ later)
    (hlater : later < Word.greatest) (hpasses : (l.waitTime amount later).1 = 0) :
    Metered s limit ((l.waitTime amount later).2.record amount later) (takings ++ [⟨later, amount⟩])
      later := by
  rw [waitTime_snd m.limit_eq]
  have m' := m.evict hle
  have hpos : 0 < (l.monitor.evict later).window := by
    rw [m'.window_eq]
    exact hwindow
  refine ⟨m.limit_eq, (Monitor.window_evict later _).trans m'.window_eq, ?_, ?_⟩
  · exact m'.holds.record hpos (Nat.le_refl later) hlater amount
  · exact m.within.concat m'.holds.time_le ((m.waits_iff hle hlater).mp hpasses)

/-- A call that asks before it takes keeps every window within its budget. -/
theorem step (m : Metered s limit l takings now) (hwindow : 0 < s.window) {call : Call}
    (hasks : call.asks = true) (htime : call.time? = some later) (hle : now ≤ later)
    (hlater : later < Word.greatest) :
    Metered s limit (l.step call) (takings ++ l.taking call) later := by
  have drops : Metered s limit { l with monitor := l.monitor.evict later } (takings ++ []) later := by
    rw [List.append_nil]
    exact m.evict hle
  cases call with
  | tryAcquire amount now' =>
    obtain rfl : now' = later := Option.some.inj htime
    rw [Limiter.step, taking, tryAcquire_eq]
    split
    · next hpasses => exact m.record hwindow hle hlater hpasses
    · rw [waitTime_snd m.limit_eq]
      exact drops
  | waitTime amount now' =>
    obtain rfl : now' = later := Option.some.inj htime
    rw [Limiter.step, waitTime_snd m.limit_eq]
    exact drops
  | totalInWindow now' =>
    obtain rfl : now' = later := Option.some.inj htime
    exact drops
  | speed now' =>
    obtain rfl : now' = later := Option.some.inj htime
    exact drops
  | record _ _ => cases hasks
  | setLimit _ => cases hasks

theorem run (hwindow : 0 < s.window) (hlimit : s.limit = some limit) {calls : List Call}
    (hasks : ∀ call ∈ calls, call.asks = true) (hordered : (times calls).Pairwise (· ≤ ·))
    (hword : ∀ now ∈ times calls, now < Word.greatest) :
    Metered s limit ((Limiter.ofSettings s).after calls) ((Limiter.ofSettings s).taken calls)
      (Monitor.latest (times calls)) := by
  induction calls using List.reverseRecOn with
  | nil => exact .ofSettings hwindow hlimit
  | append_singleton calls call ih =>
    have hcall := hasks call (List.mem_append_right _ (List.mem_singleton.mpr rfl))
    obtain ⟨now, htime⟩ : ∃ now, call.time? = some now := by
      cases call with
      | setLimit _ => cases hcall
      | _ => exact ⟨_, rfl⟩
    rw [times_concat, htime, Option.toList_some] at hordered hword ⊢
    rw [after_concat, taken_concat, Monitor.latest_concat]
    have m := ih (fun c hc => hasks c (List.mem_append_left _ hc))
      (List.pairwise_append.mp hordered).1 fun t ht => hword t (List.mem_append_left _ ht)
    exact m.step hwindow hcall htime (Monitor.latest_le hordered)
      (hword now (List.mem_append_right _ (List.mem_singleton.mpr rfl)))

end Metered

/-- **No window takes more than its budget.** Take any calls on a new limiter that ask before they take, at
instants in order and short of the greatest word. A request at `now` is then granted exactly if it fits into
what the window that ends at `now` has left, or if nothing was taken in that window, not even an amount of
zero. So in no window, wherever it ends, do the amounts taken exceed the budget, but for a single one that is
larger. -/
theorem within_budget {s : LimiterSettings} {limit : Nat} {l : Limiter} (hlimit : s.limit = some limit)
    (hl : ofSettings? s = .ok l) (calls : List Call) (hasks : ∀ call ∈ calls, call.asks = true)
    (amount now : Nat) (hordered : (times calls ++ [now]).Pairwise (· ≤ ·)) (hnow : now < Word.greatest) :
    (((l.after calls).tryAcquire amount now).1 = .ok () ↔
        Word.add ((l.after calls).totalInWindow now).1 amount ≤ s.allowance limit ∨
          ∀ taking ∈ l.taken calls, taking.inWindow s.window now = false) ∧
      Within s.window (s.allowance limit) (l.taken calls) := by
  obtain ⟨hwindow, rfl⟩ := ofSettings?_eq_ok hl
  obtain ⟨hcalls, -, hle⟩ := List.pairwise_append.mp hordered
  have hshort : ∀ t ∈ times calls, t < Word.greatest := fun t ht =>
    Nat.lt_of_le_of_lt (hle t ht now (List.mem_singleton.mpr rfl)) hnow
  have m := Metered.run hwindow hlimit hasks hcalls hshort
  have hread := m.holds.recorded_evict (Monitor.latest_le hordered) hnow
  rw [m.window_eq] at hread
  refine ⟨?_, m.within⟩
  rw [tryAcquire_isOk, m.waits_iff (Monitor.latest_le hordered) hnow]
  refine or_congr (by rw [← hread]; rfl) ?_
  simp only [List.filter_eq_nil_iff, Bool.not_eq_true]

/-- Requests under a budget of 100 units: some that fit, one that has to wait, one above the budget that
finds an empty window, and one of nothing after it. -/
def requests : List Call :=
  [.tryAcquire 60 0, .tryAcquire 40 10, .tryAcquire 1 20, .speed 30, .waitTime 5 100000,
    .tryAcquire 250 100010, .tryAcquire 0 100020, .totalInWindow 150000]

theorem within_budget_requests :
    LimiterSettings.small.limit = some 1000 ∧
      ofSettings? .small = .ok (ofSettings .small) ∧
      (∀ call ∈ requests, call.asks = true) ∧
      (times requests ++ [200011]).Pairwise (· ≤ ·) ∧ 200011 < Word.greatest ∧
      ((((ofSettings .small).after requests).tryAcquire 70 200011).1 = .ok () ↔
          Word.add (((ofSettings .small).after requests).totalInWindow 200011).1 70 ≤
              LimiterSettings.small.allowance 1000 ∨
            ∀ taking ∈ (ofSettings .small).taken requests,
              taking.inWindow LimiterSettings.small.window 200011 = false) ∧
        Within LimiterSettings.small.window (LimiterSettings.small.allowance 1000)
          ((ofSettings .small).taken requests) := by
  have hlimit : LimiterSettings.small.limit = some 1000 := rfl
  have hl : ofSettings? .small = .ok (ofSettings .small) := rfl
  have hasks : ∀ call ∈ requests, call.asks = true := by decide
  have hordered : (times requests ++ [200011]).Pairwise (· ≤ ·) := by decide
  have hnow : 200011 < Word.greatest := by decide
  exact ⟨hlimit, hl, hasks, hordered, hnow,
    within_budget hlimit hl requests hasks 70 200011 hordered hnow⟩

end Limiter

end Sluice
