import Mathlib.Algebra.Order.BigOperators.Group.List
import Mathlib.Algebra.Order.Ring.Nat
import Mathlib.Data.List.DropRight
import Mathlib.Data.List.Infix
import Mathlib.Data.List.TakeWhile
import Sluice.Rate.Monitor

/-!
# A monitor is an exact sliding window

What was recorded at `t` is in the window that ends at `now` as long as `t ≤ now < t + window`
(`Sample.inWindow`). A monitor keeps less than its history: the amounts of one instant are added up
(`merge`), and what has left the window is dropped. `Holds` says that nothing else is lost. The samples kept
are those that the recordings in the window merge to, and the running total is their sum.

Each call keeps `Holds` as long as the clock does not go back: dropping commutes with merging
(`dropWhile_merge`), and what has left the window once never comes back. So the total that is read is the sum
over the recordings in the window (`totalInWindow_eq`). The greatest word is never the present instant, since
the end of a sample's time stops there.
-/

namespace Sluice

namespace Sample

/-- Whether a sample is in the window that ends at `now`. -/
def inWindow (window now : Nat) (s : Sample) : Bool := s.time ≤ now && now < s.time + window

/-- What samples add up to. -/
def sum (samples : List Sample) : Nat := (samples.map (·.amount)).sum

theorem inWindow_iff {window now : Nat} {s : Sample} :
    s.inWindow window now = true ↔ s.time ≤ now ∧ now < s.time + window := by
  rw [inWindow, Bool.and_eq_true, decide_eq_true_eq, decide_eq_true_eq]

@[simp]
theorem sum_nil : sum [] = 0 := rfl

@[simp]
theorem sum_cons (s : Sample) (rest : List Sample) : sum (s :: rest) = s.amount + sum rest := by
  rw [sum, List.map_cons, List.sum_cons]
  rfl

@[simp]
theorem sum_append (first rest : List Sample) : sum (first ++ rest) = sum first + sum rest := by
  rw [sum, List.map_append, List.sum_append]
  rfl

theorem sum_le_of_sublist {part whole : List Sample} (h : part.Sublist whole) : sum part ≤ sum whole :=
  (h.map Sample.amount).sum_le_sum fun _ _ => Nat.zero_le _

end Sample

open Sample

namespace Monitor

/-! ### Merged recordings -/

/-- The samples that recordings leave, earliest first: those of one instant after the other are added
up. -/
def merge (recordings : List Sample) : List Sample :=
  recordings.foldl (fun kept s => append s.amount s.time kept) []

theorem merge_concat (recordings : List Sample) (s : Sample) :
    merge (recordings ++ [s]) = append s.amount s.time (merge recordings) :=
  List.foldl_concat ..

theorem append_ne_nil (amount now : Nat) (samples : List Sample) : append amount now samples ≠ [] := by
  fun_cases append amount now samples with
  | _ => simp [*]

theorem sum_append_sample (amount now : Nat) (samples : List Sample) :
    sum (append amount now samples) = sum samples + amount := by
  fun_induction append amount now samples with
  | case1 => simp
  | case2 last _ => simp
  | case3 last _ => simp
  | case4 s rest _ ih =>
    simp only [sum_cons, ih]
    omega

theorem of_mem_append {amount now : Nat} {samples : List Sample} {s : Sample}
    (hs : s ∈ append amount now samples) : s.time = now ∨ s ∈ samples := by
  fun_induction append amount now samples with
  | case1 => exact .inl (List.mem_singleton.mp hs ▸ rfl)
  | case2 last _ => exact .inl (List.mem_singleton.mp hs ▸ rfl)
  | case3 last _ =>
    rcases List.mem_cons.mp hs with rfl | hs
    · exact .inr List.mem_cons_self
    · exact .inl (List.mem_singleton.mp hs ▸ rfl)
  | case4 s' rest _ ih =>
    rcases List.mem_cons.mp hs with rfl | hs
    · exact .inr List.mem_cons_self
    · exact (ih hs).imp_right (List.mem_cons_of_mem _)

theorem sum_merge (recordings : List Sample) : sum (merge recordings) = sum recordings := by
  induction recordings using List.reverseRecOn with
  | nil => rfl
  | append_singleton recordings s ih =>
    rw [merge_concat, sum_append_sample, ih, Sample.sum_append, sum_cons, sum_nil, Nat.add_zero]

theorem merge_eq_nil {recordings : List Sample} : merge recordings = [] ↔ recordings = [] := by
  induction recordings using List.reverseRecOn with
  | nil => exact Iff.rfl
  | append_singleton recordings s _ =>
    rw [merge_concat]
    simp [append_ne_nil]

/-- Merging makes up no instants. -/
theorem time_of_mem_merge {recordings : List Sample} {s : Sample} (hs : s ∈ merge recordings) :
    ∃ r ∈ recordings, r.time = s.time := by
  induction recordings using List.reverseRecOn with
  | nil => cases hs
  | append_singleton recordings r ih =>
    rw [merge_concat] at hs
    rcases of_mem_append hs with htime | hs
    · exact ⟨r, List.mem_append_right _ (List.mem_singleton.mpr rfl), htime.symm⟩
    · obtain ⟨r', hr', htime⟩ := ih hs
      exact ⟨r', List.mem_append_left _ hr', htime⟩

/-! ### What has left the window -/

section

variable {window now : Nat}

theorem hasExpired_iff {s : Sample} : hasExpired window now s = true ↔ Word.add s.time window ≤ now := by
  rw [hasExpired, decide_eq_true_eq]

/-- What was recorded earlier leaves earlier. -/
theorem hasExpired_of_le {s r : Sample} (hle : r.time ≤ s.time) (hs : hasExpired window now s = true) :
    hasExpired window now r = true := by
  rw [hasExpired_iff, Word.add] at hs ⊢
  omega

/-- What has left the window does not come back. -/
theorem hasExpired_mono {later : Nat} (hle : now ≤ later) {s : Sample}
    (hs : hasExpired window now s = true) : hasExpired window later s = true :=
  hasExpired_iff.mpr (Nat.le_trans (hasExpired_iff.mp hs) hle)

/-- What has left the window at an instant can be dropped before. -/
theorem dropWhile_hasExpired_of_le {later : Nat} (hle : now ≤ later) (samples : List Sample) :
    (samples.dropWhile (hasExpired window now)).dropWhile (hasExpired window later) =
      samples.dropWhile (hasExpired window later) := by
  have hsplit := List.takeWhile_append_dropWhile (p := hasExpired window now) (l := samples)
  conv_rhs => rw [← hsplit]
  refine (List.dropWhile_append_of_pos fun s hs => ?_).symm
  exact hasExpired_mono hle (List.mem_takeWhile_imp hs)

/-- What has not left the window at an instant had not left it before. -/
theorem dropWhile_hasExpired_of_earlier {earlier : Nat} (hle : earlier ≤ now) (samples : List Sample) :
    (samples.dropWhile (hasExpired window now)).dropWhile (hasExpired window earlier) =
      samples.dropWhile (hasExpired window now) := by
  cases hrest : samples.dropWhile (hasExpired window now) with
  | nil => rfl
  | cons s rest =>
    have hne : samples.dropWhile (hasExpired window now) ≠ [] := by
      rw [hrest]
      exact List.cons_ne_nil _ _
    have hstays : hasExpired window now s = false := by
      have h := List.head_dropWhile_not (hasExpired window now) hne
      simp only [hrest, List.head_cons] at h
      exact h
    refine List.dropWhile_cons_of_neg fun hexpired => ?_
    rw [hasExpired_mono hle hexpired] at hstays
    cases hstays

/-- Short of the greatest word, what was recorded until now and has not left is in the window. -/
theorem hasExpired_eq_not_inWindow (hnow : now < Word.greatest) {s : Sample} (hs : s.time ≤ now) :
    hasExpired window now s = !s.inWindow window now := by
  rw [Bool.eq_iff_iff, Bool.not_eq_true', ← Bool.not_eq_true, hasExpired_iff, inWindow_iff, Word.add]
  omega

/-- Nothing leaves the window at the instant of its recording. -/
theorem hasExpired_self (hwindow : 0 < window) (hnow : now < Word.greatest) (amount : Nat) :
    hasExpired window now ⟨now, amount⟩ = false := by
  rw [hasExpired_eq_not_inWindow hnow (Nat.le_refl now), Bool.not_eq_false', inWindow_iff]
  exact ⟨Nat.le_refl now, Nat.lt_add_of_pos_right hwindow⟩

/-- Of recordings in order, dropping the expired ones leaves those in the window. -/
theorem dropWhile_hasExpired (hnow : now < Word.greatest) {recordings : List Sample}
    (hsorted : recordings.Pairwise (·.time ≤ ·.time)) (hle : ∀ s ∈ recordings, s.time ≤ now) :
    recordings.dropWhile (hasExpired window now) = recordings.filter (·.inWindow window now) := by
  induction recordings with
  | nil => rfl
  | cons s rest ih =>
    obtain ⟨hs, hrest⟩ := List.pairwise_cons.mp hsorted
    obtain ⟨hsnow, hlerest⟩ := List.forall_mem_cons.mp hle
    have heq : hasExpired window now s = !s.inWindow window now :=
      hasExpired_eq_not_inWindow hnow hsnow
    cases hin : s.inWindow window now with
    | false =>
      rw [List.dropWhile_cons_of_pos (by rw [heq, hin]; rfl), List.filter_cons_of_neg (by rw [hin]; decide)]
      exact ih hrest hlerest
    | true =>
      rw [List.dropWhile_cons_of_neg (by rw [heq, hin]; decide), List.filter_cons_of_pos hin]
      refine congrArg (s :: ·) (List.filter_eq_self.mpr fun r hr => ?_).symm
      have hle := hs r hr
      have hrnow := hlerest r hr
      rw [inWindow_iff] at hin ⊢
      omega

/-- What is recorded stays behind what is left of the samples, if anything is left or it has not left itself. -/
theorem dropWhile_append {amount : Nat} {time : Nat} {samples : List Sample}
    (hstays : samples.dropWhile (hasExpired window now) ≠ [] ∨
      ∀ amount, hasExpired window now ⟨time, amount⟩ = false) :
    (append amount time samples).dropWhile (hasExpired window now) =
      append amount time (samples.dropWhile (hasExpired window now)) := by
  fun_induction append amount time samples with
  | case1 =>
    have hkept := hstays.resolve_left fun hleft => hleft rfl
    rw [List.dropWhile_cons_of_neg (by rw [hkept]; decide), List.dropWhile_nil, append]
  | case2 last htime =>
    -- Both samples are of one instant, so both have left or none has.
    have hsame (amount : Nat) : hasExpired window now ⟨time, amount⟩ = hasExpired window now last := by
      rw [hasExpired, hasExpired, htime]
    have hlast : hasExpired window now last = false := by
      rcases hstays with hleft | hkept
      · rw [← Bool.not_eq_true]
        exact fun hexpired => hleft (List.dropWhile_cons_of_pos hexpired)
      · rw [← hsame last.amount, hkept]
    rw [List.dropWhile_cons_of_neg (by rw [hsame, hlast]; decide),
      List.dropWhile_cons_of_neg (by rw [hlast]; decide), append, if_pos htime]
  | case3 last hne =>
    cases hlast : hasExpired window now last with
    | false =>
      rw [List.dropWhile_cons_of_neg (by rw [hlast]; decide),
        List.dropWhile_cons_of_neg (by rw [hlast]; decide), append, if_neg hne]
    | true =>
      have hkept := hstays.resolve_left fun hleft => hleft (List.dropWhile_cons_of_pos hlast)
      rw [List.dropWhile_cons_of_pos hlast, List.dropWhile_cons_of_pos hlast, List.dropWhile_nil,
        List.dropWhile_cons_of_neg (by rw [hkept]; decide), append]
  | case4 s rest hrest ih =>
    cases hs : hasExpired window now s with
    | false =>
      rw [List.dropWhile_cons_of_neg (by rw [hs]; decide),
        List.dropWhile_cons_of_neg (by rw [hs]; decide), append]
      exact hrest
    | true =>
      rw [List.dropWhile_cons_of_pos hs] at hstays ⊢
      rw [List.dropWhile_cons_of_pos hs, ih hstays]

/-- Dropping what has left the window commutes with merging, in whatever order the recordings were made. -/
theorem dropWhile_merge (recordings : List Sample) :
    (merge recordings).dropWhile (hasExpired window now) =
      merge (recordings.dropWhile (hasExpired window now)) := by
  induction recordings using List.reverseRecOn with
  | nil => rfl
  | append_singleton recordings s ih =>
    rw [merge_concat, List.dropWhile_append]
    by_cases hgone : recordings.dropWhile (hasExpired window now) = []
    · have hmerged : (merge recordings).dropWhile (hasExpired window now) = [] := by
        rw [ih, hgone]
        rfl
      rw [hgone, List.isEmpty_nil, if_pos rfl]
      cases hs : hasExpired window now s with
      | false =>
        rw [dropWhile_append (.inr fun _ => hs), hmerged, List.dropWhile_cons_of_neg (by rw [hs]; decide)]
        rfl
      | true =>
        rw [List.dropWhile_cons_of_pos hs, List.dropWhile_nil]
        refine List.dropWhile_eq_nil_iff.mpr fun r hr => ?_
        rcases of_mem_append hr with htime | hr
        · rw [← hs, hasExpired, hasExpired, htime]
        · exact List.dropWhile_eq_nil_iff.mp hmerged r hr
    · have hleft : (merge recordings).dropWhile (hasExpired window now) ≠ [] := by
        rw [ih]
        exact mt merge_eq_nil.mp hgone
      rw [if_neg (mt List.isEmpty_iff.mp hgone), merge_concat, ← ih]
      exact dropWhile_append (.inl hleft)

end

/-! ### The running total -/

theorem without_eq (total : Nat) (gone : List Sample) : without total gone = total - sum gone := by
  induction gone generalizing total with
  | nil => rfl
  | cons s rest ih =>
    show without (total - s.amount) rest = total - sum (s :: rest)
    rw [ih, sum_cons, Nat.sub_sub]

/-- The running total is the sum of the samples kept. -/
def Balanced (m : Monitor) : Prop := m.total = sum m.samples

theorem Balanced.evict {m : Monitor} (h : m.Balanced) (now : Nat) : (m.evict now).Balanced := by
  have hsplit : sum (m.samples.takeWhile (hasExpired m.window now)) +
      sum (m.samples.dropWhile (hasExpired m.window now)) = m.total := by
    rw [← Sample.sum_append, List.takeWhile_append_dropWhile, h]
  rw [Balanced, total_evict, samples_evict, without_eq]
  omega

theorem Balanced.record {m : Monitor} (h : m.Balanced) (amount now : Nat) :
    (m.record amount now).Balanced := by
  rw [Balanced, total_record, samples_record, sum_append_sample, h.evict now]

/-! ### What a monitor holds -/

/-- At an instant, a monitor holds what recordings in order have left in the window: merged, and added up. -/
structure Holds (m : Monitor) (recordings : List Sample) (now : Nat) : Prop where
  samples : m.samples = merge (recordings.dropWhile (hasExpired m.window now))
  balanced : m.Balanced
  sorted : recordings.Pairwise (·.time ≤ ·.time)
  time_le : ∀ s ∈ recordings, s.time ≤ now

namespace Holds

variable {m : Monitor} {recordings : List Sample} {now later : Nat}

theorem ofWindow (window now : Nat) : (Monitor.ofWindow window).Holds [] now where
  samples := rfl
  balanced := rfl
  sorted := List.Pairwise.nil
  time_le _ hs := nomatch hs

theorem reset (m : Monitor) (now : Nat) : m.reset.Holds [] now where
  samples := rfl
  balanced := rfl
  sorted := List.Pairwise.nil
  time_le _ hs := nomatch hs

theorem evict (h : m.Holds recordings now) (hle : now ≤ later) :
    (m.evict later).Holds recordings later where
  samples := by
    rw [samples_evict, h.samples, window_evict, dropWhile_merge]
    exact congrArg merge (dropWhile_hasExpired_of_le hle recordings)
  balanced := h.balanced.evict later
  sorted := h.sorted
  time_le s hs := Nat.le_trans (h.time_le s hs) hle

/-- An eviction at an earlier instant drops nothing. -/
theorem evict_earlier {earlier : Nat} (h : m.Holds recordings now) (hle : earlier ≤ now) :
    (m.evict earlier).Holds recordings now where
  samples := by
    rw [samples_evict, h.samples, window_evict, dropWhile_merge]
    exact congrArg merge (dropWhile_hasExpired_of_earlier hle recordings)
  balanced := h.balanced.evict earlier
  sorted := h.sorted
  time_le := h.time_le

theorem record (h : m.Holds recordings now) (hwindow : 0 < m.window) (hle : now ≤ later)
    (hlater : later < Word.greatest) (amount : Nat) :
    (m.record amount later).Holds (recordings ++ [⟨later, amount⟩]) later where
  samples := by
    have hself := hasExpired_self hwindow hlater amount
    have hsame : (m.record amount later).window = m.window := window_evict later m
    have hmerged := merge_concat (recordings.dropWhile (hasExpired m.window later)) ⟨later, amount⟩
    rw [samples_record, (h.evict hle).samples, window_evict, hsame, ← hmerged, List.dropWhile_append]
    split
    · next hempty =>
      rw [List.isEmpty_iff.mp hempty, List.dropWhile_cons_of_neg (by rw [hself]; decide), List.nil_append]
    · rfl
  balanced := h.balanced.record amount later
  sorted := by
    refine List.pairwise_append.mpr ⟨h.sorted, List.pairwise_singleton _ _, fun s hs r hr => ?_⟩
    rw [List.mem_singleton.mp hr]
    exact Nat.le_trans (h.time_le s hs) hle
  time_le s hs := by
    rcases List.mem_append.mp hs with hs | hs
    · exact Nat.le_trans (h.time_le s hs) hle
    · rw [List.mem_singleton.mp hs]

/-- What is read at an instant is the sum over the window that ends there, up to the greatest word. -/
theorem recorded_evict (h : m.Holds recordings now) (hle : now ≤ later) (hlater : later < Word.greatest) :
    (m.evict later).recorded =
      Word.clip (sum (recordings.filter (·.inWindow m.window later))) := by
  have hkept := h.evict hle
  rw [Monitor.recorded, hkept.balanced, hkept.samples, sum_merge, window_evict,
    dropWhile_hasExpired hlater h.sorted hkept.time_le]

end Holds

/-! ### Calls -/

/-- One use of a monitor. -/
inductive Call where
  | record (amount now : Nat)
  | evict (now : Nat)
  | totalInWindow (now : Nat)
  | speed (now : Nat)
  | reset
  deriving DecidableEq, Repr

/-- The instant of a call. A reset has none. -/
def Call.time? : Call → Option Nat
  | .record _ now => some now
  | .evict now => some now
  | .totalInWindow now => some now
  | .speed now => some now
  | .reset => none

/-- What a call records. -/
def Call.sample? : Call → Option Sample
  | .record amount now => some ⟨now, amount⟩
  | _ => none

/-- The monitor that a call leaves. -/
def step (m : Monitor) : Call → Monitor
  | .record amount now => m.record amount now
  | .evict now => m.evict now
  | .totalInWindow now => (m.totalInWindow now).2
  | .speed now => (m.speed now).2
  | .reset => m.reset

/-- The monitor after some calls. -/
def after (m : Monitor) (calls : List Call) : Monitor := calls.foldl step m

/-- The instants of calls, in order. -/
def times (calls : List Call) : List Nat := calls.filterMap Call.time?

/-- What calls record after the last reset, in order. -/
def recordings (calls : List Call) : List Sample :=
  (calls.rtakeWhile (· ≠ .reset)).filterMap Call.sample?

section

variable {calls : List Call} {call : Call} {m : Monitor}

theorem after_concat (m : Monitor) (calls : List Call) (call : Call) :
    m.after (calls ++ [call]) = (m.after calls).step call :=
  List.foldl_concat ..

theorem window_step (m : Monitor) (call : Call) : (m.step call).window = m.window := by
  cases call with
  | reset => rfl
  | _ => exact window_evict _ m

theorem window_after (m : Monitor) (calls : List Call) : (m.after calls).window = m.window := by
  induction calls using List.reverseRecOn with
  | nil => rfl
  | append_singleton calls call ih => rw [after_concat, window_step, ih]

theorem times_concat (calls : List Call) (call : Call) :
    times (calls ++ [call]) = times calls ++ call.time?.toList :=
  List.filterMap_append.trans (congrArg _ (by cases h : call.time? <;> simp [h]))

theorem recordings_concat_reset (calls : List Call) : recordings (calls ++ [.reset]) = [] := by
  rw [recordings, List.rtakeWhile_concat_neg _ _ _ (by decide), List.filterMap_nil]

theorem recordings_concat (hne : call ≠ .reset) :
    recordings (calls ++ [call]) = recordings calls ++ call.sample?.toList := by
  rw [recordings, List.rtakeWhile_concat_pos _ _ _ (by simpa using hne), List.filterMap_append]
  exact congrArg _ (by cases h : call.sample? <;> simp [h])

end

/-! ### Runs -/

/-- The last of some instants, or the start. -/
def latest (instants : List Nat) : Nat := instants.getLast?.getD 0

theorem latest_concat (instants : List Nat) (now : Nat) : latest (instants ++ [now]) = now := by
  rw [latest, List.getLast?_concat, Option.getD_some]

theorem latest_le {instants : List Nat} {now : Nat} (h : (instants ++ [now]).Pairwise (· ≤ ·)) :
    latest instants ≤ now := by
  induction instants using List.reverseRecOn with
  | nil => exact Nat.zero_le now
  | append_singleton instants last _ =>
    rw [latest_concat]
    exact (List.pairwise_append.mp h).2.2 last (by simp) now (List.mem_singleton.mpr rfl)

/-- A call at an instant that is not earlier keeps what a monitor holds. -/
theorem Holds.step {m : Monitor} {calls : List Call} {call : Call} (hwindow : 0 < m.window)
    (h : m.Holds (recordings calls) (latest (times calls)))
    (hle : ∀ now ∈ call.time?, latest (times calls) ≤ now ∧ now < Word.greatest) :
    (m.step call).Holds (recordings (calls ++ [call])) (latest (times (calls ++ [call]))) := by
  -- All other calls than recordings and resets only drop what has left the window.
  have drops : ∀ now, call.time? = some now → call.sample? = none → call ≠ .reset →
      (m.evict now).Holds (recordings (calls ++ [call])) (latest (times (calls ++ [call]))) := by
    intro now htime hnone hne
    rw [times_concat, htime, Option.toList_some, latest_concat, recordings_concat hne, hnone,
      Option.toList_none, List.append_nil]
    exact h.evict (hle now htime).1
  cases call with
  | reset =>
    rw [recordings_concat_reset]
    exact .reset m _
  | record amount now =>
    obtain ⟨hnow, hword⟩ := hle now rfl
    rw [times_concat, Call.time?, Option.toList_some, latest_concat, recordings_concat Call.noConfusion]
    exact h.record hwindow hnow hword amount
  | evict now => exact drops now rfl rfl Call.noConfusion
  | totalInWindow now => exact drops now rfl rfl Call.noConfusion
  | speed now => exact drops now rfl rfl Call.noConfusion

/-- After calls in order, a monitor holds what they recorded after the last reset. -/
theorem holds_after (window : Nat) {calls : List Call} (hordered : (times calls).Pairwise (· ≤ ·))
    (hword : ∀ now ∈ times calls, now < Word.greatest) :
    ((ofWindow window).after calls).Holds (recordings calls) (latest (times calls)) := by
  induction calls using List.reverseRecOn with
  | nil => exact .ofWindow window _
  | append_singleton calls call ih =>
    rw [times_concat] at hordered hword
    have h := ih (List.pairwise_append.mp hordered).1 fun now hnow => hword now (List.mem_append_left _ hnow)
    have hwindow : 0 < ((ofWindow window).after calls).window := by
      rw [window_after]
      exact Nat.lt_of_lt_of_le Nat.one_pos (Nat.le_max_right window 1)
    rw [after_concat]
    refine h.step hwindow fun now hnow => ?_
    rw [Option.mem_def.mp hnow, Option.toList_some] at hordered hword
    exact ⟨latest_le hordered, hword now (List.mem_append_right _ (List.mem_singleton.mpr rfl))⟩

theorem total_evict_le (now : Nat) (m : Monitor) : (m.evict now).total ≤ m.total := by
  rw [total_evict, without_eq]
  exact Nat.sub_le _ _

/-- A call adds no more than one word to the running total. -/
theorem total_step_le {call : Call} (hword : ∀ s ∈ call.sample?, s.amount ≤ Word.greatest) (m : Monitor) :
    (m.step call).total ≤ m.total + Word.greatest := by
  cases call with
  | record amount now =>
    have hamount : amount ≤ Word.greatest := hword _ rfl
    have hevict := total_evict_le now m
    show (m.evict now).total + amount ≤ m.total + Word.greatest
    omega
  | reset => exact Nat.zero_le _
  | evict now => exact Nat.le_add_right_of_le (total_evict_le now m)
  | totalInWindow now => exact Nat.le_add_right_of_le (total_evict_le now m)
  | speed now => exact Nat.le_add_right_of_le (total_evict_le now m)

theorem total_after_le {calls : List Call}
    (hword : ∀ call ∈ calls, ∀ s ∈ call.sample?, s.amount ≤ Word.greatest) (window : Nat) :
    ((ofWindow window).after calls).total ≤ calls.length * Word.greatest := by
  induction calls using List.reverseRecOn with
  | nil => exact Nat.zero_le _
  | append_singleton calls call ih =>
    have hcalls := ih fun c hc => hword c (List.mem_append_left _ hc)
    have hcall := hword call (List.mem_append_right _ (List.mem_singleton.mpr rfl))
    have hstep := total_step_le hcall ((ofWindow window).after calls)
    rw [after_concat, List.length_append, List.length_singleton, Nat.add_mul, Nat.one_mul]
    omega

/-- **A monitor is an exact sliding window.** After fewer than `2 ^ 64` calls at instants in order, each short
of the greatest word, the total read at `now` is the exact sum of what was recorded since the last reset and
is in the window that ends at `now`, up to the greatest word. The running total, which is not cut down, has
room in a double word. -/
theorem totalInWindow_eq (window : Nat) (calls : List Call) (now : Nat)
    (hordered : (times calls ++ [now]).Pairwise (· ≤ ·)) (hnow : now < Word.greatest)
    (hlength : calls.length < Nat.pow 2 64)
    (hword : ∀ call ∈ calls, ∀ s ∈ call.sample?, s.amount ≤ Word.greatest) :
    (((ofWindow window).after calls).totalInWindow now).1 =
        Word.clip (sum ((recordings calls).filter (·.inWindow (max window 1) now))) ∧
      ((ofWindow window).after calls).total < Nat.pow 2 128 := by
  obtain ⟨hcalls, -, hle⟩ := List.pairwise_append.mp hordered
  have hshort : ∀ t ∈ times calls, t < Word.greatest := fun t ht =>
    Nat.lt_of_le_of_lt (hle t ht now (List.mem_singleton.mpr rfl)) hnow
  have hread := (holds_after window hcalls hshort).recorded_evict (latest_le hordered) hnow
  rw [window_after] at hread
  refine ⟨hread, ?_⟩
  have htotal := total_after_le hword window
  have hpow : (Nat.pow 2 64 - 1) * Word.greatest < Nat.pow 2 128 := by decide
  have hmul : calls.length * Word.greatest ≤ (Nat.pow 2 64 - 1) * Word.greatest :=
    Nat.mul_le_mul_right _ (Nat.le_sub_one_of_lt hlength)
  exact Nat.lt_of_le_of_lt (Nat.le_trans htotal hmul) hpow

/-- Calls with recordings at one instant, of which some leave the window, and a reset before them. -/
def traffic : List Call :=
  [.record 7 1, .reset, .record 5 2, .record 0 2, .speed 3, .record 18446744073709551615 4, .evict 11,
    .record 6 12]

theorem totalInWindow_eq_traffic :
    (times traffic ++ [13]).Pairwise (· ≤ ·) ∧ 13 < Word.greatest ∧ traffic.length < Nat.pow 2 64 ∧
      (∀ call ∈ traffic, ∀ s ∈ call.sample?, s.amount ≤ Word.greatest) ∧
      (((ofWindow 10).after traffic).totalInWindow 13).1 =
          Word.clip (sum ((recordings traffic).filter (·.inWindow (max 10 1) 13))) ∧
        ((ofWindow 10).after traffic).total < Nat.pow 2 128 := by
  have hordered : (times traffic ++ [13]).Pairwise (· ≤ ·) := by decide
  have hnow : 13 < Word.greatest := by decide
  have hlength : traffic.length < Nat.pow 2 64 := by decide
  have hword : ∀ call ∈ traffic, ∀ s ∈ call.sample?, s.amount ≤ Word.greatest := by decide
  exact ⟨hordered, hnow, hlength, hword, totalInWindow_eq 10 traffic 13 hordered hnow hlength hword⟩

end Monitor

end Sluice
