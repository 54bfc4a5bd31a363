import Sluice.Proofs.Rate.Window

/-!
# A clock that goes back

A monitor is not told that instants come in order. When they do not, a sample may stay although it has left the
window, since a later one stands before it, and the total is not exact any more. But nothing is lost
(`keeps_what_lasts`).

What `lasting` lists is safe: what was recorded after the last reset and has not left the window at any instant
passed since. The samples kept come from the recordings at the end of the history (`Retains`), since dropping takes
from the front only and stops at the first sample that has not left, and what lasts is among those. None of this
needs an order, nor does the balance of the running total with its samples. So the total that is read may be too
high but is never too low, and an instant at which all samples have left clears the monitor.
-/

namespace Sluice

open Sample

namespace Monitor

/-! ### What lasts -/

/-- No call forgets a sample: none is a reset, and at no instant of them has the sample left the window. -/
def survives (window : Nat) (later : List Call) (s : Sample) : Bool :=
  .reset ∉ later ∧ ∀ now ∈ times later, now < s.time + window

/-- What calls record and no later call may drop. -/
def lasting (window : Nat) : List Call → List Sample
  | [] => []
  | call :: later => call.sample?.toList.filter (survives window later) ++ lasting window later

section

variable {window : Nat} {calls later : List Call} {call : Call} {s : Sample}

theorem survives_iff :
    survives window later s = true ↔ .reset ∉ later ∧ ∀ now ∈ times later, now < s.time + window :=
  decide_eq_true_iff

theorem survives_singleton (hne : call ≠ .reset) :
    survives window [call] s = true ↔ ∀ now ∈ call.time?, now < s.time + window := by
  have htimes : times [call] = call.time?.toList := times_concat [] call
  have hreset : Call.reset ∉ [call] := mt List.mem_singleton.mp hne.symm
  rw [survives_iff, htimes, and_iff_right hreset]
  simp only [Option.mem_toList, Option.mem_def]

theorem survives_concat (hne : call ≠ .reset) :
    survives window (later ++ [call]) s = (survives window [call] s && survives window later s) := by
  rw [Bool.eq_iff_iff, Bool.and_eq_true, survives_singleton hne, survives_iff, survives_iff, times_concat]
  simp only [List.mem_append, List.mem_singleton, hne.symm, or_false, Option.mem_toList, Option.mem_def, or_imp,
    forall_and]
  tauto

theorem lasting_concat_reset (window : Nat) (calls : List Call) : lasting window (calls ++ [.reset]) = [] := by
  induction calls with
  | nil => rfl
  | cons call later ih =>
    have hgone : ∀ s ∈ call.sample?.toList, ¬ survives window (later ++ [.reset]) s = true := fun s _ hs =>
      (survives_iff.mp hs).1 (List.mem_append_right _ (List.mem_singleton.mpr rfl))
    rw [List.cons_append, lasting, ih, List.filter_eq_nil_iff.mpr hgone, List.append_nil]

/-- A call lets go of what has left the window at its instant. -/
theorem lasting_concat (hne : call ≠ .reset) (window : Nat) (calls : List Call) :
    lasting window (calls ++ [call]) =
      (lasting window calls).filter (survives window [call]) ++ call.sample?.toList := by
  induction calls with
  | nil =>
    have hkept : ∀ s ∈ call.sample?.toList, survives window [] s = true := fun s _ =>
      survives_iff.mpr ⟨List.not_mem_nil, fun _ hnow => nomatch hnow⟩
    show call.sample?.toList.filter (survives window []) ++ [] = call.sample?.toList
    rw [List.filter_eq_self.mpr hkept, List.append_nil]
  | cons first later ih =>
    have hboth : survives window (later ++ [call]) =
        fun s => survives window [call] s && survives window later s :=
      funext fun s => survives_concat hne
    rw [List.cons_append, lasting, ih, lasting, List.filter_append, List.filter_filter, List.append_assoc, hboth]

/-- What has not left the window at any instant passed so far lasts. -/
theorem filter_recordings_sublist (window : Nat) (calls : List Call) :
    ((recordings calls).filter fun s => ∀ now ∈ times calls, now < s.time + window).Sublist
      (lasting window calls) := by
  induction calls using List.reverseRecOn with
  | nil => exact List.Sublist.refl []
  | append_singleton calls call ih =>
    by_cases hreset : call = .reset
    · rw [hreset, recordings_concat_reset]
      exact List.nil_sublist _
    have hboth : (recordings calls).filter (fun s => ∀ now ∈ times (calls ++ [call]), now < s.time + window) =
        ((recordings calls).filter fun s => ∀ now ∈ times calls, now < s.time + window).filter
          (survives window [call]) := by
      rw [List.filter_filter]
      refine List.filter_congr fun s _ => ?_
      rw [Bool.eq_iff_iff, Bool.and_eq_true, survives_singleton hreset, decide_eq_true_iff, decide_eq_true_iff,
        times_concat]
      simp only [List.mem_append, Option.mem_toList, Option.mem_def, or_imp, forall_and, and_comm]
    rw [recordings_concat hreset, lasting_concat hreset, List.filter_append, hboth]
    exact (ih.filter _).append List.filter_sublist

/-! ### What is kept -/

/-- Dropping from the front stops before what is in the window. -/
theorem filter_sublist_dropWhile {now : Nat} (hnow : now < Word.greatest) (hne : call ≠ .reset)
    (htime : call.time? = some now) (samples : List Sample) :
    (samples.filter (survives window [call])).Sublist (samples.dropWhile (hasExpired window now)) := by
  have hgone : ∀ s ∈ samples.takeWhile (hasExpired window now), ¬ survives window [call] s = true := by
    intro s hs hsurvives
    have hexpired := hasExpired_iff.mp (List.mem_takeWhile_imp hs)
    have hleft := (survives_singleton hne).mp hsurvives now htime
    rw [Word.add] at hexpired
    omega
  have hsplit := List.takeWhile_append_dropWhile (p := hasExpired window now) (l := samples)
  conv_lhs => rw [← hsplit, List.filter_append, List.filter_eq_nil_iff.mpr hgone, List.nil_append]
  exact List.filter_sublist

end

/-- After calls, a monitor keeps the last of their recordings, merged, and all that last are among them. -/
structure Retains (m : Monitor) (calls : List Call) (kept : List Sample) : Prop where
  samples : m.samples = merge kept
  suffix : kept <:+ recordings calls
  covers : (lasting m.window calls).Sublist kept

namespace Retains

variable {m : Monitor} {calls : List Call} {call : Call} {kept : List Sample} {now : Nat}

/-- A call at an instant drops what has left the window there, and adds what it records. -/
theorem concat (h : m.Retains calls kept) {m' : Monitor} (hwindow : m'.window = m.window) (hne : call ≠ .reset)
    (htime : call.time? = some now) (hnow : now < Word.greatest)
    (hsamples : m'.samples = merge (kept.dropWhile (hasExpired m.window now) ++ call.sample?.toList)) :
    m'.Retains (calls ++ [call]) (kept.dropWhile (hasExpired m.window now) ++ call.sample?.toList) where
  samples := hsamples
  suffix := by
    rw [recordings_concat hne]
    obtain ⟨gone, hgone⟩ := (List.dropWhile_suffix (hasExpired m.window now)).trans h.suffix
    exact ⟨gone, by rw [← List.append_assoc, hgone]⟩
  covers := by
    rw [hwindow, lasting_concat hne]
    exact ((h.covers.filter _).trans (filter_sublist_dropWhile hnow hne htime kept)).append (.refl _)

/-- What is kept after a call short of the greatest word, whenever it is made. -/
theorem step (h : m.Retains calls kept) (hword : ∀ now ∈ call.time?, now < Word.greatest) :
    ∃ kept, (m.step call).Retains (calls ++ [call]) kept := by
  have hevict (now : Nat) : (m.evict now).samples = merge (kept.dropWhile (hasExpired m.window now)) := by
    rw [samples_evict, h.samples, dropWhile_merge]
  -- All other calls than recordings and resets only drop what has left the window.
  have drops : ∀ now, call.time? = some now → call.sample? = none → call ≠ .reset →
      ∃ kept, (m.evict now).Retains (calls ++ [call]) kept := by
    intro now htime hnone hne
    refine ⟨_, h.concat (window_evict now m) hne htime (hword now htime) ?_⟩
    rw [hnone, Option.toList_none, List.append_nil]
    exact hevict now
  cases call with
  | reset =>
    have hnone : (lasting m.reset.window (calls ++ [.reset])).Sublist [] := by rw [lasting_concat_reset]
    exact ⟨[], rfl, List.nil_suffix, hnone⟩
  | record amount now =>
    refine ⟨_, h.concat (window_evict now m) Call.noConfusion rfl (hword now rfl) ?_⟩
    show (m.record amount now).samples = merge (kept.dropWhile (hasExpired m.window now) ++ [⟨now, amount⟩])
    rw [samples_record, hevict, merge_concat]
  | evict now => exact drops now rfl rfl Call.noConfusion
  | totalInWindow now => exact drops now rfl rfl Call.noConfusion
  | speed now => exact drops now rfl rfl Call.noConfusion

end Retains

theorem retains_after (window : Nat) {calls : List Call} (hword : ∀ now ∈ times calls, now < Word.greatest) :
    ∃ kept, ((ofWindow window).after calls).Retains calls kept := by
  induction calls using List.reverseRecOn with
  | nil => exact ⟨[], rfl, List.nil_suffix, List.Sublist.refl []⟩
  | append_singleton calls call ih =>
    rw [times_concat] at hword
    obtain ⟨kept, h⟩ := ih fun now hnow => hword now (List.mem_append_left _ hnow)
    rw [after_concat]
    refine h.step fun now hnow => hword now (List.mem_append_right _ ?_)
    rw [Option.mem_def.mp hnow]
    exact List.mem_singleton.mpr rfl

/-! ### The balance -/

theorem Balanced.step {m : Monitor} (h : m.Balanced) (call : Call) : (m.step call).Balanced := by
  cases call with
  | record amount now => exact h.record amount now
  | reset => exact rfl
  | evict now => exact h.evict now
  | totalInWindow now => exact h.evict now
  | speed now => exact h.evict now

theorem balanced_after (window : Nat) (calls : List Call) : ((ofWindow window).after calls).Balanced := by
  induction calls using List.reverseRecOn with
  | nil => exact rfl
  | append_singleton calls call ih =>
    rw [after_concat]
    exact ih.step call

/-- Taking samples off the running total, one after the other, never takes off more than there is. -/
theorem Balanced.le_without {m : Monitor} (h : m.Balanced) {gone rest : List Sample} {s : Sample}
    (hsamples : m.samples = gone ++ s :: rest) : s.amount ≤ without m.total gone := by
  rw [without_eq, h, hsamples, Sample.sum_append, sum_cons]
  omega

/-- An instant at which all samples have left the window clears a monitor. -/
theorem samples_evict_eq_nil {m : Monitor} {now : Nat} (hleft : ∀ s ∈ m.samples, s.time + m.window ≤ now) :
    (m.evict now).samples = [] := by
  rw [samples_evict, List.dropWhile_eq_nil_iff]
  refine fun s hs => hasExpired_iff.mpr ?_
  exact Nat.le_trans (Nat.min_le_left _ _) (hleft s hs)

/-- **A clock that goes back loses nothing.** After fewer than `2 ^ 64` calls at instants short of the greatest
word, in any order: the running total is the sum of the samples, so that no sample taken off it is more than what is
left of it, and a further amount fits into a double word. Of the recordings since the last reset the first ones may
be gone, but none of those that last, and whatever has not left the window at any instant passed so far lasts. A
total read is never less than the sum of what lasts, up to the greatest word. And an instant at which all samples
have left leaves none. -/
theorem keeps_what_lasts (window : Nat) (calls : List Call) (hlength : calls.length < Nat.pow 2 64)
    (hamount : ∀ call ∈ calls, ∀ s ∈ call.sample?, s.amount ≤ Word.greatest)
    (hword : ∀ now ∈ times calls, now < Word.greatest) :
    let m := (ofWindow window).after calls
    (m.total = sum m.samples ∧
        (∀ gone s rest, m.samples = gone ++ s :: rest → s.amount ≤ without m.total gone) ∧
        ∀ amount ≤ Word.greatest, ∀ now, (m.record amount now).total < Nat.pow 2 128) ∧
      (((recordings calls).filter fun s => ∀ now ∈ times calls, now < s.time + m.window).Sublist
          (lasting m.window calls) ∧
        ∃ kept, kept <:+ recordings calls ∧ (lasting m.window calls).Sublist kept ∧ m.samples = merge kept) ∧
      (∀ now < Word.greatest, Word.clip (sum (lasting m.window (calls ++ [.totalInWindow now]))) ≤
        (m.totalInWindow now).1) ∧
      ∀ now, (∀ s ∈ m.samples, s.time + m.window ≤ now) →
        (m.evict now).samples = [] ∧ m.totalInWindow now = (0, m.evict now) := by
  intro m
  have hbalanced : m.Balanced := balanced_after window calls
  obtain ⟨kept, hretains⟩ := retains_after window hword
  refine ⟨⟨hbalanced, fun gone s rest => hbalanced.le_without, fun amount hle now => ?_⟩,
    ⟨filter_recordings_sublist m.window calls, kept, hretains.suffix, hretains.covers, hretains.samples⟩,
    fun now hnow => ?_, fun now hleft => ?_⟩
  · have htotal : m.total ≤ calls.length * Word.greatest := total_after_le hamount window
    have hevict := total_evict_le now m
    have hmul : calls.length * Word.greatest ≤ (Nat.pow 2 64 - 1) * Word.greatest :=
      Nat.mul_le_mul_right _ (Nat.le_sub_one_of_lt hlength)
    have hpow : (Nat.pow 2 64 - 1) * Word.greatest + Word.greatest < Nat.pow 2 128 := by decide
    rw [total_record]
    omega
  · have hshort : ∀ t ∈ (Call.totalInWindow now).time?, t < Word.greatest := fun t ht =>
      Option.some.inj ht ▸ hnow
    obtain ⟨kept, hread⟩ := hretains.step hshort
    have htotal : (m.evict now).total = sum kept := by
      rw [hbalanced.evict now, ← sum_merge kept]
      exact congrArg sum hread.samples
    have hwindow : (m.step (.totalInWindow now)).window = m.window := window_step m _
    have hlasting := hread.covers
    rw [hwindow] at hlasting
    show _ ≤ Word.clip (m.evict now).total
    rw [htotal]
    exact Word.clip_le_clip (sum_le_of_sublist hlasting)
  · have hnone := samples_evict_eq_nil hleft
    have htotal : (m.evict now).total = 0 := by rw [hbalanced.evict now, hnone, sum_nil]
    refine ⟨hnone, ?_⟩
    rw [totalInWindow, recorded, htotal]
    rfl

/-- Calls before and after a reset, between which the clock goes back and forth. -/
def backAndForth : List Call :=
  [.record 9 29, .reset, .record 7 20, .record 5 12, .totalInWindow 25, .record 4 8]

/-- The sample of 12 has left the window at 25 but stays behind that of 20. At 30 all have left. -/
theorem keeps_what_lasts_backAndForth :
    let m := (ofWindow 10).after backAndForth
    (backAndForth.length < Nat.pow 2 64 ∧
        (∀ call ∈ backAndForth, ∀ s ∈ call.sample?, s.amount ≤ Word.greatest) ∧
        ∀ now ∈ times backAndForth, now < Word.greatest) ∧
      (m.samples = [⟨20, 7⟩, ⟨12, 5⟩, ⟨8, 4⟩] ∧
        lasting m.window backAndForth = [⟨20, 7⟩, ⟨8, 4⟩]) ∧
      m.total = sum m.samples ∧
      (∃ kept, kept <:+ recordings backAndForth ∧ (lasting m.window backAndForth).Sublist kept ∧
        m.samples = merge kept) ∧
      Word.clip (sum (lasting m.window (backAndForth ++ [.totalInWindow 16]))) ≤ (m.totalInWindow 16).1 ∧
      (m.evict 30).samples = [] ∧ m.totalInWindow 30 = (0, m.evict 30) := by
  intro m
  have hlength : backAndForth.length < Nat.pow 2 64 := by decide
  have hamount : ∀ call ∈ backAndForth, ∀ s ∈ call.sample?, s.amount ≤ Word.greatest := by decide
  have hword : ∀ now ∈ times backAndForth, now < Word.greatest := by decide
  obtain ⟨⟨htotal, -, -⟩, ⟨-, hkept⟩, hread, hclear⟩ :=
    keeps_what_lasts 10 backAndForth hlength hamount hword
  have hleft : ∀ s ∈ m.samples, s.time + m.window ≤ 30 := by decide
  exact ⟨⟨hlength, hamount, hword⟩, by decide, htotal, hkept, hread 16 (by decide), hclear 30 hleft⟩

end Monitor

end Sluice
