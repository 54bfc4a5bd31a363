import Sluice.Fifo
import Sluice.Number.Rounding
import Sluice.Word

/-!
# Measured speed

A `Monitor` adds up what was recorded within a window of time. An amount recorded at `t` counts in
the window that ends at `now` as long as `now < t + window`. Amounts of one instant are kept as one
sample, samples leave from the oldest on, and the running total is that of the samples kept.

The latest sample stands apart from the older ones, so that an amount is added in constant time on
average. The view is `samples`: `samples_evict` and `samples_record` say what the operations do to it.
-/

namespace Sluice

/-- An amount recorded at an instant, in microseconds. -/
structure Sample where
  time : Nat
  amount : Nat
  deriving DecidableEq, Repr

/-- The speed measured over a sliding window. -/
structure Monitor where
  /-- The length of the window in microseconds, at least one. -/
  window : Nat
  /-- The latest sample behind the older ones, unless there is none. -/
  kept : Option (Fifo Sample × Sample) := none
  /-- The sum of the amounts kept. -/
  total : Nat := 0
  deriving DecidableEq, Repr

namespace Monitor

/-- A monitor without samples. A window of zero counts as one microsecond. -/
def ofWindow (window : Nat) : Monitor := { window := max window 1 }

/-- The samples kept, oldest first. -/
def samples (m : Monitor) : List Sample :=
  match m.kept with
  | none => []
  | some (older, latest) => older.toList ++ [latest]

/-- Whether a sample has left the window that ends at `now`. -/
def hasExpired (window now : Nat) (s : Sample) : Bool := Word.add s.time window ≤ now

/-- What is left of a total when samples leave it. -/
def without (total : Nat) (gone : List Sample) : Nat := gone.foldl (fun rest s => rest - s.amount) total

/-- Drops the oldest samples as long as they have left the window. -/
def evict (now : Nat) (m : Monitor) : Monitor :=
  match m.kept with
  | none => m
  | some (older, latest) =>
    let (gone, rest) := older.span (hasExpired m.window now)
    if rest.isEmpty && hasExpired m.window now latest then
      { m with kept := none, total := without m.total (gone ++ [latest]) }
    else { m with kept := some (rest, latest), total := without m.total gone }

/-- Adds an amount to the last sample if that is of the same instant, and otherwise as a sample of
its own. -/
def append (amount now : Nat) : List Sample → List Sample
  | [] => [⟨now, amount⟩]
  | [last] =>
    if last.time = now then [⟨now, last.amount + amount⟩] else [last, ⟨now, amount⟩]
  | s :: rest => s :: append amount now rest

/-- Records an amount. -/
def record (amount now : Nat) (m : Monitor) : Monitor :=
  let m := m.evict now
  let kept :=
    match m.kept with
    | none => (.empty, ⟨now, amount⟩)
    | some (older, latest) =>
      if latest.time = now then (older, ⟨now, latest.amount + amount⟩)
      else (older.push latest, ⟨now, amount⟩)
  { m with kept := some kept, total := m.total + amount }

/-- The total of the samples kept, at most the greatest word. -/
def recorded (m : Monitor) : Nat := Word.clip m.total

/-- The total within the window that ends at `now`, at most the greatest word. -/
def totalInWindow (now : Nat) (m : Monitor) : Nat × Monitor :=
  let kept := m.evict now
  (kept.recorded, kept)

/-- An amount in a span of microseconds as an amount per second. -/
def perSecond (amount span : Nat) : Number.Binary :=
  let f := Number.Format.double
  f.div (f.mul (f.ofNat amount) (f.ofNat 1000000)) (f.ofNat span)

/-- The average speed over the window that ends at `now`, per second. -/
def speed (now : Nat) (m : Monitor) : Number.Binary × Monitor :=
  let (total, kept) := m.totalInWindow now
  (perSecond total m.window, kept)

/-- Forgets all samples. -/
def reset (m : Monitor) : Monitor := { m with kept := none, total := 0 }

/-! ### The samples kept -/

@[simp]
theorem samples_ofWindow (window : Nat) : (ofWindow window).samples = [] := rfl

@[simp]
theorem samples_reset (m : Monitor) : m.reset.samples = [] := rfl

theorem window_evict (now : Nat) (m : Monitor) : (m.evict now).window = m.window := by
  simp only [evict]
  split
  · rfl
  · split <;> rfl

theorem samples_evict (now : Nat) (m : Monitor) :
    (m.evict now).samples = m.samples.dropWhile (hasExpired m.window now) := by
  cases hk : m.kept with
  | none => simp [evict, samples, hk]
  | some kept =>
    obtain ⟨older, latest⟩ := kept
    have hspan := (older.span_eq (hasExpired m.window now)).2
    have hempty := (older.span (hasExpired m.window now)).2.isEmpty_iff
    simp only [evict, samples, hk, List.dropWhile_append, ← hspan]
    by_cases hr : (older.span (hasExpired m.window now)).2.isEmpty = true
    · by_cases hl : hasExpired m.window now latest = true <;> simp [hr, hl, hempty.mp hr]
    · have := mt hempty.mpr hr
      simp [hr, this]

theorem total_evict (now : Nat) (m : Monitor) :
    (m.evict now).total = without m.total (m.samples.takeWhile (hasExpired m.window now)) := by
  cases hk : m.kept with
  | none => simp [evict, samples, hk, without]
  | some kept =>
    obtain ⟨older, latest⟩ := kept
    have hspan := older.span_eq (hasExpired m.window now)
    have hempty := (older.span (hasExpired m.window now)).2.isEmpty_iff
    have hsplit : older.toList.takeWhile (hasExpired m.window now) ++
        older.toList.dropWhile (hasExpired m.window now) = older.toList :=
      List.takeWhile_append_dropWhile
    rw [← hspan.1, ← hspan.2] at hsplit
    have hlength := congrArg List.length hsplit
    rw [List.length_append] at hlength
    simp only [evict, samples, hk, List.takeWhile_append, ← hspan.1]
    by_cases hr : (older.span (hasExpired m.window now)).2.isEmpty = true
    · have hrest := hempty.mp hr
      rw [hrest, List.append_nil] at hsplit
      by_cases hl : hasExpired m.window now latest = true <;> simp [hr, hl, hsplit]
    · have hrest : 0 < (older.span (hasExpired m.window now)).2.toList.length :=
        List.length_pos_iff.mpr (mt hempty.mpr hr)
      have hne : (older.span (hasExpired m.window now)).1.length ≠ older.toList.length := by omega
      simp [hr, hne]

theorem append_concat (amount now : Nat) (older : List Sample) (latest : Sample) :
    append amount now (older ++ [latest]) =
      if latest.time = now then older ++ [⟨now, latest.amount + amount⟩]
      else older ++ [latest, ⟨now, amount⟩] := by
  induction older with
  | nil => simp only [List.nil_append, append]
  | cons s rest ih =>
    have hcons : append amount now (s :: (rest ++ [latest])) =
        s :: append amount now (rest ++ [latest]) := by
      cases rest <;> rfl
    rw [List.cons_append, hcons, ih]
    split <;> rfl

theorem samples_record (amount now : Nat) (m : Monitor) :
    (m.record amount now).samples = append amount now (m.evict now).samples := by
  cases hk : (m.evict now).kept with
  | none => simp [record, samples, hk, append]
  | some kept =>
    obtain ⟨older, latest⟩ := kept
    simp only [record, samples, hk, append_concat]
    by_cases ht : latest.time = now <;> simp [ht]

theorem total_record (amount now : Nat) (m : Monitor) :
    (m.record amount now).total = (m.evict now).total + amount := rfl

end Monitor

end Sluice
