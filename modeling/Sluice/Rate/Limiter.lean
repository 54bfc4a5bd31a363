import Sluice.Delivery.Error
import Sluice.Rate.Monitor

/-!
# Speed limits

A `Limiter` holds the amounts of one window at or below a budget. It tells how long an amount has to
wait until enough of the window has passed, and a single amount above the budget passes as soon as
the window is empty.
-/

namespace Sluice

/-- A limit in units per second, if there is one, and the window in microseconds. -/
structure LimiterSettings where
  limit : Option Nat
  window : Nat
  deriving DecidableEq, Repr

namespace LimiterSettings

/-- The window where none is asked for: one second. -/
def standardWindow : Nat := 1000000

/-- No limit. -/
def unlimited : LimiterSettings := ⟨none, standardWindow⟩

/-- A low limit over a short window. -/
def small : LimiterSettings := ⟨some 1000, 100000⟩

/-- The window and the limit must not be zero; a fault of the window is reported first. -/
def validate (s : LimiterSettings) : Except DeliveryError Unit :=
  if s.window = 0 then .error (.invalidConfig "window_us must be positive")
  else if s.limit = some 0 then
    .error (.invalidConfig "speed limit must be positive, use None for unlimited")
  else .ok ()

end LimiterSettings

/-- A limit together with the record of what it admitted. -/
structure Limiter where
  limit : Option Nat
  monitor : Monitor
  deriving DecidableEq, Repr

namespace Limiter

/-- A limiter with an empty record. -/
def ofSettings (s : LimiterSettings) : Limiter := ⟨s.limit, Monitor.ofWindow s.window⟩

/-- A limiter with an empty record, for settings that are valid. -/
def ofSettings? (s : LimiterSettings) : Except DeliveryError Limiter :=
  s.validate.map fun _ => ofSettings s

/-- The window in microseconds. -/
def window (l : Limiter) : Nat := l.monitor.window

/-- Replaces the limit and keeps the record. A limit of zero is refused. -/
def setLimit (limit : Option Nat) (l : Limiter) : Except DeliveryError Limiter :=
  (LimiterSettings.mk limit l.window).validate.map fun _ => { l with limit }

/-- The units that one window admits under a limit: at least one, at most the greatest word. -/
def budget (l : Limiter) (limit : Nat) : Nat := max (Word.clip (limit * l.window / 1000000)) 1

/-- The instant at which the total has fallen to `goal`, when the samples leave one by one. -/
def fallsAt (window goal : Nat) : Nat → List Sample → Option Nat
  | _, [] => none
  | total, s :: rest =>
    let left := total - Word.clip s.amount
    if left ≤ goal then some (Word.add s.time window) else fallsAt window goal left rest

/-- The instant at which the total has fallen to `goal`. The oldest samples are looked at first, since
they mostly suffice. -/
def freeAt (m : Monitor) (goal total : Nat) : Option Nat :=
  let oldest := m.kept.elim [] fun kept => kept.1.front
  fallsAt m.window goal total oldest <|> fallsAt m.window goal total m.samples

theorem fallsAt_append {window goal total t : Nat} {oldest : List Sample}
    (h : fallsAt window goal total oldest = some t) (rest : List Sample) :
    fallsAt window goal total (oldest ++ rest) = some t := by
  induction oldest generalizing total with
  | nil => simp [fallsAt] at h
  | cons s others ih =>
    simp only [List.cons_append, fallsAt] at h ⊢
    split
    · rename_i hle
      simpa [hle] using h
    · rename_i hle
      exact ih (by simpa [hle] using h)

theorem freeAt_eq (m : Monitor) (goal total : Nat) :
    freeAt m goal total = fallsAt m.window goal total m.samples := by
  cases hk : m.kept with
  | none => simp [freeAt, Monitor.samples, hk, fallsAt]
  | some kept =>
    obtain ⟨older, latest⟩ := kept
    simp only [freeAt, hk, Option.elim_some]
    cases h : fallsAt m.window goal total older.front with
    | none => rfl
    | some t =>
      have hsamples : m.samples = older.front ++ (older.back.reverse ++ [latest]) := by
        simp [Monitor.samples, hk, Fifo.toList]
      rw [hsamples, fallsAt_append h]
      rfl

/-- How long an amount has to wait at `now`, in microseconds. Zero means that it fits. -/
def waitTime (amount now : Nat) (l : Limiter) : Nat × Limiter :=
  match l.limit with
  | none => (0, l)
  | some limit =>
    let kept : Limiter := { l with monitor := l.monitor.evict now }
    let budget := l.budget limit
    let total := kept.monitor.recorded
    let wait :=
      if Word.add total amount ≤ budget then 0
      else
        match freeAt kept.monitor (budget - amount) total with
        | some free => free - now
        | none => 0
    (wait, kept)

/-- Records an amount, whether it fits or not. -/
def record (amount now : Nat) (l : Limiter) : Limiter :=
  { l with monitor := l.monitor.record amount now }

/-- Records an amount if it fits, and otherwise tells how long to wait. -/
def tryAcquire (amount now : Nat) (l : Limiter) : Except DeliveryError Unit × Limiter :=
  let (wait, kept) := l.waitTime amount now
  if 0 < wait then (.error (.rateLimitExceeded amount wait), kept)
  else (.ok (), kept.record amount now)

/-- The average speed over the window that ends at `now`, per second. -/
def speed (now : Nat) (l : Limiter) : Number.Binary × Limiter :=
  let (speed, monitor) := l.monitor.speed now
  (speed, { l with monitor })

/-- The total admitted within the window that ends at `now`. -/
def totalInWindow (now : Nat) (l : Limiter) : Nat × Limiter :=
  let (total, monitor) := l.monitor.totalInWindow now
  (total, { l with monitor })

/-- Admits `count` amounts, each as soon as it fits and the next one `gap` later, and lists the
instants. -/
def pace (amount gap : Nat) : Nat → Nat → Limiter → List Nat × Limiter
  | 0, _, l => ([], l)
  | count + 1, now, l =>
    let (wait, l) := l.waitTime amount now
    let (later, l) := pace amount gap count (now + wait + gap) (l.record amount (now + wait))
    ((now + wait) :: later, l)

end Limiter

end Sluice
