import Sluice.Proofs.Delivery.Wakeup

/-!
# The clock of a deliverer, read before the lock is taken

An `Interleaving` leaves the lock where the code does, but the clock is read before the lock of the state is taken.
`Watched` cuts there as well: the reader and the calls that measure the speed read the clock, and each uses what it has
read when it gets the lock, whatever happened meanwhile. Taken apart in this way, an event that nobody interrupts does
what it does as a whole (`Watched.after_acts`), and each schedule of whole events is one of those considered
(`Watched.after_events`).
-/

namespace Sluice

namespace Deliverer

variable {ρ : Type}

/-! ### The clock, read before the lock is taken -/

/-- A deliverer while nobody has its lock, with the instants that were read off its clock and not used yet. -/
structure Watched (ρ : Type) where
  inner : Interleaving ρ
  /-- What the reader has read. -/
  reading : Option Nat := none
  /-- What the calls have read that measure the speed. -/
  measures : List (CallId × Nat) := []

/-- What can happen to it next. -/
inductive Act (ρ : Type) where
  /-- A move that does not need the clock. -/
  | move (move : Move ρ)
  /-- The reader reads the clock, to look for a resource then. -/
  | readClock
  /-- It looks for a resource, at the instant that it has read. -/
  | find
  /-- A call begins that measures the speed, and reads the clock. -/
  | readSpeedClock (call : CallId)
  /-- It measures the speed, at the instant that it has read. -/
  | measure (call : CallId)

/-- Whether a move reads the clock at the very stroke at which it uses the limiter. -/
def Move.usesClock : Move ρ → Bool
  | .event .ask => true
  | .event .measure => true
  | .find => true
  | _ => false

/-- Whether the reader makes a move. -/
def Move.isReaders : Move ρ → Bool
  | .event e => e.isReaders
  | .find => true
  | .pursue => true
  | _ => false

/-- The same with the clock at another instant. -/
def Interleaving.dated (r : Interleaving ρ) (instant : Nat) : Interleaving ρ :=
  { r with deliverer.now := instant }

/-- A deliverer whose clock is set to an instant that was read off it shows that instant. -/
theorem clock_at {d : Deliverer ρ} {instant : Nat} (hle : instant ≤ d.clock) :
    ({ d with now := instant } : Deliverer ρ).clock = instant :=
  Word.clip_eq_of_le (Nat.le_trans hle (Nat.min_le_right _ _))

namespace Watched

variable {w w' : Watched ρ}

def ofDeliverer (d : Deliverer ρ) : Watched ρ := { inner := { deliverer := d } }

section

variable [Resource ρ]

/-- A move that is made at an instant read before. The clock is not set back by it. -/
def stepAt (w : Watched ρ) (instant : Nat) (move : Move ρ) : Option (Reply ρ × Interleaving ρ) :=
  ((w.inner.dated instant).step move).map fun (reply, inner) => (reply, inner.dated w.inner.deliverer.now)

/-- What happens, if it can. A reader that has read the clock does nothing else before it looks for a resource. -/
def step (w : Watched ρ) : Act ρ → Option (Reply ρ × Watched ρ)
  | .move move =>
    if move.usesClock || (move.isReaders && w.reading.isSome) then none
    else (w.inner.step move).map fun (reply, inner) => (reply, { w with inner })
  | .readClock =>
    match w.reading, w.inner.finding, w.inner.deliverer.isReading, w.inner.deliverer.search with
    | none, none, true, .asking => some (.quiet, { w with reading := some w.inner.deliverer.clock })
    | _, _, _, _ => none
  | .find =>
    match w.reading with
    | some instant =>
      (w.stepAt instant .find).map fun (reply, inner) => (reply, { w with inner, reading := none })
    | none => none
  | .readSpeedClock call =>
    if w.inner.deliverer.hasHandle then
      some (.quiet, { w with measures := w.measures ++ [(call, w.inner.deliverer.clock)] })
    else none
  | .measure call =>
    match w.measures.lookup call with
    | some instant =>
      (w.stepAt instant (.event .measure)).map fun (reply, inner) =>
        (reply, { w with inner, measures := w.measures.eraseP (·.1 == call) })
    | none => none

/-- The state after the acts of a schedule that are possible in their turn. -/
def after (w : Watched ρ) (acts : List (Act ρ)) : Watched ρ := Schedule.after step w acts

/-- What happened in a schedule. -/
def history (w : Watched ρ) (acts : List (Act ρ)) : List (Occurrence (Watched ρ) (Act ρ) (Reply ρ)) :=
  Schedule.occurrences step w acts

end

end Watched

/-! ### Whole events -/

/-- The acts of which an event consists. -/
def Event.acts : Event ρ → List (Act ρ)
  | .ask => [.readClock, .find, .move .pursue]
  | .measure => [.readSpeedClock 0, .measure 0]
  | event => [.move (.event event)]

/-- A look at the queue at the instant that the clock shows. -/
theorem find_dated (d : Deliverer ρ) :
    ({ d with now := d.clock } : Deliverer ρ).find = (d.find.1, { d.find.2 with now := d.clock }) := by
  have hclock : ({ d with now := d.clock } : Deliverer ρ).clock = d.clock := clock_at (Nat.le_refl _)
  rw [find, find, hclock]
  dsimp only
  split
  · rfl
  · rcases d.queue.peek with ⟨next, queue⟩
    cases next with
    | none => rfl
    | some head =>
      rcases d.limiter.waitTime head.2 d.clock with ⟨wait, limiter⟩
      dsimp only
      split
      · rfl
      · rcases queue.pop with ⟨taken, queue'⟩
        cases taken <;> rfl

/-- A look at the queue takes no time. -/
theorem find_now (d : Deliverer ρ) : d.find.2.now = d.now := by
  rw [find]
  split
  · rfl
  · rcases d.queue.peek with ⟨next, queue⟩
    cases next with
    | none => rfl
    | some head =>
      rcases d.limiter.waitTime head.2 d.clock with ⟨wait, limiter⟩
      dsimp only
      split
      · rfl
      · rcases queue.pop with ⟨taken, queue'⟩
        cases taken <;> rfl

section

variable [Resource ρ]

/-- A reader that may look for a resource does so. -/
theorem Interleaving.step_find (r : Interleaving ρ) (hfinding : r.finding = none)
    (hreading : r.deliverer.isReading = true) (hasking : r.deliverer.search = .asking) :
    r.step .find = some (.quiet, { r with deliverer := r.deliverer.find.2, finding := some r.deliverer.find.1 }) := by
  simp only [step]
  rw [hfinding, hreading, hasking]

namespace Watched

/-- Taken apart where the reader reads the clock, a look at the queue does what it does as a whole. -/
theorem after_ask (d : Deliverer ρ) (hreading : d.isReading = true) (hasking : d.search = .asking) :
    (ofDeliverer d).after (Event.acts .ask) = ofDeliverer d.ask := by
  have hread : (ofDeliverer d).step .readClock =
      some (.quiet, { inner := { deliverer := d }, reading := some d.clock }) := by
    simp only [step, ofDeliverer]
    rw [hreading, hasking]
  have hinner : (Interleaving.dated { deliverer := d } d.clock).step .find =
      some (.quiet, { deliverer := { d.find.2 with now := d.clock }, finding := some d.find.1 }) := by
    have hlooks := (Interleaving.dated { deliverer := d } d.clock).step_find rfl hreading hasking
    rw [Interleaving.dated, find_dated] at hlooks
    exact hlooks
  have hfind : ({ inner := { deliverer := d }, reading := some d.clock } : Watched ρ).step .find =
      some (.quiet, { inner := { deliverer := d.find.2, finding := some d.find.1 } }) := by
    simp only [step, stepAt]
    rw [hinner]
    simp only [Option.map_some, Interleaving.dated, ← d.find_now]
  have hpursue : ({ inner := { deliverer := d.find.2, finding := some d.find.1 } } : Watched ρ).step (.move .pursue) =
      some (.quiet, ofDeliverer d.ask) := by
    rw [ask_eq]
    rfl
  simp only [after, Event.acts, Schedule.after]
  rw [hread]
  dsimp only
  rw [hfind]
  dsimp only
  rw [hpursue]

/-- So does a measurement. -/
theorem after_measure (d : Deliverer ρ) (hheld : d.hasHandle = true) :
    (ofDeliverer d).after (Event.acts .measure) =
      ofDeliverer { d with limiter := (d.limiter.speed d.clock).2 } := by
  have hread : (ofDeliverer d).step (.readSpeedClock 0) =
      some (.quiet, { inner := { deliverer := d }, measures := [(0, d.clock)] }) := if_pos hheld
  have hclock : ({ d with now := d.clock } : Deliverer ρ).clock = d.clock := clock_at (Nat.le_refl _)
  have hmeasure : ({ inner := { deliverer := d }, measures := [(0, d.clock)] } : Watched ρ).step (.measure 0) =
      some (.speed (d.limiter.speed d.clock).1, ofDeliverer { d with limiter := (d.limiter.speed d.clock).2 }) := by
    have hheld' : ({ d with now := d.clock } : Deliverer ρ).hasHandle = true := hheld
    show (stepAt _ d.clock (.event .measure)).map _ = _
    simp only [stepAt, Interleaving.step, Interleaving.dated, Deliverer.step, hheld', hclock]
    rfl
  simp only [after, Event.acts, Schedule.after]
  rw [hread]
  dsimp only
  rw [hmeasure]

/-- An event, taken apart where it reads the clock, does what it does as a whole. -/
theorem after_acts (d : Deliverer ρ) (event : Event ρ) :
    (ofDeliverer d).after event.acts = ofDeliverer (d.after [event]) := by
  have whole (hfree : (Move.event event).usesClock = false) :
      (ofDeliverer d).after [.move (.event event)] = ofDeliverer (d.after [event]) := by
    have hstep : (ofDeliverer d).step (.move (.event event)) =
        (d.step event).map fun result => (result.1, ofDeliverer result.2) := by
      simp only [step, Interleaving.step, ofDeliverer, hfree, Option.isSome_none, Bool.and_false, Bool.or_false,
        Bool.false_eq_true, if_false, Option.map_map]
      rfl
    rw [after, Schedule.after, hstep, Deliverer.after]
    simp only [Schedule.after]
    cases hd : d.step event with
    | none => rfl
    | some result => rfl
  cases event with
  | ask =>
    by_cases hasks : d.isReading = true ∧ d.search = .asking
    · obtain ⟨hreading, hasking⟩ := hasks
      have hstep : d.step .ask = some (.quiet, d.ask) := by
        simp only [Deliverer.step]
        rw [hreading, hasking]
      rw [after_ask d hreading hasking, Deliverer.after, hstep]
      rfl
    · have hstep : d.step .ask = none := by
        simp only [Deliverer.step]
        split
        · next hreading hasking => exact absurd ⟨hreading, hasking⟩ hasks
        · rfl
      have hread : (ofDeliverer d).step .readClock = none := by
        simp only [step, ofDeliverer]
        split
        · next hreading hasking => exact absurd ⟨hreading, hasking⟩ hasks
        · rfl
      simp only [after, Event.acts, Schedule.after]
      rw [hread, Deliverer.after, hstep]
      rfl
  | measure =>
    by_cases hheld : d.hasHandle = true
    · rw [after_measure d hheld, Deliverer.after, show d.step .measure = _ from if_pos hheld]
      rfl
    · have hread : (ofDeliverer d).step (.readSpeedClock 0) = none := if_neg hheld
      simp only [after, Event.acts, Schedule.after]
      rw [hread, Deliverer.after, show d.step .measure = none from if_neg hheld]
      rfl
  | _ => exact whole rfl

/-- A schedule of whole events is one of those considered. -/
theorem after_events (d : Deliverer ρ) (events : List (Event ρ)) :
    (ofDeliverer d).after (events.flatMap Event.acts) = ofDeliverer (d.after events) := by
  induction events generalizing d with
  | nil => rfl
  | cons event events ih =>
    have hone : d.after (event :: events) = (d.after [event]).after events := by
      rw [Deliverer.after, Deliverer.after]
      cases d.step event with
      | none => rfl
      | some result => rfl
    rw [List.flatMap_cons, after, Schedule.after_append, hone, ← ih]
    exact congrArg (after · _) (after_acts d event)

end Watched

end

end Deliverer

end Sluice
