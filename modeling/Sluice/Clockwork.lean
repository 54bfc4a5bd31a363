/-!
# Simulated time

A `Clockwork` runs a state on a simulated clock. The state is moved by tasks that share it. A task whose
turn it is moves until it has to wait, and nothing else happens meanwhile; then it is the turn of another
one that can move.

Nothing takes time but sleeping: the tasks take turns at the present instant until all of them wait
(`Clockwork.settle`), and only then the clock moves, to the next instant at which a sleep ends or as far
as it is asked to go (`Clockwork.advanceTo`).
-/

namespace Sluice

/-- How a state moves in time. -/
structure Clockwork (σ : Type) where
  /-- The tasks. Each is the next move that it can make at the present instant, if it has one. -/
  tasks : List (σ → Option σ)
  clock : σ → Nat
  setClock : Nat → σ → σ
  /-- The instants at which sleeps in progress end. -/
  alarms : σ → List Nat

namespace Clockwork

variable {σ : Type}

/-- A bound on the moves of a turn, on the turns at one instant, and on the instants that an advance
goes through. It is far beyond what a run comes to. -/
def patience : Nat := 100000000

/-- Repeats a move for as long as it is possible, at most `fuel` times. -/
def exhaust (move : σ → Option σ) : Nat → σ → σ
  | 0, s => s
  | fuel + 1, s =>
    match move s with
    | none => s
    | some s => exhaust move fuel s

/-- The turn of the first task that can move, if there is one. -/
def turn? (w : Clockwork σ) (s : σ) : Option σ :=
  w.tasks.findSome? fun task => (task s).map (exhaust task patience)

/-- Lets the tasks take turns at the present instant until all of them wait. -/
def settle (w : Clockwork σ) (s : σ) : σ := exhaust w.turn? patience s

/-- The next instant after the present one, and not after `limit`, at which a sleep ends. -/
def nextAlarm (w : Clockwork σ) (limit : Nat) (s : σ) : Option Nat :=
  ((w.alarms s).filter fun t => w.clock s < t && t ≤ limit).min?

/-- Lets time pass up to an instant, through at most `fuel` instants before it. -/
def advanceWithin (w : Clockwork σ) (limit : Nat) : Nat → σ → σ
  | 0, s => s
  | fuel + 1, s =>
    let s := w.settle s
    match w.nextAlarm limit s with
    | some t => advanceWithin w limit fuel (w.setClock t s)
    | none => w.settle (w.setClock limit s)

/-- Lets time pass up to an instant. -/
def advanceTo (w : Clockwork σ) (limit : Nat) (s : σ) : σ := w.advanceWithin limit patience s

end Clockwork

end Sluice
