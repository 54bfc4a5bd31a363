import Sluice.Clockwork
import Sluice.Worker.Channel

/-!
# Scenarios

A scenario runs a worker through a script of steps on a simulated clock of whole milliseconds that
starts at zero. After each step everything that can happen at the present instant happens.

A `Rig` ties the generic part to one kind of worker. A call that may have to wait gets a number when
its step is run and begins when things settle; the `Desk` keeps these numbers and what the calls came
to. Calls of earlier steps go on before those of later steps begin.
-/

namespace Sluice.Scenario

/-- The longest sleep, in milliseconds: thirty years of 365 days. The runtime cuts a longer one off, even where the
instant of its end could be told: a pause of a million million milliseconds is over after thirty years. -/
def longestSleep : Nat := 30 * 365 * 24 * 60 * 60 * 1000

/-- The instant at which a sleep of some length ends that begins at `now`. -/
def wakeTime (now length : Nat) : Nat := now + min length longestSleep

/-- A step of a script, over the steps `κ` of one kind of worker. -/
inductive Step (κ : Type) where
  /-- Lets time pass, in milliseconds. -/
  | advance (time : Nat)
  /-- Runs steps with nothing else happening in between. -/
  | all (steps : List (Step κ))
  /-- Gives up a call, which goes when things settle if it is still running then. -/
  | abort (call : CallId)
  | act (step : κ)

/-- What a step answers at once. -/
inductive Answer (ρ : Type) where
  | nothing
  /-- A call has started under a number. -/
  | started (call : CallId)
  | value (result : ρ)
  | several (answers : List (Answer ρ))

/-- What is known after a step: the time, the answer, an observation, and the calls that returned
during the step, by number. -/
structure Report (ρ ω δ : Type) where
  time : Nat
  answer : Answer ρ
  observed : ω
  finished : List (CallId × δ)

/-- Calls by number: those that have not begun, and those that have returned. -/
structure Desk (κ δ : Type) where
  nextCall : CallId := 0
  /-- The calls that begin when things settle, first one first. -/
  opening : List (CallId × κ) := []
  /-- The calls that have returned since the last report. -/
  finished : List (CallId × δ) := []

namespace Desk

variable {κ δ : Type}

/-- Takes in a call that begins later. -/
def start (d : Desk κ δ) (call : κ) : CallId × Desk κ δ :=
  (d.nextCall,
    { d with nextCall := d.nextCall + 1, opening := d.opening ++ [(d.nextCall, call)] })

/-- Takes a number for a call that is over at once. -/
def number (d : Desk κ δ) : CallId × Desk κ δ := (d.nextCall, { d with nextCall := d.nextCall + 1 })

/-- The call that begins next. -/
def next? (d : Desk κ δ) : Option ((CallId × κ) × Desk κ δ) :=
  match d.opening with
  | [] => none
  | call :: rest => some (call, { d with opening := rest })

/-- Notes that a call has returned. -/
def finish (d : Desk κ δ) (call : CallId) (value : δ) : Desk κ δ :=
  { d with finished := d.finished ++ [(call, value)] }

/-- Gives up a call that has not begun. -/
def abort (d : Desk κ δ) (call : CallId) : Desk κ δ :=
  { d with opening := d.opening.filter (·.1 != call) }

/-- The calls that have returned since the last report, by number. -/
def collect (d : Desk κ δ) : List (CallId × δ) × Desk κ δ :=
  (d.finished.mergeSort fun a b => a.1 ≤ b.1, { d with finished := [] })

end Desk

/-- How one kind of worker takes part in a scenario. -/
structure Rig (σ κ ρ ω δ : Type) extends Clockwork σ where
  /-- Runs a step of the worker's own. -/
  act : κ → σ → Answer ρ × σ
  /-- The number of the next call. -/
  nextCall : σ → CallId
  /-- Gives up a call. -/
  abort : CallId → σ → σ
  observe : σ → ω
  /-- The calls that have returned since the last report. -/
  collect : σ → List (CallId × δ) × σ

namespace Rig

variable {σ κ ρ ω δ : Type}

/-- Gives up calls. -/
def abortAll (rig : Rig σ κ ρ ω δ) (calls : List CallId) (s : σ) : σ :=
  calls.foldl (fun s call => rig.abort call s) s

mutual

/-- Runs a step without settling after it, with the calls that were given up and have not gone yet. -/
def perform (rig : Rig σ κ ρ ω δ) : Step κ → List CallId × σ → Answer ρ × List CallId × σ
  | .advance time, (leaving, s) =>
    let s := rig.abortAll leaving s
    (.nothing, [], rig.advanceTo (rig.clock s + time) s)
  | .abort call, (leaving, s) =>
    (.nothing, if call < rig.nextCall s then leaving ++ [call] else leaving, s)
  | .act step, (leaving, s) =>
    let (answer, s) := rig.act step s
    (answer, leaving, s)
  | .all steps, s =>
    let (answers, s) := performAll rig steps s
    (.several answers, s)

/-- Runs steps one after the other, without settling. -/
def performAll (rig : Rig σ κ ρ ω δ) : List (Step κ) → List CallId × σ →
    List (Answer ρ) × List CallId × σ
  | [], s => ([], s)
  | step :: steps, s =>
    let (answer, s) := perform rig step s
    let (answers, s) := performAll rig steps s
    (answer :: answers, s)

end

/-- Runs a step and reports what is known when things have settled. -/
def run (rig : Rig σ κ ρ ω δ) (step : Step κ) (s : σ) : Report ρ ω δ × σ :=
  let (answer, leaving, s) := rig.perform step ([], s)
  let (finished, s) := rig.collect (rig.settle (rig.abortAll leaving s))
  (⟨rig.clock s, answer, rig.observe s, finished⟩, s)

/-- Runs steps one after the other. -/
def runAll (rig : Rig σ κ ρ ω δ) : List (Step κ) → σ → List (Report ρ ω δ) × σ
  | [], s => ([], s)
  | step :: steps, s =>
    let (report, s) := rig.run step s
    let (reports, s) := runAll rig steps s
    (report :: reports, s)

/-- Runs a whole script: the observation once things have settled at the start, the reports of the
steps, and the final state. -/
def play (rig : Rig σ κ ρ ω δ) (steps : List (Step κ)) (s : σ) : ω × List (Report ρ ω δ) × σ :=
  let s := rig.settle s
  (rig.observe s, rig.runAll steps s)

end Rig

end Sluice.Scenario
