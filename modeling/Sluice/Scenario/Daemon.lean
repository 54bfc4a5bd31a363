import Sluice.Scenario.Basic
import Sluice.Worker.Daemon

/-!
# Daemons in scenarios

The attempts of a daemon follow a script: each sleeps for a while and then returns whether it has
solved the state.
-/

namespace Sluice.Scenario

/-- What an attempt does: how long it sleeps, and what it returns. -/
structure Attempt where
  delay : Nat
  solved : Bool
  deriving DecidableEq, Repr

/-- Calls to a daemon that may have to wait. -/
inductive DaemonCall where
  | block
  | stop
  deriving DecidableEq, Repr

/-- What such calls return. -/
inductive DaemonOutcome where
  | settled (result : Except WorkerError Unit)
  | stopped

/-- A daemon in a scenario. -/
structure DaemonRun where
  daemon : Daemon
  retryDelay : Nat
  script : List Attempt
  /-- What attempts do after the script. -/
  usual : Attempt
  clock : Nat := 0
  /-- When the sleep in progress ends: that of an attempt, or a pause. -/
  wakeAt : Nat := 0
  /-- What the attempt in progress returns. -/
  answer : Bool := false
  /-- The attempts begun, the latest first, with what they return. -/
  begun : List (Nat × Bool) := []
  /-- Whether the script has dropped its handle. -/
  released : Bool := false
  desk : Desk DaemonCall DaemonOutcome := {}

namespace DaemonRun

/-- Steps that concern a daemon. -/
inductive Step where
  | signal (times : Nat)
  | block
  | stop
  | drop
  deriving DecidableEq, Repr

/-- What can be seen of a daemon, the first two only through a handle. -/
structure Observation where
  rounds : Option Nat
  solving : Option Bool
  inCall : Bool
  gone : Bool
  deriving DecidableEq, Repr

/-- Whether an attempt is in progress. -/
def inCall (r : DaemonRun) : Bool :=
  match r.daemon.phase with
  | .solving _ _ => true
  | _ => false

/-- Whether the daemon pauses between two attempts. -/
def isPausing (r : DaemonRun) : Bool :=
  match r.daemon.phase with
  | .pausing _ => true
  | _ => false

/-- Sets up the sleep that an event has led to: that of a new attempt, or a pause. -/
def arm (before : Daemon) (r : DaemonRun) : DaemonRun :=
  if before.rounds < r.daemon.rounds then
    let next := r.script.headD r.usual
    { r with
      script := r.script.drop 1
      wakeAt := wakeTime r.clock next.delay
      answer := next.solved
      begun := (r.clock, next.solved) :: r.begun }
  else
    match before.phase, r.daemon.phase with
    | .solving _ _, .pausing _ => { r with wakeAt := wakeTime r.clock r.retryDelay }
    | _, _ => r

/-- Lets an event happen, if it can. -/
def occur (r : DaemonRun) (event : Daemon.Event) : Option (Daemon.Reply × DaemonRun) :=
  (r.daemon.step event).map fun (reply, daemon) => (reply, arm r.daemon { r with daemon })

/-- Notes the outcome of a call, if it has one. -/
def conclude (call : CallId) : Daemon.Reply × DaemonRun → DaemonRun
  | (.settled result, r) => { r with desk := r.desk.finish call (.settled result) }
  | (.stopped, r) => { r with desk := r.desk.finish call .stopped }
  | (_, r) => r

/-- Signals a number of times, with the last result. -/
def signal : Nat → Option (Except WorkerError Unit) → DaemonRun →
    Option (Except WorkerError Unit) × DaemonRun
  | 0, last, r => (last, r)
  | times + 1, last, r =>
    match r.occur .signal with
    | some (.signalled result, r) => signal times (some result) r
    | _ => (last, r)

/-- Lets an event happen whose answer does not matter. -/
def proceed (r : DaemonRun) (event : Daemon.Event) : DaemonRun :=
  ((r.occur event).map (·.2)).getD r

/-- Takes in a call, with a handle of its own. -/
def start (call : DaemonCall) (r : DaemonRun) : CallId × DaemonRun :=
  let (number, desk) := r.desk.start call
  (number, ({ r with desk } : DaemonRun).proceed .copyHandle)

/-- Runs a step. Without a handle there is nothing to do. -/
def act (step : Step) (r : DaemonRun) : Answer (Except WorkerError Unit) × DaemonRun :=
  if r.released then (.nothing, r)
  else
    match step with
    | .signal times =>
      match signal times none r with
      | (some result, r) => (.value result, r)
      | (none, r) => (.nothing, r)
    | .block =>
      let (number, r) := r.start .block
      (.started number, r)
    | .stop =>
      let (number, r) := r.start .stop
      (.started number, r)
    | .drop => (.nothing, { r.proceed .dropHandle with released := true })

/-- Begins a call, which then gives its handle back: what is left of it counts as a running call. -/
def begin (number : CallId) (call : DaemonCall) (r : DaemonRun) : DaemonRun :=
  let event := match call with
    | .block => Daemon.Event.awaitSolved number
    | .stop => .requestStop number
  (((r.occur event).map (conclude number)).getD r).proceed .dropHandle

/-- A call that goes on, or else one that begins. -/
def fireCall (r : DaemonRun) : Option DaemonRun :=
  (r.daemon.calls.findSome? fun c => (r.occur (.resume c.1)).map (conclude c.1)) <|>
    r.desk.next?.map fun ((number, call), desk) =>
      ({ r with desk } : DaemonRun).begin number call

/-- A move of the task at the present instant, if it has one. At the end of a pause a command that has
come goes first. -/
def fireTask (r : DaemonRun) : Option DaemonRun :=
  let move (event : Daemon.Event) : Option DaemonRun := (r.occur event).map (·.2)
  let isAsleep := r.clock < r.wakeAt
  match r.daemon.phase with
  | .solving _ _ => if isAsleep then none else move (.attemptReturns r.answer)
  | .pausing _ => (move .pauseInterrupted).or (if isAsleep then none else move .pauseEnds)
  | .idle | .ended => move .takeCommand

/-- Gives up a call, whether it has begun or not. -/
def abort (number : CallId) (r : DaemonRun) : DaemonRun :=
  if r.desk.opening.any (·.1 == number) then
    ({ r with desk := r.desk.abort number } : DaemonRun).proceed .dropHandle
  else r.proceed (.cancel number)

/-- What can be seen at present. -/
def observe (r : DaemonRun) : Observation where
  rounds := if r.released then none else some r.daemon.rounds
  solving := if r.released then none else some r.daemon.isSolving
  inCall := r.inCall
  gone := r.daemon.hasEnded

/-- The instants at which the attempts began, with what they returned. -/
def attempts (r : DaemonRun) : List (Nat × Bool) := r.begun.reverse

/-- How daemons take part in scenarios. -/
def rig : Rig DaemonRun Step (Except WorkerError Unit) Observation DaemonOutcome where
  act := act
  nextCall r := r.desk.nextCall
  abort := abort
  tasks := [fireCall, fireTask]
  clock r := r.clock
  setClock t r := { r with clock := t }
  alarms r := if r.inCall || r.isPausing then [r.wakeAt] else []
  observe := observe
  collect r :=
    let (finished, desk) := r.desk.collect
    (finished, { r with desk })

end DaemonRun

end Sluice.Scenario
