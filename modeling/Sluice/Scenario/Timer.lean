import Sluice.Scenario.Basic
import Sluice.Worker.Timer

/-!
# Timers in scenarios

The wake-ups of a timer follow a script: each sleeps for a while and then returns what to do next. In
scripts all periods are whole milliseconds.
-/

namespace Sluice.Scenario

/-- What a wake-up does: how long it sleeps, and what it returns. -/
structure WakeUp where
  delay : Nat
  outcome : WakeOutcome
  deriving DecidableEq, Repr

/-- Calls to a timer that may have to wait. -/
inductive TimerCall where
  | reset
  | setPeriod (period : Nat)
  | stop
  deriving DecidableEq, Repr

/-- What such calls return. -/
inductive TimerOutcome where
  | sent (result : Except WorkerError Unit)
  | stopped

/-- A timer in a scenario. -/
structure TimerRun where
  timer : Timer
  script : List WakeUp
  /-- What wake-ups do after the script. -/
  usual : WakeUp
  /-- When the sleep of the wake-up in progress ends. -/
  wakeAt : Nat := 0
  /-- What the wake-up in progress returns. -/
  answer : WakeOutcome := .again
  /-- The instants of the wake-ups, the latest first. -/
  woken : List Nat := []
  /-- Whether the script has dropped its handle. -/
  released : Bool := false
  desk : Desk TimerCall TimerOutcome := {}

namespace TimerRun

/-- Steps that concern a timer. -/
inductive Step where
  | call (call : TimerCall)
  | drop
  deriving DecidableEq, Repr

/-- What can be seen of a timer, the first two only through a handle. -/
structure Observation where
  wakeUps : Option Nat
  running : Option Bool
  gone : Bool
  deriving DecidableEq, Repr

/-- An outcome whose period, if there is one, is given in milliseconds. -/
def ofMillis : WakeOutcome → WakeOutcome
  | .reschedule period => .reschedule (Timer.inNanos period)
  | outcome => outcome

/-- Whether a wake-up is in progress. -/
def inCall (r : TimerRun) : Bool := r.timer.phase == .waking

/-- Sets up the sleep of a new wake-up. -/
def arm (before : Timer) (r : TimerRun) : TimerRun :=
  if before.wakeUps < r.timer.wakeUps then
    let next := r.script.headD r.usual
    { r with
      script := r.script.drop 1
      wakeAt := wakeTime r.timer.now next.delay
      answer := ofMillis next.outcome
      woken := r.timer.now :: r.woken }
  else r

/-- Lets an event happen, if it can. -/
def occur (r : TimerRun) (event : Timer.Event) : Option (Timer.Reply × TimerRun) :=
  (r.timer.step event).map fun (reply, timer) => (reply, arm r.timer { r with timer })

/-- Lets an event happen whose answer does not matter. -/
def proceed (r : TimerRun) (event : Timer.Event) : TimerRun :=
  ((r.occur event).map (·.2)).getD r

/-- Notes the outcome of a call, if it has one. -/
def conclude (call : CallId) : Timer.Reply × TimerRun → TimerRun
  | (.sent result, r) => { r with desk := r.desk.finish call (.sent result) }
  | (.stopped, r) => { r with desk := r.desk.finish call .stopped }
  | (_, r) => r

/-- Runs a step. Without a handle there is nothing to do. A call is taken in with a handle of its
own. -/
def act (step : Step) (r : TimerRun) : Answer Unit × TimerRun :=
  if r.released then (.nothing, r)
  else
    match step with
    | .call call =>
      let (number, desk) := r.desk.start call
      (.started number, ({ r with desk } : TimerRun).proceed .copyHandle)
    | .drop => (.nothing, { r.proceed .dropHandle with released := true })

/-- Begins a call, which then gives its handle back: what is left of it counts as a running call. -/
def begin (number : CallId) (call : TimerCall) (r : TimerRun) : TimerRun :=
  let event := match call with
    | .reset => Timer.Event.reset number
    | .setPeriod period => .setPeriod number (Timer.inNanos period)
    | .stop => .requestStop number
  (((r.occur event).map (conclude number)).getD r).proceed .dropHandle

/-- The task's move at the present instant. A deadline that has come goes before a command. -/
def taskEvent (r : TimerRun) : Timer.Event :=
  if r.inCall then .woken r.answer else if r.timer.isDue then .wake else .takeCommand

/-- Whether a wake-up in progress is still asleep. -/
def isAsleep (r : TimerRun) : Bool := r.inCall && r.timer.now < r.wakeAt

/-- A call that goes on, or else one that begins. -/
def fireCall (r : TimerRun) : Option TimerRun :=
  (r.timer.calls.findSome? fun c => (r.occur (.resume c.1)).map (conclude c.1)) <|>
    r.desk.next?.map fun ((number, call), desk) =>
      ({ r with desk } : TimerRun).begin number call

/-- A move of the task. -/
def fireTask (r : TimerRun) : Option TimerRun :=
  if r.isAsleep then none else (r.occur r.taskEvent).map (·.2)

/-- Gives up a call, whether it has begun or not. -/
def abort (number : CallId) (r : TimerRun) : TimerRun :=
  if r.desk.opening.any (·.1 == number) then
    ({ r with desk := r.desk.abort number } : TimerRun).proceed .dropHandle
  else r.proceed (.cancel number)

/-- What can be seen at present. -/
def observe (r : TimerRun) : Observation where
  wakeUps := if r.released then none else some r.timer.wakeUps
  running := if r.released then none else some r.timer.isRunning
  gone := r.timer.hasEnded

/-- The instants of the wake-ups. -/
def fired (r : TimerRun) : List Nat := r.woken.reverse

/-- The instants at which something falls due: the end of a wake-up, or the deadline. -/
def alarms (r : TimerRun) : List Nat :=
  match r.timer.phase with
  | .waiting deadline => [Timer.firstInstant deadline]
  | .waking => [r.wakeAt]
  | .ended => []

/-- How timers take part in scenarios. -/
def rig : Rig TimerRun Step Unit Observation TimerOutcome where
  act := act
  nextCall r := r.desk.nextCall
  abort := abort
  tasks := [fireCall, fireTask]
  clock r := r.timer.now
  setClock t r := { r with timer := { r.timer with now := t } }
  alarms := alarms
  observe := observe
  collect r :=
    let (finished, desk) := r.desk.collect
    (finished, { r with desk })

end TimerRun

end Sluice.Scenario
