import Sluice.Worker.Channel
import Sluice.Worker.Error

/-!
# Timers

A `Timer` wakes an action when its deadline has come. The action answers whether to wake it again
after the period, to do so after another period, or to stop. A reset and a new period move the
deadline, counted from the instant at which the task takes the command.

The clock counts whole milliseconds and is part of the timer, since deadlines are compared with it.
Periods are given in nanoseconds, and so are deadlines, which may therefore fall between two instants
of the clock: a deadline has come at the first of them that is not before it. `Timer.step` says what
each event does; time passes (`Event.tick`) only when nothing else can happen at the present instant.
-/

namespace Sluice

/-- What to do after a wake-up. -/
inductive WakeOutcome where
  | again
  /-- Again, after another period from now on, in nanoseconds. -/
  | reschedule (period : Nat)
  | stop
  deriving DecidableEq, Repr

namespace Timer

/-- What a handle can ask of the task. -/
inductive Command where
  | reset
  /-- A new period, in nanoseconds. -/
  | setPeriod (period : Nat)
  /-- A request to stop, with the call that waits for the answer. -/
  | stop (call : CallId)
  deriving DecidableEq, Repr

/-- Where the task waits. -/
inductive Phase where
  /-- For the deadline, in nanoseconds, or a command. -/
  | waiting (deadline : Nat)
  /-- For the action. -/
  | waking
  | ended
  deriving DecidableEq, Repr

/-- What a running call waits for. -/
inductive Waiting where
  /-- For room to send a command that is not answered. -/
  | room
  /-- For room to send a request to stop. -/
  | stopRoom
  /-- For the answer to a request to stop. -/
  | answer
  deriving DecidableEq, Repr

/-- How many commands may wait for the task. -/
def commandCapacity : Nat := 8

/-- Milliseconds in nanoseconds. -/
def inNanos (millis : Nat) : Nat := millis * 1000000

/-- The first instant in milliseconds that is not before one in nanoseconds. -/
def firstInstant (nanos : Nat) : Nat := (nanos + 999999) / 1000000

theorem firstInstant_le_iff {nanos millis : Nat} : firstInstant nanos ≤ millis ↔ nanos ≤ inNanos millis := by
  rw [firstInstant, inNanos]
  omega

end Timer

open Timer

/-- A timer with its clock, its handles and the calls made through them. -/
structure Timer where
  /-- The present instant in milliseconds. -/
  now : Nat := 0
  /-- The period in nanoseconds. -/
  period : Nat
  phase : Phase
  commands : Channel Command := { capacity := commandCapacity }
  wakeUps : Nat := 0
  /-- The running calls. Each has a handle of its own. -/
  calls : List (CallId × Waiting) := []
  /-- The handles apart from those of the running calls. -/
  handles : Nat := 1

namespace Timer

/-- A timer that wakes its action for the first time after a period. -/
def ofNanos (period : Nat) : Timer := { period, phase := .waiting period }

/-- A timer whose period is given in milliseconds. -/
def ofPeriod (millis : Nat) : Timer := ofNanos (inNanos millis)

/-- Whether the task has not ended. -/
def isRunning (t : Timer) : Bool := !t.commands.closed

/-- Whether the task has ended. -/
def hasEnded (t : Timer) : Bool := t.phase == .ended

/-- Whether nobody can send a command any more. -/
def isForsaken (t : Timer) : Bool := t.handles == 0 && t.calls.isEmpty

/-- The end of the task: it accepts no command and forgets those that it did not take. -/
def finish (t : Timer) : Timer := { t with phase := .ended, commands := t.commands.abandon }

/-- Starts the countdown anew. -/
def restart (t : Timer) : Timer := { t with phase := .waiting (inNanos t.now + t.period) }

/-- Whether the request of a call to stop is still under way. -/
def owesAnswer (t : Timer) (call : CallId) : Bool := t.commands.messages.contains (.stop call)

/-- Takes a call that has returned, or was given up, out of the running ones. -/
def endCall (t : Timer) (call : CallId) : Timer :=
  { t with calls := t.calls.filter (·.1 != call) }

/-- Lets a running call wait for something else. -/
def setCall (t : Timer) (call : CallId) (waiting : Waiting) : Timer :=
  { t with calls := t.calls.map fun c => if c.1 = call then (call, waiting) else c }

/-- What can happen to a timer. -/
inductive Event where
  /-- A call begins that starts the countdown anew. -/
  | reset (call : CallId)
  /-- A call begins that changes the period and starts the countdown anew. -/
  | setPeriod (call : CallId) (period : Nat)
  /-- A call begins that stops the timer. -/
  | requestStop (call : CallId)
  /-- A running call goes on. -/
  | resume (call : CallId)
  /-- A running call is given up. -/
  | cancel (call : CallId)
  | copyHandle
  | dropHandle
  /-- The deadline has come. -/
  | wake
  /-- The action returns. -/
  | woken (outcome : WakeOutcome)
  /-- The task takes a command. -/
  | takeCommand
  /-- A millisecond passes. -/
  | tick
  deriving DecidableEq, Repr

/-- What an event answers to the one who caused it. -/
inductive Reply where
  | quiet
  /-- A call that sent a command returns. -/
  | sent (result : Except WorkerError Unit)
  /-- A call that stopped the timer returns. -/
  | stopped

/-- Begins a call that sends a command which is not answered. -/
def beginSend (t : Timer) (call : CallId) (command : Command) : Reply × Timer :=
  match t.commands.send call command with
  | (.accepted, commands) => (.sent (.ok ()), { t with commands })
  | (.full, commands) => (.quiet, { t with commands, calls := t.calls ++ [(call, .room)] })
  | (.closed, _) => (.sent (.error .shutdown), t)

/-- Lets a running call go on. -/
def resumeCall (t : Timer) (call : CallId) : Option (Reply × Timer) :=
  match t.calls.lookup call with
  | none => none
  | some .room =>
    match t.commands.resume call with
    | some (.accepted, commands) => some (.sent (.ok ()), ({ t with commands } : Timer).endCall call)
    | some (_, commands) =>
      some (.sent (.error .shutdown), ({ t with commands } : Timer).endCall call)
    | none => none
  | some .stopRoom =>
    match t.commands.resume call with
    | some (.accepted, commands) =>
      some (.quiet, ({ t with commands } : Timer).setCall call .answer)
    | some (_, commands) => some (.stopped, ({ t with commands } : Timer).endCall call)
    | none => none
  | some .answer => if t.owesAnswer call then none else some (.stopped, t.endCall call)

/-- The task takes a command. -/
def takeCommand (t : Timer) : Option Timer :=
  match t.phase with
  | .waiting _ =>
    match t.commands.receive with
    | some (.reset, commands) => some ({ t with commands } : Timer).restart
    | some (.setPeriod period, commands) => some ({ t with commands, period } : Timer).restart
    | some (.stop _, commands) => some ({ t with commands } : Timer).finish
    | none => if t.isForsaken then some t.finish else none
  | _ => none

/-- Whether the deadline has come. -/
def isDue (t : Timer) : Bool :=
  match t.phase with
  | .waiting deadline => deadline ≤ inNanos t.now
  | _ => false

/-- Whether neither the task nor a call can do anything at the present instant. A wake-up in progress
takes the time that its action takes. -/
def isSettled (t : Timer) : Bool :=
  !t.isDue && t.takeCommand.isNone && t.calls.all fun c => (t.resumeCall c.1).isNone

/-- What an event does, if it can happen. -/
def step (t : Timer) : Event → Option (Reply × Timer)
  | .reset call => if t.handles = 0 then none else some (t.beginSend call .reset)
  | .setPeriod call period =>
    if t.handles = 0 then none else some (t.beginSend call (.setPeriod period))
  | .requestStop call =>
    if t.handles = 0 then none
    else
      match t.commands.send call (.stop call) with
      | (.accepted, commands) =>
        some (.quiet, { t with commands, calls := t.calls ++ [(call, .answer)] })
      | (.full, commands) =>
        some (.quiet, { t with commands, calls := t.calls ++ [(call, .stopRoom)] })
      | (.closed, _) => some (.stopped, t)
  | .resume call => t.resumeCall call
  | .cancel call =>
    some (.quiet, { t.endCall call with commands := t.commands.withdraw call })
  | .copyHandle => if t.handles = 0 then none else some (.quiet, { t with handles := t.handles + 1 })
  | .dropHandle => if t.handles = 0 then none else some (.quiet, { t with handles := t.handles - 1 })
  | .wake =>
    if t.isDue then some (.quiet, { t with phase := .waking, wakeUps := t.wakeUps + 1 }) else none
  | .woken outcome =>
    if t.phase ≠ .waking then none
    else
      match outcome with
      | .again => some (.quiet, t.restart)
      | .reschedule period => some (.quiet, ({ t with period } : Timer).restart)
      | .stop => some (.quiet, t.finish)
  | .takeCommand => t.takeCommand.map fun t => (.quiet, t)
  | .tick => if t.isSettled then some (.quiet, { t with now := t.now + 1 }) else none

end Timer

end Sluice
