import Sluice.Worker.Channel
import Sluice.Worker.Error

/-!
# Daemons

A `Daemon` runs an action again and again until the state that it looks after is solved. Signals that
the state has changed are counted; an attempt covers the signals counted when its round began, and a
successful attempt publishes that count. Signals that pile up meanwhile lead to one further round.
An attempt that did not solve the state is followed by another one after a pause, or at once after a
further signal.

`Daemon.step` says what each event does. An event is a call through a handle, a move of the daemon's
task, or a call that goes on. The task moves from one point where it may wait to the next.
-/

namespace Sluice

namespace Daemon

/-- What a handle can ask of the task. -/
inductive Command where
  | stateChange
  /-- A request to stop, with the call that waits for the answer. -/
  | stop (call : CallId)
  deriving DecidableEq, Repr

/-- Where the task waits. -/
inductive Phase where
  /-- For a command. -/
  | idle
  /-- For an attempt that covers the signals up to `target`, after which to stop for a call. -/
  | solving (target : Nat) (stopping : Option CallId)
  /-- For the end of the pause or a command. -/
  | pausing (target : Nat)
  | ended
  deriving DecidableEq, Repr

/-- What a running call waits for. -/
inductive Waiting where
  /-- For the signals up to `target` to be solved. -/
  | solved (target : Nat)
  /-- For room to send a request to stop. -/
  | room
  /-- For the answer to a request to stop. -/
  | answer
  deriving DecidableEq, Repr

end Daemon

open Daemon

/-- A daemon with its handles and the calls made through them. -/
structure Daemon where
  commands : Channel Command
  /-- The signals counted. -/
  requested : Nat := 0
  /-- The count that the last successful attempt has published. -/
  solvedThrough : Nat := 0
  /-- The attempts begun. -/
  rounds : Nat := 0
  phase : Phase := .idle
  /-- The running calls. Each has a handle of its own. -/
  calls : List (CallId × Waiting) := []
  /-- The handles apart from those of the running calls. -/
  handles : Nat := 1

namespace Daemon

/-- An idle daemon with one handle. -/
def ofSettings (s : DaemonSettings) : Daemon := { commands := { capacity := s.capacity } }

/-- An idle daemon with one handle, for settings that are valid. A permit is claimed for each command
that may wait. -/
def ofSettings? (s : DaemonSettings) : Except WorkerError Daemon := do
  s.validate.mapError .invalidConfig
  (Room.permits s.capacity).mapError .noRoom
  return ofSettings s

/-- Whether a signal is not solved yet. -/
def isSolving (d : Daemon) : Bool := d.solvedThrough < d.requested

/-- Whether the task has ended. -/
def hasEnded (d : Daemon) : Bool := d.phase == .ended

/-- Whether nobody can send a command any more. -/
def isForsaken (d : Daemon) : Bool := d.handles == 0 && d.calls.isEmpty

/-- The end of the task: it accepts no command and forgets those that it did not take. -/
def finish (d : Daemon) : Daemon := { d with phase := .ended, commands := d.commands.abandon }

/-- The call of the last request to stop among some commands. -/
def lastStop (commands : List Command) : Option CallId :=
  commands.foldl (fun found c => match c with
    | .stop call => some call
    | .stateChange => found) none

/-- Begins an attempt. -/
def attempt (d : Daemon) (target : Nat) (stopping : Option CallId) : Daemon :=
  { d with phase := .solving target stopping, rounds := d.rounds + 1 }

/-- Begins a round: the commands that are queued are covered by it. -/
def beginRound (d : Daemon) : Daemon :=
  let (queued, commands) := d.commands.drain
  ({ d with commands } : Daemon).attempt d.requested (lastStop queued)

/-- Whether the answer to the request of a call can still be given: the request is under way, or it
is the one that the task will answer at its end. -/
def owesAnswer (d : Daemon) (call : CallId) : Bool :=
  d.commands.messages.contains (.stop call) ||
    match d.phase with
    | .solving _ stopping => stopping == some call
    | _ => false

/-- Takes a call that has returned, or was given up, out of the running ones. -/
def endCall (d : Daemon) (call : CallId) : Daemon :=
  { d with calls := d.calls.filter (·.1 != call) }

/-- Lets a running call wait for something else. -/
def setCall (d : Daemon) (call : CallId) (waiting : Waiting) : Daemon :=
  { d with calls := d.calls.map fun c => if c.1 = call then (call, waiting) else c }

/-- What can happen to a daemon. -/
inductive Event where
  /-- A signal that the state has changed. -/
  | signal
  /-- A call begins that waits until the signals so far are solved. -/
  | awaitSolved (call : CallId)
  /-- A call begins that stops the daemon. -/
  | requestStop (call : CallId)
  /-- A running call goes on. -/
  | resume (call : CallId)
  /-- A running call is given up. -/
  | cancel (call : CallId)
  | copyHandle
  | dropHandle
  /-- The idle task takes a command. -/
  | takeCommand
  /-- The attempt returns whether it has solved the state. -/
  | attemptReturns (solved : Bool)
  /-- The pause is over. -/
  | pauseEnds
  /-- A command ends the pause. -/
  | pauseInterrupted
  deriving DecidableEq, Repr

/-- What an event answers to the one who caused it. -/
inductive Reply where
  | quiet
  | signalled (result : Except WorkerError Unit)
  /-- A call that waited for the state to be solved returns. -/
  | settled (result : Except WorkerError Unit)
  /-- A call that stopped the daemon returns. -/
  | stopped

/-- What an event does, if it can happen. -/
def step (d : Daemon) : Event → Option (Reply × Daemon)
  | .signal =>
    if d.handles = 0 then none
    else
      let counted := { d with requested := d.requested + 1 }
      match d.commands.offer .stateChange with
      | (.closed, _) => some (.signalled (.error .shutdown), counted)
      | (_, commands) => some (.signalled (.ok ()), { counted with commands })
  | .awaitSolved call =>
    if d.handles = 0 then none
    else some (.quiet, { d with calls := d.calls ++ [(call, .solved d.requested)] })
  | .requestStop call =>
    if d.handles = 0 then none
    else
      match d.commands.send call (.stop call) with
      | (.full, commands) =>
        some (.quiet, { d with commands, calls := d.calls ++ [(call, .room)] })
      | (.accepted, commands) =>
        some (.quiet, { d with commands, calls := d.calls ++ [(call, .answer)] })
      | (.closed, _) => some (.stopped, d)
  | .resume call =>
    match d.calls.lookup call with
    | none => none
    | some (.solved target) =>
      if target ≤ d.solvedThrough then some (.settled (.ok ()), d.endCall call)
      else if d.hasEnded then some (.settled (.error .shutdown), d.endCall call)
      else none
    | some .room =>
      match d.commands.resume call with
      | some (.accepted, commands) =>
        some (.quiet, ({ d with commands } : Daemon).setCall call .answer)
      | some (_, commands) => some (.stopped, ({ d with commands } : Daemon).endCall call)
      | none => none
    | some .answer => if d.owesAnswer call then none else some (.stopped, d.endCall call)
  | .cancel call =>
    some (.quiet, { d.endCall call with commands := d.commands.withdraw call })
  | .copyHandle => if d.handles = 0 then none else some (.quiet, { d with handles := d.handles + 1 })
  | .dropHandle => if d.handles = 0 then none else some (.quiet, { d with handles := d.handles - 1 })
  | .takeCommand =>
    if d.phase ≠ .idle then none
    else
      match d.commands.receive with
      | some (.stateChange, commands) => some (.quiet, ({ d with commands } : Daemon).beginRound)
      | some (.stop _, commands) => some (.quiet, ({ d with commands } : Daemon).finish)
      | none => if d.isForsaken then some (.quiet, d.finish) else none
  | .attemptReturns solved =>
    match d.phase with
    | .solving target stopping =>
      let told := if solved then { d with solvedThrough := max d.solvedThrough target } else d
      match stopping with
      | some _ => some (.quiet, told.finish)
      | none =>
        some (.quiet, { told with phase := if solved then .idle else .pausing target })
    | _ => none
  | .pauseEnds =>
    match d.phase with
    | .pausing target => some (.quiet, d.attempt target none)
    | _ => none
  | .pauseInterrupted =>
    match d.phase with
    | .pausing _ =>
      match d.commands.receive with
      | some (.stateChange, commands) =>
        some (.quiet, ({ d with commands } : Daemon).attempt d.requested none)
      | some (.stop _, commands) => some (.quiet, ({ d with commands } : Daemon).finish)
      | none => if d.isForsaken then some (.quiet, d.finish) else none
    | _ => none

end Daemon

end Sluice
