import Sluice.Scenario.Basic
import Sluice.Worker.Processor

/-!
# Handlers in scenarios

The handler of a scripted processor handles integers: it notes when it got each, sleeps for a while,
and asks to stop at some of them. Its part of a scenario is the same wherever the messages come from;
`Host` names what it needs to know of the worker.
-/

namespace Sluice.Scenario

/-- What a handler does. -/
structure HandlerScript where
  /-- How long it sleeps over a message, where `delays` says nothing. -/
  delay : Nat := 0
  /-- How long it sleeps over the first messages. -/
  delays : List Nat := []
  /-- The messages after which it asks to stop. -/
  stopAt : List Int := []
  /-- How long its closing work sleeps. -/
  finishDelay : Nat := 0
  deriving DecidableEq, Repr

/-- A worker that holds a processor of integers. -/
class Host (β : Type) where
  processor : β → Processor Int
  /-- What an event of the processor does to the worker. -/
  step : β → Processor.Event Int → Option (Processor.Reply × β)

instance : Host (Processor Int) := ⟨id, Processor.step⟩

/-- A worker with its scripted handler. -/
structure HandlerRun (β : Type) where
  host : β
  script : HandlerScript
  clock : Nat := 0
  /-- The messages that the handler got, the latest first, with the instants. -/
  got : List (Nat × Int) := []
  /-- When the sleep of the handler ends. -/
  wakeAt : Nat := 0
  /-- When the closing work of the handler was done. -/
  finishedAt : Option Nat := none

namespace HandlerRun

variable {β : Type} [Host β]

/-- The processor of the worker. -/
def processor (r : HandlerRun β) : Processor Int := Host.processor r.host

/-- How long the handler sleeps over the message that comes after `count` others. -/
def delayOf (s : HandlerScript) (count : Nat) : Nat := s.delays.getD count s.delay

/-- Notes what an event has led the handler to: a message, its closing work, or the end of that. -/
def arm (before : Processor.HandlerPhase Int) (r : HandlerRun β) : HandlerRun β :=
  match before, r.processor.handler with
  | .receiving, .handling m =>
    { r with got := (r.clock, m) :: r.got, wakeAt := wakeTime r.clock (delayOf r.script r.got.length) }
  | .receiving, .finishing | .handling _, .finishing =>
    { r with wakeAt := wakeTime r.clock r.script.finishDelay }
  | .finishing, .ended => { r with finishedAt := some r.clock }
  | _, _ => r

/-- Replaces the worker by what an event has made of it. -/
def become (r : HandlerRun β) (host : β) : HandlerRun β :=
  arm r.processor.handler { r with host }

/-- Lets an event of the processor happen, if it can. -/
def occur (r : HandlerRun β) (event : Processor.Event Int) :
    Option (Processor.Reply × HandlerRun β) :=
  (Host.step r.host event).map fun (reply, host) => (reply, r.become host)

/-- Whether the handler is asleep. -/
def isAsleep (r : HandlerRun β) : Bool :=
  match r.processor.handler with
  | .handling _ | .finishing => r.clock < r.wakeAt
  | _ => false

/-- The event that the handler waits for. -/
def awaited (r : HandlerRun β) : Processor.Event Int :=
  match r.processor.handler with
  | .receiving => .receive
  | .handling m => .handleReturns (if r.script.stopAt.contains m then .stop else .continue)
  | .finishing | .ended => .handlerFinishes

/-- A move of the handler at the present instant, if it has one. -/
def fire (r : HandlerRun β) : Option (HandlerRun β) :=
  if r.isAsleep then none else (r.occur r.awaited).map (·.2)

/-- The instant at which the handler wakes up. -/
def alarms (r : HandlerRun β) : List Nat :=
  match r.processor.handler with
  | .handling _ | .finishing => [r.wakeAt]
  | _ => []

/-- The messages that the handler got, with the instants. -/
def seen (r : HandlerRun β) : List (Nat × Int) := r.got.reverse

end HandlerRun

end Sluice.Scenario
