import Sluice.Delivery.Settings
import Sluice.Worker.Processor

/-!
# Deliverers

A `Deliverer` hands resources to the sinks of registered targets, in the order of a fair queue and no
faster than a limiter admits. It is a processor: the reader takes a resource out of the queue as soon
as the limiter admits it, and the handler hands it to the sink that its target was registered with. A
resource whose registration is gone meanwhile is dropped.

A sink is named by the number of its registration. It is visited by one visitor at a time, in the order
in which the visitors came: by the handler with a resource, or by whoever took it out of the register,
to dismiss it. The first visit to a sink that is still going on is `inside`, the others wait.

The reader waits for work, or for the limiter. A wake-up ends both kinds of waiting; one that finds
nobody waiting is kept as a permit, of which there is at most one, and ends the next wait at once.

What the sinks do is left open: the answers of a delivery and of a dismissal are events.
`Deliverer.step` says what each event does. A schedule is any sequence of events, and time passes by
events too, in microseconds.
-/

namespace Sluice

/-- What a sink makes of a resource. -/
inductive DeliveryOutcome where
  | accepted
  /-- The sink is gone and takes nothing any more. -/
  | closed
  deriving DecidableEq, Repr

/-- Counters of a deliverer. -/
structure DelivererStats where
  /-- The targets with a sink that is not dismissed. -/
  targets : Nat
  /-- The resources in the fair queue. -/
  pending : Nat
  deliveredResources : Nat
  deliveredBytes : Nat
  /-- The targets whose sinks were found closed. -/
  closedTargets : Nat
  dropped : Nat
  deriving DecidableEq, Repr

namespace Deliverer

/-- Where a read in progress waits. -/
inductive Search where
  /-- It is about to look for a resource. -/
  | asking
  /-- For a wake-up, since nothing is queued. -/
  | idle
  /-- For an instant from which on the limiter may admit the next resource, or for a wake-up, which has
  come already if `woken`. -/
  | limited (deadline : Nat) (woken : Bool)
  deriving DecidableEq, Repr

/-- Who visits sinks. -/
inductive Visitor where
  | handler
  /-- A call that removes a target. -/
  | remover (call : CallId)
  deriving DecidableEq, Repr

/-- What a visit is for. -/
inductive Errand (ρ : Type) where
  | deliver (delivery : Delivery ρ)
  /-- To tell the sink that it is removed. A remover answers with the backlog afterwards. -/
  | dismiss (backlog : List ρ)
  deriving DecidableEq, Repr

/-- A visit to a sink, under way or waiting for the visits before it. -/
structure Visit (ρ : Type) where
  visitor : Visitor
  sink : Nat
  errand : Errand ρ
  /-- Whether the sink has been called. -/
  inside : Bool := false
  deriving DecidableEq, Repr

end Deliverer

open Deliverer

/-- A fair queue, a limiter and the sinks of the targets, with the processor that works on them. -/
structure Deliverer (ρ : Type) where
  queue : FairQueue ρ
  limiter : Limiter
  processor : Processor (Delivery ρ)
  /-- The registrations whose sinks nobody has set out to dismiss. -/
  sinks : Roster Nat := .empty
  search : Search := .asking
  /-- Whether a wake-up is kept for the next wait. -/
  permit : Bool := false
  /-- The visits to sinks in the order of their arrival. -/
  visits : List (Visit ρ) := []
  /-- The sinks that the handler has still to dismiss at its end. -/
  leaving : List Nat := []
  stopped : Bool := false
  /-- The time since the start, in microseconds. -/
  now : Nat := 0
  deliveredResources : Nat := 0
  deliveredBytes : Nat := 0
  closedTargets : Nat := 0
  dropped : Nat := 0

namespace Deliverer

variable {ρ : Type}

/-- A running deliverer with one handle and no targets. -/
def ofSettings (s : DelivererSettings) : Deliverer ρ where
  queue := .ofSettings s.queue
  limiter := .ofSettings s.limiter
  processor := .ofSettings ⟨s.capacity⟩

/-- A running deliverer with one handle and no targets, for settings that are valid and whose room a
processor accepts. -/
def ofSettings? (s : DelivererSettings) : Except DeliveryError (Deliverer ρ) :=
  match s.validate with
  | .error e => .error e
  | .ok () =>
    match (ProcessorSettings.mk s.capacity).validate with
    | .error fault => .error (.invalidConfig fault.message)
    | .ok () => .ok (ofSettings s)

/-- The counters of the deliverer. -/
def stats (d : Deliverer ρ) : DelivererStats where
  targets := d.sinks.size
  pending := d.queue.pending
  deliveredResources := d.deliveredResources
  deliveredBytes := d.deliveredBytes
  closedTargets := d.closedTargets
  dropped := d.dropped

/-- The length of a target's backlog. -/
def pendingOf (d : Deliverer ρ) (target : TargetId) : Option Nat := d.queue.pendingOf target

/-- Whether anybody has a handle. -/
def hasHandle (d : Deliverer ρ) : Bool := d.processor.handles != 0

/-- Passes an event to the processor, if it can happen. -/
def work (d : Deliverer ρ) (event : Processor.Event (Delivery ρ)) : Option (Deliverer ρ) :=
  (d.processor.step event).map fun (_, processor) => { d with processor }

/-- Passes an event to the processor. -/
def proceed (d : Deliverer ρ) (event : Processor.Event (Delivery ρ)) : Deliverer ρ :=
  (d.work event).getD d

/-! ### The register -/

/-- Takes a target out of the register and the queue, provided that it is still registered under the
number given, if one is. The answer is its sink, unless someone has set out to dismiss that, and its
backlog. -/
def unregister (d : Deliverer ρ) (target : TargetId) (registration : Option Nat) :
    Except DeliveryError ((Option Nat × List ρ) × Deliverer ρ) :=
  match d.queue.registrationOf target with
  | none => .error (.targetNotFound target)
  | some current =>
    if registration.any (· != current) then .error (.targetNotFound target)
    else
      match d.queue.removeTarget target with
      | .error e => .error e
      | .ok (backlog, queue) =>
        .ok ((d.sinks.get? target, backlog), { d with queue, sinks := d.sinks.erase target })

/-- Adds a visit behind the others. -/
def visit (d : Deliverer ρ) (visitor : Visitor) (sink : Nat) (errand : Errand ρ) : Deliverer ρ :=
  { d with visits := d.visits ++ [{ visitor, sink, errand }] }

/-- The visit of a visitor. -/
def visitOf? (d : Deliverer ρ) (visitor : Visitor) : Option (Visit ρ) :=
  d.visits.find? (·.visitor == visitor)

/-- Ends the visit of a visitor. -/
def endVisit (d : Deliverer ρ) (visitor : Visitor) : Deliverer ρ :=
  { d with visits := d.visits.filter (·.visitor != visitor) }

/-- A visitor calls its sink, provided that no other visit to the sink came before. -/
def enter (d : Deliverer ρ) (visitor : Visitor) : Option (Deliverer ρ) :=
  match d.visitOf? visitor with
  | none => none
  | some v =>
    if v.inside || (d.visits.find? (·.sink == v.sink)).any (·.visitor != visitor) then none
    else
      some { d with visits := d.visits.map fun w =>
        if w.visitor = visitor then { w with inside := true } else w }

/-! ### The reader -/

/-- Whether a read is in progress. -/
def isReading (d : Deliverer ρ) : Bool :=
  match d.processor.reader with
  | .reading => true
  | _ => false

/-- Wakes the reader, or keeps the wake-up for its next wait. -/
def wake (d : Deliverer ρ) : Deliverer ρ :=
  match d.isReading, d.search with
  | true, .idle => { d with search := .asking }
  | true, .limited deadline false => { d with search := .limited deadline true }
  | _, _ => { d with permit := true }

/-- Waits, unless there is a permit. -/
def park (d : Deliverer ρ) (search : Search) : Deliverer ρ :=
  if d.permit then { d with permit := false, search := .asking } else { d with search }

/-- What the clock shows: the time since the start, up to the greatest word. -/
def clock (d : Deliverer ρ) : Nat := Word.clip d.now

/-- Looks for a resource: it is taken out of the queue if the limiter admits it, and recorded. -/
def ask (d : Deliverer ρ) : Deliverer ρ :=
  if d.stopped then d.proceed (.readReturns none)
  else
    let (next, queue) := d.queue.peek
    let d := { d with queue }
    match next with
    | none => d.park .idle
    | some (_, size) =>
      let (wait, limiter) := d.limiter.waitTime size d.clock
      let d := { d with limiter }
      if 0 < wait then d.park (.limited (d.now + wait) false)
      else
        let (taken, queue) := d.queue.pop
        let d := { d with queue }
        match taken with
        | none => d.park .idle
        | some delivery =>
          ({ d with limiter := d.limiter.record delivery.size d.clock } : Deliverer ρ).proceed
            (.readReturns (some delivery))

/-! ### The handler -/

/-- The handler is done with a resource. -/
def handled (d : Deliverer ρ) : Deliverer ρ := d.proceed (.handleReturns .continue)

/-- Sets out to the sink that a resource was queued for, or drops the resource if that sink is not
registered any more. -/
def handOver (d : Deliverer ρ) (delivery : Delivery ρ) : Deliverer ρ :=
  if d.sinks.get? delivery.target = some delivery.registration then
    d.visit .handler delivery.registration (.deliver delivery)
  else ({ d with dropped := d.dropped + 1 } : Deliverer ρ).handled

/-- The handler has received a resource, or has come to its end: nothing is accepted any more, and all
sinks are to be dismissed. -/
def afterReceive (d : Deliverer ρ) : Deliverer ρ :=
  match d.processor.handler with
  | .handling delivery => d.handOver delivery
  | .finishing => { d with stopped := true, leaving := d.sinks.values, sinks := .empty }
  | _ => d

/-- A sink has been found closed: its target is unregistered, unless that has been done already, and
the backlog is dropped. -/
def close (d : Deliverer ρ) (delivery : Delivery ρ) : Deliverer ρ :=
  match d.unregister delivery.target (some delivery.registration) with
  | .error _ => d.handled
  | .ok ((sink, backlog), d) =>
    let d := { d with
      closedTargets := d.closedTargets + 1
      dropped := d.dropped + backlog.length }
    match sink with
    | some sink => d.visit .handler sink (.dismiss [])
    | none => d.handled

/-- A sink has answered to a resource. -/
def afterDelivery (d : Deliverer ρ) (delivery : Delivery ρ) : DeliveryOutcome → Deliverer ρ
  | .accepted =>
    ({ d with
      deliveredResources := d.deliveredResources + 1
      deliveredBytes := Word.add d.deliveredBytes delivery.size } : Deliverer ρ).handled
  | .closed => ({ d with dropped := d.dropped + 1 } : Deliverer ρ).close delivery

/-- Whether the handler is at its end. -/
def isClosing (d : Deliverer ρ) : Bool :=
  match d.processor.handler with
  | .finishing => true
  | _ => false

/-! ### Events -/

/-- What can happen to a deliverer. -/
inductive Event (ρ : Type) where
  /-- Registers a target with a sink of its own. -/
  | addTarget (target : TargetId) (priority : Number.Single)
  | setPriority (target : TargetId) (priority : Number.Single)
  | submit (target : TargetId) (resource : ρ)
  | setLimit (limit : Option Nat)
  /-- Measures the speed. -/
  | measure
  /-- A call begins that removes a target and dismisses its sink. -/
  | remove (call : CallId) (target : TargetId)
  /-- A call begins that stops the deliverer and waits for its end. -/
  | stop (call : CallId)
  /-- The first of the calls that wait for the end goes on. -/
  | advanceLine
  /-- A running call is given up. -/
  | cancel (call : CallId)
  | copyHandle
  | dropHandle
  /-- Time passes, in microseconds. -/
  | elapse (span : Nat)
  /-- The reader looks at the control of the processor. -/
  | look
  /-- The read in progress looks for a resource. -/
  | ask
  /-- The wait for the limiter is over. -/
  | limitPasses
  /-- A wake-up ends the wait for the limiter. -/
  | noticeWake
  /-- The read in progress is cancelled, since no handle is left. -/
  | readCancelled
  /-- The reader goes on with the resource that it could not pass on. -/
  | sendResumes
  /-- The reader leaves; it holds nothing back. -/
  | readerLeaves
  | readerFinishes
  /-- The handler receives a resource, or finds that there will be none. -/
  | receive
  /-- A visitor calls the sink that it has been waiting for. -/
  | enter (visitor : Visitor)
  /-- The sink that the handler visits answers to a resource. -/
  | deliverReturns (outcome : DeliveryOutcome)
  /-- The dismissal of a sink is done. -/
  | dismissReturns (visitor : Visitor)
  /-- The handler at its end sets out to dismiss one of the sinks that are left. -/
  | dismissNext (sink : Nat)
  | handlerFinishes
  deriving DecidableEq, Repr

/-- What an event answers to the one who caused it. -/
inductive Reply (ρ : Type) where
  | quiet
  | result (result : Except DeliveryError Unit)
  | speed (speed : Number.Binary)
  /-- A call that removed a target returns. -/
  | removed (call : CallId) (result : Except DeliveryError (List ρ))
  /-- A call that stopped the deliverer returns. -/
  | stopped (call : CallId) (stats : DelivererStats)

/-- The answer to a call that changes the deliverer or fails. -/
def answer (d : Deliverer ρ) : Except DeliveryError (Deliverer ρ) → Reply ρ × Deliverer ρ
  | .ok d => (.result (.ok ()), d)
  | .error e => (.result (.error e), d)

/-- Registers a target with a sink. -/
def addTarget (d : Deliverer ρ) (target : TargetId) (priority : Number.Single) :
    Except DeliveryError (Deliverer ρ) := do
  if d.stopped then throw .shutdown
  let (registration, queue) ← d.queue.addTarget target priority
  return { d with queue, sinks := d.sinks.set target registration }

/-- Queues a resource and wakes the reader. -/
def submit [Resource ρ] (d : Deliverer ρ) (target : TargetId) (resource : ρ) :
    Except DeliveryError (Deliverer ρ) := do
  if d.stopped then throw .shutdown
  let queue ← d.queue.push target resource
  return ({ d with queue } : Deliverer ρ).wake

/-- Begins to remove a target: a call that finds a sink has to dismiss it before it returns. -/
def remove (d : Deliverer ρ) (call : CallId) (target : TargetId) : Reply ρ × Deliverer ρ :=
  match d.unregister target none with
  | .error e => (.removed call (.error e), d)
  | .ok ((none, backlog), d) => (.removed call (.ok backlog), d)
  | .ok ((some sink, backlog), d) =>
    (.quiet, (d.proceed .copyHandle).visit (.remover call) sink (.dismiss backlog))

/-- Marks the deliverer as stopped, and wakes the reader if it was not. -/
def tellStop (d : Deliverer ρ) : Deliverer ρ :=
  if d.stopped then d else ({ d with stopped := true } : Deliverer ρ).wake

/-- The dismissal of a sink is done, and its visitor goes on. -/
def afterDismissal (d : Deliverer ρ) (visitor : Visitor) (backlog : List ρ) : Reply ρ × Deliverer ρ :=
  match visitor with
  | .handler => (.quiet, if d.isClosing then d else d.handled)
  | .remover call => (.removed call (.ok backlog), d.proceed .dropHandle)

/-- What an event does, if it can happen. -/
def step [Resource ρ] (d : Deliverer ρ) : Event ρ → Option (Reply ρ × Deliverer ρ)
  | .addTarget target priority =>
    if d.hasHandle then some (d.answer (d.addTarget target priority)) else none
  | .setPriority target priority =>
    if d.hasHandle then
      some (d.answer ((d.queue.setPriority target priority).map fun queue => { d with queue }))
    else none
  | .submit target resource =>
    if d.hasHandle then some (d.answer (d.submit target resource)) else none
  | .setLimit limit =>
    if d.hasHandle then
      some (d.answer ((d.limiter.setLimit limit).map fun limiter =>
        ({ d with limiter } : Deliverer ρ).wake))
    else none
  | .measure =>
    if d.hasHandle then
      let (speed, limiter) := d.limiter.speed d.clock
      some (.speed speed, { d with limiter })
    else none
  | .remove call target => if d.hasHandle then some (d.remove call target) else none
  | .stop call => if d.hasHandle then (d.tellStop.work (.join call)).map (.quiet, ·) else none
  | .advanceLine =>
    (d.processor.step .advanceLine).map fun (reply, processor) =>
      match reply with
      | .joined call _ => (.stopped call d.stats, { d with processor })
      | .quiet => (.quiet, { d with processor })
  | .cancel call =>
    if (d.visitOf? (.remover call)).isSome then
      some (.quiet, (d.endVisit (.remover call)).proceed .dropHandle)
    else (d.work (.cancel call)).map (.quiet, ·)
  | .copyHandle => (d.work .copyHandle).map (.quiet, ·)
  | .dropHandle => (d.work .dropHandle).map (.quiet, ·)
  | .elapse span => some (.quiet, { d with now := d.now + span })
  | .look => (({ d with search := .asking } : Deliverer ρ).work .look).map (.quiet, ·)
  | .ask =>
    match d.isReading, d.search with
    | true, .asking => some (.quiet, d.ask)
    | _, _ => none
  | .limitPasses =>
    match d.isReading, d.search with
    | true, .limited deadline woken =>
      if deadline ≤ d.now then
        some (.quiet, { d with search := .asking, permit := d.permit || woken })
      else none
    | _, _ => none
  | .noticeWake =>
    match d.isReading, d.search with
    | true, .limited _ true => some (.quiet, { d with search := .asking })
    | _, _ => none
  | .readCancelled => (d.work .readCancelled).map (.quiet, ·)
  | .sendResumes => (d.work .sendResumes).map (.quiet, ·)
  | .readerLeaves => (d.work (.takePending [])).map (.quiet, ·)
  | .readerFinishes => (d.work .readerFinishes).map (.quiet, ·)
  | .receive => (d.work .receive).map fun d => (.quiet, d.afterReceive)
  | .enter visitor => (d.enter visitor).map (.quiet, ·)
  | .deliverReturns outcome =>
    match d.visitOf? .handler with
    | some ⟨_, _, .deliver delivery, true⟩ =>
      some (.quiet, (d.endVisit .handler).afterDelivery delivery outcome)
    | _ => none
  | .dismissReturns visitor =>
    match d.visitOf? visitor with
    | some ⟨_, _, .dismiss backlog, true⟩ =>
      some ((d.endVisit visitor).afterDismissal visitor backlog)
    | _ => none
  | .dismissNext sink =>
    if d.isClosing ∧ (d.visitOf? .handler).isNone ∧ sink ∈ d.leaving then
      some (.quiet,
        ({ d with leaving := d.leaving.erase sink } : Deliverer ρ).visit .handler sink (.dismiss []))
    else none
  | .handlerFinishes =>
    if d.leaving = [] ∧ (d.visitOf? .handler).isNone then
      (d.work .handlerFinishes).map (.quiet, ·)
    else none

/-! ### Schedules -/

/-- The moves of the running calls that need nothing from outside, whether they are possible or not:
those of the calls that wait for the end, and of the removers that wait for a sink. -/
def callMoves (d : Deliverer ρ) : List (Event ρ) :=
  .advanceLine :: (d.visits.filter (·.visitor != .handler)).map fun v => .enter v.visitor

/-- Such moves of the handler. -/
def handlerMoves (d : Deliverer ρ) : List (Event ρ) :=
  [.receive, .enter .handler, .handlerFinishes] ++ d.leaving.map .dismissNext

/-- Such moves of the reader. -/
def readerMoves : List (Event ρ) :=
  [.look, .ask, .noticeWake, .limitPasses, .readCancelled, .sendResumes, .readerLeaves,
    .readerFinishes]

/-- The moves of all tasks that need nothing from outside, whether they are possible or not. -/
def moves (d : Deliverer ρ) : List (Event ρ) := d.callMoves ++ d.handlerMoves ++ readerMoves

/-- Whether no task can go on before something comes from outside: time, a call, or the answer of a
sink. -/
def isSettled [Resource ρ] (d : Deliverer ρ) : Bool :=
  d.moves.all fun event => (d.step event).isNone

end Deliverer

end Sluice
