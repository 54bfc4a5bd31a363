import Sluice.Delivery.Deliverer
import Sluice.Scenario.Basic

/-!
# Deliverers in scenarios

The sinks of a scenario follow scripts: each sleeps over a resource for a while, finds itself closed
from some delivery on, and sleeps again when it is dismissed. Resources are parcels, which carry
nothing but a number and a size.
-/

namespace Sluice.Scenario

/-- A resource of any size, with the number of the attempt to queue it. -/
structure Parcel where
  tag : Nat
  size : Nat
  deriving DecidableEq, Repr

instance : Resource Parcel := ⟨Parcel.size⟩

/-- What a sink does. -/
structure SinkScript where
  /-- How long it sleeps over a resource. -/
  delay : Nat := 0
  /-- The delivery, counted from one, from which on it is closed. -/
  closeAt : Option Nat := none
  /-- How long it sleeps when it is dismissed. -/
  removeDelay : Nat := 0
  /-- Whether it does nothing when it is dismissed. -/
  plain : Bool := false
  deriving DecidableEq, Repr

/-- A sink of a scenario. -/
structure ScriptedSink where
  /-- The number of the attempt to add it. -/
  number : Nat
  target : TargetId
  script : SinkScript
  /-- How often it was called with a resource. -/
  deliveries : Nat := 0
  deriving DecidableEq, Repr

/-- A call of a sink with a resource. -/
structure SinkDelivery where
  time : Nat
  target : TargetId
  sink : Nat
  parcel : Parcel
  /-- Whether the sink answers that it is closed. -/
  closed : Bool
  deriving DecidableEq, Repr

/-- A call of a sink in progress. -/
structure SinkCall where
  visitor : Deliverer.Visitor
  /-- When its sleep ends. -/
  wakeAt : Nat
  /-- What it answers to a resource, if it is called with one. -/
  outcome : Option DeliveryOutcome
  /-- What is noted at the end of a dismissal. -/
  note : Option (TargetId × Nat)
  deriving DecidableEq, Repr

/-- Calls to a deliverer that may have to wait. -/
inductive DelivererCall where
  | remove (target : TargetId)
  | stop
  deriving DecidableEq, Repr

/-- What such calls return. -/
inductive DelivererOutcome where
  | removed (result : Except DeliveryError (List Parcel))
  | stopped (stats : DelivererStats)

/-- A deliverer in a scenario. -/
structure DelivererRun where
  deliverer : Deliverer Parcel
  /-- The attempts to add a target. -/
  additions : Nat := 0
  /-- The attempts to submit a resource. -/
  submissions : Nat := 0
  /-- The sinks by the numbers of their registrations. -/
  sinks : List (Nat × ScriptedSink) := []
  /-- The calls of sinks in progress. -/
  calls : List SinkCall := []
  /-- The calls of sinks with resources, the latest first. -/
  handedOver : List SinkDelivery := []
  /-- The sinks dismissed, with their targets. -/
  dismissed : List (TargetId × Nat) := []
  desk : Desk DelivererCall DelivererOutcome := {}

namespace DelivererRun

/-- Steps that concern a deliverer. -/
inductive Step where
  | add (target : TargetId) (priority : Number.Single) (script : SinkScript)
  | setPriority (target : TargetId) (priority : Number.Single)
  /-- Submits resources of one size until one is refused. -/
  | submit (target : TargetId) (size times : Nat)
  | setLimit (limit : Option Nat)
  | limit
  | speed
  | pending (target : TargetId)
  | call (call : DelivererCall)
  deriving DecidableEq, Repr

/-- What such steps answer. -/
inductive Result where
  | result (result : Except DeliveryError Unit)
  | number (number : Option Nat)
  | speed (speed : Number.Binary)

/-- What can be seen of a deliverer. -/
structure Observation where
  stats : DelivererStats
  stopped : Bool
  deriving DecidableEq, Repr

/-- The present instant in milliseconds. -/
def clock (r : DelivererRun) : Nat := r.deliverer.now / 1000

/-- Lets an event happen, if it can. -/
def occur (r : DelivererRun) (event : Deliverer.Event Parcel) :
    Option (Deliverer.Reply Parcel × DelivererRun) :=
  (r.deliverer.step event).map fun (reply, deliverer) => (reply, { r with deliverer })

/-- Lets an event happen whose answer does not matter. -/
def proceed (r : DelivererRun) (event : Deliverer.Event Parcel) : DelivererRun :=
  ((r.occur event).map (·.2)).getD r

/-- Lets an event happen that answers with a result. -/
def resultOf (r : DelivererRun) (event : Deliverer.Event Parcel) :
    Except DeliveryError Unit × DelivererRun :=
  match r.occur event with
  | some (.result result, r) => (result, r)
  | _ => (.ok (), r)

/-- Notes the outcome of a call, if it has one. -/
def conclude : Deliverer.Reply Parcel × DelivererRun → DelivererRun
  | (.removed call result, r) => { r with desk := r.desk.finish call (.removed result) }
  | (.stopped call stats, r) => { r with desk := r.desk.finish call (.stopped stats) }
  | (_, r) => r

/-- Tries to add a target with a sink. -/
def add (r : DelivererRun) (target : TargetId) (priority : Number.Single) (script : SinkScript) :
    Except DeliveryError Unit × DelivererRun :=
  let number := r.additions + 1
  let (result, r) := ({ r with additions := number } : DelivererRun).resultOf
    (.addTarget target priority)
  match result, r.deliverer.queue.registrationOf target with
  | .ok (), some registration =>
    (result, { r with sinks := (registration, { number, target, script }) :: r.sinks })
  | _, _ => (result, r)

/-- Submits resources of one size until one is refused, with the last result. -/
def submit (target : TargetId) (size : Nat) : Nat → DelivererRun →
    Except DeliveryError Unit × DelivererRun
  | 0, r => (.ok (), r)
  | times + 1, r =>
    let tag := r.submissions + 1
    match ({ r with submissions := tag } : DelivererRun).resultOf (.submit target ⟨tag, size⟩) with
    | (.ok (), r) => submit target size times r
    | refused => refused

/-- Runs a step. -/
def act (step : Step) (r : DelivererRun) : Answer Result × DelivererRun :=
  let answer (answered : Except DeliveryError Unit × DelivererRun) : Answer Result × DelivererRun :=
    (.value (.result answered.1), answered.2)
  match step with
  | .add target priority script => answer (r.add target priority script)
  | .setPriority target priority => answer (r.resultOf (.setPriority target priority))
  | .submit target size times => answer (submit target size times r)
  | .setLimit limit => answer (r.resultOf (.setLimit limit))
  | .limit => (.value (.number r.deliverer.limiter.limit), r)
  | .speed =>
    match r.occur .measure with
    | some (.speed speed, r) => (.value (.speed speed), r)
    | _ => (.nothing, r)
  | .pending target => (.value (.number (r.deliverer.pendingOf target)), r)
  | .call call =>
    let (number, desk) := r.desk.start call
    (.started number, { r with desk })

/-- Begins a call. -/
def begin (number : CallId) (call : DelivererCall) (r : DelivererRun) : DelivererRun :=
  let event := match call with
    | .remove target => Deliverer.Event.remove number target
    | .stop => .stop number
  ((r.occur event).map conclude).getD r

/-- A sink is called on a visit: what it will answer, and when, is settled now. -/
def arm (v : Deliverer.Visit Parcel) (r : DelivererRun) : DelivererRun :=
  match r.sinks.lookup v.sink with
  | none => r
  | some sink =>
    match v.errand with
    | .deliver delivery =>
      let deliveries := sink.deliveries + 1
      let closed := sink.script.closeAt.any (· ≤ deliveries)
      { r with
        sinks := (v.sink, { sink with deliveries }) :: r.sinks.filter (·.1 != v.sink)
        calls := ⟨v.visitor, wakeTime r.clock sink.script.delay,
          some (if closed then .closed else .accepted), none⟩ :: r.calls
        handedOver := ⟨r.clock, sink.target, sink.number, delivery.resource, closed⟩ :: r.handedOver }
    | .dismiss _ =>
      let call : SinkCall :=
        if sink.script.plain then ⟨v.visitor, r.clock, none, none⟩
        else ⟨v.visitor, wakeTime r.clock sink.script.removeDelay, none,
          some (sink.target, sink.number)⟩
      { r with calls := call :: r.calls }

/-- Lets a move happen, if it can. A visitor that calls its sink sets the sink up. -/
def move (r : DelivererRun) (event : Deliverer.Event Parcel) : Option DelivererRun :=
  (r.occur event).map fun answered =>
    let r := conclude answered
    match event with
    | .enter visitor => (r.deliverer.visitOf? visitor).elim r (arm · r)
    | _ => r

/-- A call of a sink that returns to one of some visitors, if one can. -/
def fireReturn (r : DelivererRun) (visitors : Deliverer.Visitor → Bool) : Option DelivererRun :=
  (r.calls.find? fun call => visitors call.visitor && call.wakeAt ≤ r.clock).bind fun call =>
    let rest := { r with
      calls := r.calls.filter (·.visitor != call.visitor)
      dismissed := call.note.toList ++ r.dismissed }
    let event := match call.outcome with
      | some outcome => Deliverer.Event.deliverReturns outcome
      | none => .dismissReturns call.visitor
    (rest.occur event).map conclude

/-- A call that goes on, or else one that begins. -/
def fireCall (r : DelivererRun) : Option DelivererRun :=
  r.fireReturn (· != .handler) <|> r.deliverer.callMoves.findSome? r.move <|>
    r.desk.next?.map fun ((number, call), desk) =>
      ({ r with desk } : DelivererRun).begin number call

/-- A move of the handler at the present instant, if it has one. -/
def fireHandler (r : DelivererRun) : Option DelivererRun :=
  (r.fireReturn (· == .handler)).or (r.deliverer.handlerMoves.findSome? r.move)

/-- A move of the reader at the present instant, if it has one. -/
def fireReader (r : DelivererRun) : Option DelivererRun := Deliverer.readerMoves.findSome? r.move

/-- Gives up a call, whether it has begun or not. -/
def abort (number : CallId) (r : DelivererRun) : DelivererRun :=
  let rest := { r with
    desk := r.desk.abort number
    calls := r.calls.filter (·.visitor != Deliverer.Visitor.remover number) }
  rest.proceed (.cancel number)

/-- The instants at which a sleep of a sink or of the reader ends. -/
def alarms (r : DelivererRun) : List Nat :=
  let sinks := r.calls.map (·.wakeAt)
  match r.deliverer.search with
  | .limited deadline _ => (deadline + 999) / 1000 :: sinks
  | _ => sinks

/-- The calls of sinks with resources, in their order. -/
def deliveries (r : DelivererRun) : List SinkDelivery := r.handedOver.reverse

/-- The dismissals that were completed, by target and sink. -/
def dismissals (r : DelivererRun) : List (TargetId × Nat) :=
  r.dismissed.mergeSort fun a b => a.1.raw < b.1.raw || a.1.raw == b.1.raw && a.2 ≤ b.2

/-- How deliverers take part in scenarios. -/
def rig : Rig DelivererRun Step Result Observation DelivererOutcome where
  act := act
  nextCall r := r.desk.nextCall
  abort := abort
  tasks := [fireCall, fireHandler, fireReader]
  clock := clock
  setClock t r := r.proceed (.elapse (1000 * t - r.deliverer.now))
  alarms := alarms
  observe r := ⟨r.deliverer.stats, r.deliverer.stopped⟩
  collect r :=
    let (finished, desk) := r.desk.collect
    (finished, { r with desk })

end DelivererRun

end Sluice.Scenario
