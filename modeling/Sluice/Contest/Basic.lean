import Sluice.Clockwork
import Sluice.Contest.Options
import Sluice.Delivery.Deliverer
import Sluice.Room

/-!
# Contests

In a `Contest` targets compete for one deliverer. Every target has a sink that takes whatever it is
handed, and counts it. From time to time every backlog is filled up; in the end the speed is measured
and the deliverer is stopped.

`Contest.step` says what each event does, and any sequence of events is a schedule of the refills and
of the deliverer's tasks. `Contest.run` follows one schedule, on a simulated clock.
-/

namespace Sluice

namespace Contest

/-- A resource that is nothing but its size. -/
structure Chunk where
  size : Nat
  deriving DecidableEq, Repr

instance : Resource Chunk := ⟨Chunk.size⟩

end Contest

open Contest

/-- Targets that compete for a deliverer. -/
structure Contest where
  deliverer : Deliverer Chunk
  targets : List TargetId
  chunkSize : Nat
  /-- The backlog that each target is kept at. -/
  backlog : Nat
  /-- What the sinks have counted. -/
  received : Roster Nat := .empty
  /-- The speed at the end. -/
  speed : Option Number.Binary := none
  /-- The counters that stopping the deliverer answered with. -/
  final : Option DelivererStats := none

/-- Why a contest cannot be held. -/
inductive ContestError where
  /-- The deliverer refused its settings, a target or a resource. -/
  | refused (error : DeliveryError)
  /-- There is no room for a resource, or for the window. -/
  | noRoom (shortage : Shortage)
  deriving DecidableEq, Repr

namespace Contest

/-- Registers targets with the numbers from `first` on. -/
def enlist (first : Nat) : List Number.Single → Deliverer Chunk →
    Except DeliveryError (List TargetId × Deliverer Chunk)
  | [], d => .ok ([], d)
  | priority :: rest, d => do
    let d ← d.addTarget ⟨first⟩ priority
    let (targets, d) ← enlist (first + 1) rest d
    return (⟨first⟩ :: targets, d)

/-- Sets up a contest: the settings are checked, the targets are registered with the numbers from one
on, and room for a resource is claimed. -/
def start? (o : Options) (settings : DelivererSettings) : Except ContestError Contest := do
  let d ← (Deliverer.ofSettings? settings).mapError .refused
  let (targets, deliverer) ← (enlist 1 o.priorities d).mapError .refused
  (Room.things o.chunkSize).mapError .noRoom
  return { deliverer, targets, chunkSize := o.chunkSize, backlog := o.backlog }

/-- What the sink of a target has counted. -/
def receivedBy (c : Contest) (target : TargetId) : Nat := (c.received.get? target).getD 0

/-- Submits resources for a target. -/
def submit (target : TargetId) (chunk : Chunk) : Nat → Deliverer Chunk →
    Except DeliveryError (Deliverer Chunk)
  | 0, d => .ok d
  | times + 1, d => do
    let d ← d.submit target chunk
    submit target chunk times d

/-- Fills the backlogs of targets up. -/
def fill (chunk : Chunk) (backlog : Nat) : List TargetId → Deliverer Chunk →
    Except DeliveryError (Deliverer Chunk)
  | [], d => .ok d
  | target :: rest, d => do
    let missing := backlog - (d.pendingOf target).getD backlog
    let d ← submit target chunk missing d
    fill chunk backlog rest d

/-- Fills all backlogs up. -/
def refill (c : Contest) : Except DeliveryError Contest :=
  (fill ⟨c.chunkSize⟩ c.backlog c.targets c.deliverer).map fun deliverer => { c with deliverer }

/-! ### Events -/

/-- What can happen in a contest. -/
inductive Event where
  /-- The backlogs are filled up. -/
  | refill
  /-- The speed is measured and the deliverer is told to stop. -/
  | finish
  /-- A move of one of the deliverer's tasks. -/
  | move (event : Deliverer.Event Chunk)
  /-- The sink that the handler visits takes its resource. -/
  | take
  /-- A sink that is dismissed has nothing to do. -/
  | dismissed
  /-- Time passes, in microseconds. -/
  | elapse (span : Nat)
  deriving DecidableEq, Repr

/-- The number of the one call that a contest makes. -/
def stopCall : CallId := 0

/-- Lets an event happen to the deliverer. -/
def work (c : Contest) (event : Deliverer.Event Chunk) : Option Contest :=
  (c.deliverer.step event).map fun (reply, deliverer) =>
    match reply with
    | .stopped _ stats => { c with deliverer, final := some stats }
    | .speed speed => { c with deliverer, speed := some speed }
    | _ => { c with deliverer }

/-- The delivery that a sink is called with. -/
def offered? (c : Contest) : Option (Delivery Chunk) :=
  match c.deliverer.visitOf? .handler with
  | some ⟨_, _, .deliver delivery, true⟩ => some delivery
  | _ => none

/-- What an event does, if it can happen, or the error of a refill. -/
def step (c : Contest) : Event → Option (Except DeliveryError Contest)
  | .refill => if c.speed.isSome then none else some c.refill
  | .finish =>
    if c.speed.isSome then none
    else ((c.work .measure).bind fun c => c.work (.stop stopCall)).map .ok
  | .move event => if event ∈ c.deliverer.moves then (c.work event).map .ok else none
  | .take =>
    c.offered?.bind fun delivery =>
      (c.work (.deliverReturns .accepted)).map fun c =>
        .ok { c with
          received := c.received.set delivery.target
            (c.receivedBy delivery.target + delivery.resource.size) }
  | .dismissed => (c.work (.dismissReturns .handler)).map .ok
  | .elapse span => (c.work (.elapse span)).map .ok

/-! ### One schedule -/

/-- Lets an event happen that is no refill. -/
def occur (c : Contest) (event : Event) : Option Contest :=
  match c.step event with
  | some (.ok c) => some c
  | _ => none

/-- Sinks answer at once, and tasks move as long as they can. -/
def clockwork : Clockwork Contest where
  tasks := [fun c => (.take :: .dismissed :: c.deliverer.moves.map Event.move).findSome? c.occur]
  clock c := c.deliverer.now
  setClock t c := (c.occur (.elapse (t - c.deliverer.now))).getD c
  alarms c :=
    match c.deliverer.search with
    | .limited deadline _ => [deadline]
    | _ => []

/-- The time between two refills, in microseconds. -/
def interval : Nat := 5000

/-- How often the backlogs are filled up: at the start and after every interval, until the duration,
in milliseconds, is over. -/
def rounds (duration : Nat) : Nat :=
  if duration = 0 then 0 else (duration * 1000 + interval - 1) / interval + 1

/-- Fills the backlogs up a number of times, with an interval between one time and the next. -/
def compete : Nat → Contest → Except DeliveryError Contest
  | 0, c => .ok c
  | 1, c => c.refill
  | count + 1, c => do
    let c ← c.refill
    compete count (clockwork.advanceTo (c.deliverer.now + interval) c)

/-- Runs a contest to its end, in an environment that may set a speed limit. -/
def run (o : Options) (environment : Option String) : Except ContestError Contest := do
  let settings ← (o.settings? environment).mapError .noRoom
  let c ← start? o settings
  let c ← (compete (rounds o.duration) (clockwork.settle c)).mapError .refused
  return clockwork.settle ((c.occur .finish).getD c)

end Contest

end Sluice
