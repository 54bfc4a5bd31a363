import Sluice.Delivery.Error
import Sluice.Fair.Cost
import Sluice.Fifo
import Sluice.Heap
import Sluice.Limits
import Sluice.Roster

/-!
# Weighted fair queues

A `FairQueue` holds a backlog of resources for every registered target and hands them out so that
each busy target gets a share in proportion to its priority. Every target has a virtual time, which
advances by the cost of what it was served, and the busy target with the least virtual time is served
next; of equals the one that became busy first.

Busy targets stand in a heap of slots. A slot is never changed in place: every target knows the
generation of its one live slot, and a slot of another generation is stale and skipped when it comes
to the top. Once stale slots could outnumber the live ones the heap is built anew without them.

A target that becomes busy is lifted to the least virtual time of the busy targets, so an idle time
earns no credit. The cost of a resource is a parameter of serving (`popWith`), and `pop` serves at
the cost of `Fair.cost`.
-/

namespace Sluice

/-- Things that have a size in units. -/
class Resource (ρ : Type) where
  size : ρ → Nat

/-- The size of a byte string is its length. -/
instance : Resource (List UInt8) := ⟨List.length⟩

/-- Bounds of a fair queue. -/
structure FairSettings where
  maxTargets : Nat
  maxBacklog : Nat
  deriving DecidableEq, Repr

namespace FairSettings

/-- The bounds that limits give. -/
def ofLimits (l : Limits) : FairSettings := ⟨l.maxTargets, l.maxResourcesPerTarget⟩

/-- The bounds for ordinary use. -/
def standard : FairSettings := ofLimits .standard

/-- Small bounds. -/
def small : FairSettings := ofLimits .small

/-- Neither bound may be zero; a fault of the number of targets is reported first. -/
def validate (s : FairSettings) : Except DeliveryError Unit :=
  if s.maxTargets = 0 then .error (.invalidConfig "max_targets must be positive")
  else if s.maxBacklog = 0 then
    .error (.invalidConfig "max_resources_per_target must be positive")
  else .ok ()

end FairSettings

/-- A resource chosen for a target, under the registration that it was queued under. -/
structure Delivery (ρ : Type) where
  target : TargetId
  registration : Nat
  resource : ρ
  /-- The size of the resource when it was queued. -/
  size : Nat
  deriving DecidableEq, Repr

namespace Fair

/-- What a queue keeps for one target. -/
structure Entry (ρ : Type) where
  registration : Nat
  priority : Number.Single
  /-- The resources waiting, each with its size when it was queued. -/
  backlog : Fifo (ρ × Nat) := .empty
  virtualTime : Nat := 0
  /-- The place in the order in which targets became busy. -/
  activation : Nat := 0
  /-- The generation of the live slot. -/
  generation : Nat := 0
  delivered : Nat := 0

/-- A place in the heap of busy targets. -/
structure Slot where
  virtualTime : Nat
  activation : Nat
  target : TargetId
  generation : Nat
  deriving DecidableEq, Repr

/-- Slots go by virtual time, then by the order of becoming busy, then by target and generation. -/
def Slot.le (a b : Slot) : Bool :=
  if a.virtualTime ≠ b.virtualTime then a.virtualTime < b.virtualTime
  else if a.activation ≠ b.activation then a.activation < b.activation
  else if a.target.raw ≠ b.target.raw then a.target.raw < b.target.raw
  else a.generation ≤ b.generation

/-- How many slots beyond two for each target the heap may hold before it is built anew. -/
def slack : Nat := 64

/-- Counters of a queue. -/
structure Stats where
  targets : Nat
  activeTargets : Nat
  pending : Nat
  totalEnqueued : Nat
  totalDelivered : Nat
  deliveredBytes : Nat
  deriving DecidableEq, Repr

end Fair

open Fair

/-- A weighted fair queue of resources. -/
structure FairQueue (ρ : Type) where
  settings : FairSettings
  targets : Roster (Entry ρ) := .empty
  heap : Heap Slot := .empty
  nextRegistration : Nat := 1
  nextActivation : Nat := 1
  nextGeneration : Nat := 1
  /-- The virtual time of the slot served last. -/
  floor : Nat := 0
  pending : Nat := 0
  enqueued : Nat := 0
  delivered : Nat := 0
  deliveredBytes : Nat := 0

namespace FairQueue

variable {ρ : Type}

/-- A queue without targets. -/
def ofSettings (settings : FairSettings) : FairQueue ρ := { settings }

/-- Refuses priorities other than finite numbers above zero. -/
def checkPriority (priority : Number.Single) : Except DeliveryError Unit :=
  if priority.isPositive then .ok () else .error (.invalidPriority priority)

/-- Registers a target and answers with the number of the registration, which no other registration
of this queue has. -/
def addTarget (q : FairQueue ρ) (target : TargetId) (priority : Number.Single) :
    Except DeliveryError (Nat × FairQueue ρ) := do
  checkPriority priority
  if q.targets.contains target then throw (.targetExists target)
  if q.settings.maxTargets ≤ q.targets.size then throw (.tooManyTargets q.settings.maxTargets)
  let entry : Entry ρ := { registration := q.nextRegistration, priority }
  return (q.nextRegistration,
    { q with
      targets := q.targets.set target entry
      nextRegistration := q.nextRegistration + 1 })

/-- Takes a target out and answers with its backlog. -/
def removeTarget (q : FairQueue ρ) (target : TargetId) :
    Except DeliveryError (List ρ × FairQueue ρ) :=
  match q.targets.get? target with
  | none => .error (.targetNotFound target)
  | some entry =>
    .ok (entry.backlog.toList.map (·.1),
      { q with
        targets := q.targets.erase target
        pending := q.pending - entry.backlog.size })

/-- Whether a slot is the live one of a busy target. -/
def isLive (q : FairQueue ρ) (slot : Slot) : Bool :=
  match q.targets.get? slot.target with
  | none => false
  | some entry => entry.generation == slot.generation && !entry.backlog.isEmpty

/-- Drops every stale slot. -/
def compact (q : FairQueue ρ) : FairQueue ρ := { q with heap := q.heap.filter Slot.le q.isLive }

/-- Gives a target a new live slot at its virtual time, and drops the stale slots if there are too
many slots. -/
def issue (q : FairQueue ρ) (target : TargetId) : FairQueue ρ :=
  match q.targets.get? target with
  | none => q
  | some entry =>
    let generation := q.nextGeneration
    let slot : Slot := ⟨entry.virtualTime, entry.activation, target, generation⟩
    let issued : FairQueue ρ :=
      { q with
        targets := q.targets.set target { entry with generation }
        heap := q.heap.insert Slot.le slot
        nextGeneration := generation + 1 }
    if 2 * issued.targets.size + slack < issued.heap.size then issued.compact else issued

/-- Changes the priority of a target, for the deliveries to come. -/
def setPriority (q : FairQueue ρ) (target : TargetId) (priority : Number.Single) :
    Except DeliveryError (FairQueue ρ) := do
  checkPriority priority
  match q.targets.get? target with
  | none => throw (.targetNotFound target)
  | some entry =>
    let changed := { q with targets := q.targets.set target { entry with priority } }
    return if entry.backlog.isEmpty then changed else changed.issue target

/-- Drops stale slots from the top of the heap. -/
def settle (q : FairQueue ρ) : FairQueue ρ :=
  { q with heap := q.heap.dropWhile Slot.le fun slot => !q.isLive slot }

/-- The least virtual time of the busy targets, or that of the slot served last if there is none.
The queue is taken as settled. -/
def leastBusy (q : FairQueue ρ) : Nat :=
  match q.heap.least? with
  | some slot => max slot.virtualTime q.floor
  | none => q.floor

/-- Makes a target busy: it is lifted to the least virtual time of the busy targets and takes the
next place in the order of becoming busy. -/
def activate (q : FairQueue ρ) (target : TargetId) (entry : Entry ρ) (least : Nat) : FairQueue ρ :=
  let busy := { entry with
    virtualTime := max entry.virtualTime least
    activation := q.nextActivation }
  ({ q with
    targets := q.targets.set target busy
    nextActivation := q.nextActivation + 1 } : FairQueue ρ).issue target

/-- Queues a resource of a given size for a target. -/
def pushSized (q : FairQueue ρ) (target : TargetId) (resource : ρ) (size : Nat) :
    Except DeliveryError (FairQueue ρ) :=
  match q.targets.get? target with
  | none => .error (.targetNotFound target)
  | some entry =>
    if q.settings.maxBacklog ≤ entry.backlog.size then
      .error (.queueFull target entry.backlog.size q.settings.maxBacklog)
    else
      let filled := { entry with backlog := entry.backlog.push (resource, size) }
      let queued :=
        if entry.backlog.isEmpty then
          let q := q.settle
          q.activate target filled q.leastBusy
        else { q with targets := q.targets.set target filled }
      .ok { queued with pending := queued.pending + 1, enqueued := queued.enqueued + 1 }

/-- Queues a resource for a target. -/
def push [Resource ρ] (q : FairQueue ρ) (target : TargetId) (resource : ρ) :
    Except DeliveryError (FairQueue ρ) :=
  q.pushSized target resource (Resource.size resource)

/-- The target that is served next and the size of what it gets. Stale slots are dropped on the
way. -/
def peek (q : FairQueue ρ) : Option (TargetId × Nat) × FairQueue ρ :=
  let q := q.settle
  let next := do
    let slot ← q.heap.least?
    let entry ← q.targets.get? slot.target
    let (_, size) ← entry.backlog.first?
    return (slot.target, size)
  (next, q)

/-- Serves the next resource, at a cost that the target pays in virtual time. -/
def popWith (cost : Cost) (q : FairQueue ρ) : Option (Delivery ρ) × FairQueue ρ :=
  let q := q.settle
  match q.heap.least? with
  | none => (none, q)
  | some slot =>
    let q := { q with heap := q.heap.dropLeast Slot.le }
    match q.targets.get? slot.target with
    | none => (none, q)
    | some entry =>
      match entry.backlog.pop? with
      | none => (none, q)
      | some ((resource, size), backlog) =>
        let served := { entry with
          backlog
          virtualTime := Word.add slot.virtualTime (cost entry.priority size)
          delivered := Word.add entry.delivered size
          generation := if backlog.isEmpty then 0 else entry.generation }
        let q := { q with
          floor := max q.floor slot.virtualTime
          targets := q.targets.set slot.target served }
        let q := if backlog.isEmpty then q else q.issue slot.target
        (some ⟨slot.target, entry.registration, resource, size⟩,
          { q with
            pending := q.pending - 1
            delivered := q.delivered + 1
            deliveredBytes := Word.add q.deliveredBytes size })

/-- Serves the next resource. -/
def pop (q : FairQueue ρ) : Option (Delivery ρ) × FairQueue ρ := q.popWith Fair.cost

/-! ### Queries -/

/-- The length of a target's backlog. -/
def pendingOf (q : FairQueue ρ) (target : TargetId) : Option Nat :=
  (q.targets.get? target).map (·.backlog.size)

/-- The total size handed out for a target. -/
def deliveredOf (q : FairQueue ρ) (target : TargetId) : Option Nat :=
  (q.targets.get? target).map (·.delivered)

/-- The priority of a target. -/
def priorityOf (q : FairQueue ρ) (target : TargetId) : Option Number.Single :=
  (q.targets.get? target).map (·.priority)

/-- The registration number of a target. -/
def registrationOf (q : FairQueue ρ) (target : TargetId) : Option Nat :=
  (q.targets.get? target).map (·.registration)

/-- Whether a target is registered. -/
def contains (q : FairQueue ρ) (target : TargetId) : Bool := q.targets.contains target

/-- Whether nothing is queued. -/
def isEmpty (q : FairQueue ρ) : Bool := q.pending == 0

/-- The registered targets in ascending order. -/
def targetIds (q : FairQueue ρ) : List TargetId := q.targets.targets

/-- The counters of the queue. -/
def stats (q : FairQueue ρ) : Stats where
  targets := q.targets.size
  activeTargets := (q.targets.values.filter fun entry => !entry.backlog.isEmpty).length
  pending := q.pending
  totalEnqueued := q.enqueued
  totalDelivered := q.delivered
  deliveredBytes := q.deliveredBytes

/-- The queue in diagnostics. -/
def diagnostic (q : FairQueue ρ) : String :=
  Text.openRecord "FairDeliveryQueue"
    [("targets", toString q.targets.size), ("pending", toString q.pending),
      ("floor", toString q.floor)]

end FairQueue

end Sluice
