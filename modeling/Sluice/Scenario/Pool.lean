import Sluice.Scenario.Basic
import Sluice.Worker.Pool

/-!
# Pools in scenarios

The factory numbers the objects that it builds by its calls, and fails at the calls that the script
names. An object carries a value that its holder may change.
-/

namespace Sluice.Scenario

/-- An object of a scenario: the number of the factory's call, and a value. -/
structure Item where
  serial : Nat
  value : Nat := 0
  deriving DecidableEq, Repr

/-- A holder of an object in diagnostics. -/
def Item.heldDiagnostic (i : Item) : String :=
  Text.applied "Pooled" (Text.applied "Some"
    ("obj" ++ toString i.serial ++ "=" ++ toString i.value))

/-- A factory that fails at some of its calls. -/
def itemFactory (failAt : List Nat) (call : Nat) : Except String Item :=
  if failAt.contains call then .error ("call " ++ toString call ++ " failed")
  else .ok { serial := call }

/-- A pool in a scenario. -/
structure PoolRun where
  failAt : List Nat
  pool : Pool Item
  clock : Nat := 0
  desk : Desk Unit (Except PoolError Item) := {}

namespace PoolRun

/-- Steps that concern a pool. -/
inductive Step where
  | acquire
  | tryAcquire
  | release (call : CallId)
  | discard (call : CallId)
  | set (call : CallId) (value : Nat)
  | describe (call : CallId)
  | close
  deriving DecidableEq, Repr

/-- What such steps answer. -/
inductive Result where
  | item (result : Except PoolError Item)
  | flag (held : Bool)
  | text (diagnostic : Option String)

/-- Lets an event happen to the pool, if it can. -/
def occur (r : PoolRun) (event : Pool.Event) : Option (Pool.Reply Item × PoolRun) :=
  (r.pool.step (itemFactory r.failAt) event).map fun (reply, pool) => (reply, { r with pool })

/-- More moves than any call makes. -/
def patience : Nat := 5

/-- Lets a call make its moves until it is over, holds an object or has to wait. -/
def carry (call : CallId) : Nat → Pool.Reply Item × PoolRun → Pool.Reply Item × PoolRun
  | 0, last => last
  | _ + 1, (.outcome result, r) => (.outcome result, r)
  | moves + 1, (.quiet, r) =>
    match r.occur (.go call) with
    | some next => carry call moves next
    | none => (.quiet, r)

/-- Lets an event of a call happen, and then the call go on as far as it can. An event that cannot happen changes
nothing. -/
def apply (call : CallId) (event : Pool.Event) (r : PoolRun) : Pool.Reply Item × PoolRun :=
  ((r.occur event).map (carry call patience)).getD (.quiet, r)

/-- Notes the outcome of a call, if it has one. -/
def conclude (call : CallId) : Pool.Reply Item × PoolRun → PoolRun
  | (.outcome result, r) => { r with desk := r.desk.finish call result }
  | (.quiet, r) => r

/-- Closes the pool. -/
def close (r : PoolRun) : PoolRun :=
  [Pool.Event.close, .shut, .sweep].foldl (fun r event => ((r.occur event).map (·.2)).getD r) r

/-- Runs a step. -/
def act (step : Step) (r : PoolRun) : Answer Result × PoolRun :=
  let held (call : CallId) : Bool := (r.pool.holding? call).isSome
  match step with
  | .acquire =>
    let (call, desk) := r.desk.start ()
    (.started call, { r with desk })
  | .tryAcquire =>
    let (call, desk) := r.desk.number
    match ({ r with desk } : PoolRun).apply call (.tryAcquire call) with
    | (.outcome result, r) => (.value (.item result), r)
    | (.quiet, r) => (.nothing, r)
  | .release call => (.value (.flag (held call)), (r.apply call (.release call)).2)
  | .discard call => (.value (.flag (held call)), (r.apply call (.discard call)).2)
  | .set call value =>
    (.value (.flag (held call)),
      { r with pool := r.pool.modify call fun item => { item with value } })
  | .describe call => (.value (.text ((r.pool.holding? call).map Item.heldDiagnostic)), r)
  | .close => (.nothing, r.close)

/-- The first call that can go on, of those that have been given a permit and of those in line. -/
def resume? (r : PoolRun) : Option PoolRun :=
  (r.pool.calls.map (·.1) ++ r.pool.waiting).findSome? fun call =>
    (r.occur (.go call)).map fun next => conclude call (carry call patience next)

/-- A call that goes on, or else one that begins. -/
def fireCall (r : PoolRun) : Option PoolRun :=
  r.resume? <|> r.desk.next?.map fun ((call, _), desk) =>
    conclude call (({ r with desk } : PoolRun).apply call (.acquire call))

/-- The objects that are out, by the calls that got them. -/
def holders (r : PoolRun) : List (CallId × Item) := r.pool.held.mergeSort fun a b => a.1 ≤ b.1

/-- How pools take part in scenarios. The observation is the whole pool. -/
def rig : Rig PoolRun Step Result (Pool Item) (Except PoolError Item) where
  act := act
  nextCall r := r.desk.nextCall
  abort call r := { (r.apply call (.cancel call)).2 with desk := r.desk.abort call }
  tasks := [fireCall]
  clock r := r.clock
  setClock t r := { r with clock := t }
  alarms _ := []
  observe r := r.pool
  collect r :=
    let (finished, desk) := r.desk.collect
    (finished, { r with desk })

end PoolRun

end Sluice.Scenario
