import Sluice.Worker.Channel
import Sluice.Worker.Error

/-!
# Pools of reusable objects

At most `maxSize` objects of a `Pool` are out at once: there are as many permits, and a call for an object needs one.
A call that finds no permit waits in line, first come, first served, and a permit that comes back goes to the line.
Objects given back are kept up to `maxIdle` of them, and the one given back last goes out first. Only when none is
kept is a new one built. A pool that is closed hands out nothing more and keeps nothing.

No lock is held over a call as a whole. It looks whether the pool is closed, takes a kept object, or has one built by
the factory, and returns its permit, each of them at a time of its own, and closing is three such moves: the mark that
the pool is closed, the end of the permits, and the end of the kept objects. Between two moves other calls make
theirs. `Stage` says how far a call has come, and `Pool.step` what each event does; a schedule is any sequence of
events. A counter is raised together with the move that it counts.
-/

namespace Sluice

/-- How far a call has come that has a permit. -/
inductive Pool.Stage (α : Type) where
  /-- The call waited in line. It has been given a permit and has not gone on since. -/
  | granted
  /-- The call will look whether the pool is closed. -/
  | admitted
  /-- The pool was open. The call will look for a kept object. -/
  | looking
  /-- No object was kept. The factory is called for the `build`-th time, counted from zero. -/
  | building (build : Nat)
  | holding (object : α)
  /-- The object comes back, and the pool was open. The call will see whether there is room for it. -/
  | returning (object : α)
  /-- The permit comes back, and a call that did not get an object learns why. -/
  | leaving (error : Option PoolError)
  deriving Repr

/-- The object that a call holds. -/
def Pool.Stage.held? {α : Type} : Pool.Stage α → Option α
  | .holding a => some a
  | _ => none

/-- A pool of objects. -/
structure Pool (α : Type) where
  settings : PoolSettings
  /-- The permits that nobody has. -/
  free : Nat := settings.maxSize
  /-- The objects kept, the one given back last in front. -/
  idle : List α := []
  /-- The calls that have a permit. -/
  calls : List (CallId × Pool.Stage α) := []
  /-- The calls that wait for a permit, in the order of their arrival. -/
  waiting : List CallId := []
  /-- The mark that the pool is closed. -/
  closed : Bool := false
  /-- Whether there are no permits to be had any more. -/
  refuses : Bool := false
  /-- How many calls that close the pool have set the mark, and not ended the permits yet. -/
  shutting : Nat := 0
  /-- How many calls that close the pool have ended the permits, and not dropped the kept objects yet. -/
  sweeping : Nat := 0
  created : Nat := 0
  reused : Nat := 0
  /-- The objects dropped instead of kept. -/
  discarded : Nat := 0
  /-- The kept objects that the closing of the pool dropped. -/
  expelled : Nat := 0
  /-- How often the factory was called. -/
  builds : Nat := 0

namespace Pool

variable {α : Type}

/-- Counters of a pool. -/
structure Stats where
  created : Nat
  reused : Nat
  discarded : Nat
  idle : Nat
  inUse : Nat
  deriving DecidableEq, Repr

/-- A pool without objects. -/
def ofSettings (settings : PoolSettings) : Pool α := { settings }

/-- A pool without objects, for settings that are valid. Room for the objects kept is claimed first, of so many bytes
each, then the permits. -/
def ofSettings? (settings : PoolSettings) (objectSize : Nat := 16) : Except WorkerError (Pool α) := do
  settings.validate.mapError .invalidConfig
  (Room.things (settings.maxIdle * objectSize)).mapError .noRoom
  (Room.permits settings.maxSize).mapError .noRoom
  return ofSettings settings

/-- The permits that are given out. -/
def inUse (p : Pool α) : Nat := p.settings.maxSize - p.free

/-- The counters of the pool. -/
def stats (p : Pool α) : Stats :=
  ⟨p.created, p.reused, p.discarded, p.idle.length, p.inUse⟩

/-- The objects destroyed so far. -/
def destroyed (p : Pool α) : Nat := p.discarded + p.expelled

/-- How far a call has come, if it has a permit. -/
def stage? (p : Pool α) (call : CallId) : Option (Stage α) := p.calls.lookup call

/-- The object that a call holds. -/
def holding? (p : Pool α) (call : CallId) : Option α := (p.stage? call).bind Stage.held?

/-- The objects that are out, under the calls that hold them. -/
def held (p : Pool α) : List (CallId × α) := p.calls.filterMap fun c => c.2.held?.map (Prod.mk c.1)

/-- The numbers of the calls that have a permit or wait for one. -/
def numbers (p : Pool α) : List CallId := p.calls.map (·.1) ++ p.waiting

/-- A call with a permit comes to another stage. -/
def setStage (p : Pool α) (call : CallId) (stage : Stage α) : Pool α :=
  { p with calls := p.calls.map fun c => if c.1 = call then (call, stage) else c }

/-- Takes a call out of the line. -/
def leaveLine (p : Pool α) (call : CallId) : Pool α := { p with waiting := p.waiting.filter (· != call) }

/-- A permit is returned. It goes to the first call of the line, unless the permits have been ended. -/
def putPermit (p : Pool α) : Pool α :=
  match p.waiting with
  | [] => { p with free := p.free + 1 }
  | call :: rest =>
    if p.refuses then { p with free := p.free + 1 }
    else { p with waiting := rest, calls := p.calls ++ [(call, .granted)] }

/-- A call is over, and its permit is returned. -/
def leave (p : Pool α) (call : CallId) : Pool α :=
  ({ p with calls := p.calls.filter (·.1 != call) } : Pool α).putPermit

/-- Keeps an object if there is room for it, and drops it otherwise. -/
def keep (p : Pool α) (a : α) : Pool α :=
  if p.idle.length < p.settings.maxIdle then { p with idle := a :: p.idle }
  else { p with discarded := p.discarded + 1 }

/-- Changes an object in the hands of a call. -/
def modify (p : Pool α) (call : CallId) (f : α → α) : Pool α :=
  match p.holding? call with
  | some a => p.setStage call (.holding (f a))
  | none => p

/-- What can happen to a pool. -/
inductive Event where
  /-- A call begins that waits for a permit if need be. -/
  | acquire (call : CallId)
  /-- A call begins that does not wait. -/
  | tryAcquire (call : CallId)
  /-- The next move of a call that is not at rest. -/
  | go (call : CallId)
  /-- A call that waited is given up. -/
  | cancel (call : CallId)
  /-- The holder of an object begins to give it back, and looks whether the pool is closed. -/
  | release (call : CallId)
  /-- The holder of an object drops it for good. -/
  | discard (call : CallId)
  /-- The pool is marked as closed. -/
  | close
  /-- A call that closes the pool ends the permits. -/
  | shut
  /-- A call that closes the pool drops the kept objects. -/
  | sweep
  deriving DecidableEq, Repr

/-- What an event answers to the one who caused it. -/
inductive Reply (α : Type) where
  | quiet
  | outcome (result : Except PoolError α)

/-- The next move of a call at some stage. A call that holds an object is at rest. -/
def proceed (factory : Nat → Except String α) (p : Pool α) (call : CallId) :
    Stage α → Option (Reply α × Pool α)
  | .granted =>
    if p.refuses then some (.outcome (.error .closed), p.leave call)
    else some (.quiet, p.setStage call .admitted)
  | .admitted => some (.quiet, p.setStage call (if p.closed then .leaving (some .closed) else .looking))
  | .looking =>
    match p.idle with
    | a :: rest =>
      some (.outcome (.ok a),
        ({ p with idle := rest, reused := p.reused + 1 } : Pool α).setStage call (.holding a))
    | [] => some (.quiet, ({ p with builds := p.builds + 1 } : Pool α).setStage call (.building p.builds))
  | .building build =>
    match factory build with
    | .ok a =>
      some (.outcome (.ok a), ({ p with created := p.created + 1 } : Pool α).setStage call (.holding a))
    | .error reason => some (.quiet, p.setStage call (.leaving (some (.factory reason))))
  | .holding _ => none
  | .returning a => some (.quiet, (p.keep a).setStage call (.leaving none))
  | .leaving none => some (.quiet, p.leave call)
  | .leaving (some error) => some (.outcome (.error error), p.leave call)

/-- What an event does, if it can happen. A new call needs a number that no other call bears. -/
def step (factory : Nat → Except String α) (p : Pool α) : Event → Option (Reply α × Pool α)
  | .acquire call =>
    if call ∈ p.numbers then none
    else if p.refuses then some (.outcome (.error .closed), p)
    else if 0 < p.free then
      some (.quiet, { p with free := p.free - 1, calls := p.calls ++ [(call, .admitted)] })
    else some (.quiet, { p with waiting := p.waiting ++ [call] })
  | .tryAcquire call =>
    if call ∈ p.numbers then none
    else if p.refuses then some (.outcome (.error .closed), p)
    else if 0 < p.free then
      some (.quiet, { p with free := p.free - 1, calls := p.calls ++ [(call, .admitted)] })
    else some (.outcome (.error (.exhausted p.settings.maxSize)), p)
  | .go call =>
    match p.stage? call with
    | some stage => p.proceed factory call stage
    | none =>
      if call ∈ p.waiting ∧ p.refuses then some (.outcome (.error .closed), p.leaveLine call) else none
  | .cancel call =>
    match p.stage? call with
    | some .granted => some (.quiet, p.leave call)
    | some _ => none
    | none => if call ∈ p.waiting then some (.quiet, p.leaveLine call) else none
  | .release call =>
    match p.stage? call with
    | some (.holding a) =>
      if p.closed then
        some (.quiet, ({ p with discarded := p.discarded + 1 } : Pool α).setStage call (.leaving none))
      else some (.quiet, p.setStage call (.returning a))
    | _ => none
  | .discard call =>
    match p.stage? call with
    | some (.holding _) =>
      some (.quiet, ({ p with discarded := p.discarded + 1 } : Pool α).setStage call (.leaving none))
    | _ => none
  | .close => some (.quiet, { p with closed := true, shutting := p.shutting + 1 })
  | .shut =>
    if p.shutting = 0 then none
    else some (.quiet, { p with refuses := true, shutting := p.shutting - 1, sweeping := p.sweeping + 1 })
  | .sweep =>
    if p.sweeping = 0 then none
    else some (.quiet, { p with idle := [], expelled := p.expelled + p.idle.length, sweeping := p.sweeping - 1 })

end Pool

end Sluice
