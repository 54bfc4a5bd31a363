import Sluice.Scenario.Handler

/-!
# Processors in scenarios

The reader of a scripted processor follows a list of reads. A read sleeps for a while or waits for a
poke, and then returns its message; it is taken off the list only when it returns, so a cancelled read
loses nothing. After the list the reader finishes, or blocks for ever.
-/

namespace Sluice.Scenario

/-- A read of a script. -/
inductive ScriptedRead where
  | message (value : Int) (delay : Nat)
  /-- A message that waits for a poke. -/
  | poked (value : Int)
  deriving DecidableEq, Repr

/-- What a reader does. -/
structure ReaderScript where
  reads : List ScriptedRead
  /-- Whether the reader blocks after the last read, instead of finishing. -/
  blocks : Bool := false
  /-- The messages accepted but not read. -/
  pending : List Int := []
  /-- How long its closing work sleeps. -/
  finishDelay : Nat := 0
  /-- Whether the reader has nothing pending and no closing work. -/
  plain : Bool := false
  deriving DecidableEq, Repr

/-- Calls to a processor that wait for its end. -/
inductive EndCall where
  | stop
  | join
  deriving DecidableEq, Repr

/-- A processor in a scenario. -/
structure ProcessorRun where
  name : String
  staff : HandlerRun (Processor Int)
  reader : ReaderScript
  /-- The pokes that no read has used up. -/
  pokes : Nat := 0
  /-- When the sleep of the reader ends: that of a read, or of its closing work. -/
  wakeAt : Nat := 0
  /-- When the closing work of the reader was done. -/
  finishedAt : Option Nat := none
  /-- Whether the script has dropped its handle. -/
  released : Bool := false
  desk : Desk EndCall ProcessorStats := {}

namespace ProcessorRun

/-- Steps that concern a processor. -/
inductive Step where
  | pause
  | resume
  | name
  | poke (times : Nat)
  | call (call : EndCall)
  | drop
  deriving DecidableEq, Repr

/-- What can be seen of a processor through a handle. -/
structure Observation where
  stats : ProcessorStats
  running : Bool
  paused : Bool
  deriving DecidableEq, Repr

/-- What a handle shows of a processor. -/
def Observation.of {M : Type} (p : Processor M) : Observation :=
  ⟨p.stats, p.isRunning, p.isPaused⟩

/-- The processor at present. -/
def processor (r : ProcessorRun) : Processor Int := r.staff.host

/-- The present instant. -/
def clock (r : ProcessorRun) : Nat := r.staff.clock

/-- Sets up the sleep that an event has led the reader to, or notes the end of its closing work. -/
def arm (before : Processor.ReaderPhase Int) (r : ProcessorRun) : ProcessorRun :=
  match before, r.processor.reader with
  | .looking, .reading =>
    match r.reader.reads with
    | .message _ delay :: _ => { r with wakeAt := wakeTime r.clock delay }
    | _ => { r with wakeAt := r.clock }
  | .finishing, .finishing => r
  | _, .finishing =>
    { r with wakeAt := wakeTime r.clock (if r.reader.plain then 0 else r.reader.finishDelay) }
  | .finishing, .ended => if r.reader.plain then r else { r with finishedAt := some r.clock }
  | _, _ => r

/-- Lets an event happen, if it can. -/
def occur (r : ProcessorRun) (event : Processor.Event Int) :
    Option (Processor.Reply × ProcessorRun) :=
  (r.staff.occur event).map fun (reply, staff) =>
    (reply, arm r.processor.reader { r with staff })

/-- Lets an event happen whose answer does not matter. -/
def proceed (r : ProcessorRun) (event : Processor.Event Int) : ProcessorRun :=
  ((r.occur event).map (·.2)).getD r

/-- Runs a step. Pokes come from outside; without a handle nothing else can be done. A call is taken
in with a handle of its own. -/
def act (step : Step) (r : ProcessorRun) : Answer String × ProcessorRun :=
  let withHandle (answer : Answer String × ProcessorRun) : Answer String × ProcessorRun :=
    if r.released then (.nothing, r) else answer
  match step with
  | .poke times => (.nothing, { r with pokes := r.pokes + times })
  | .pause => withHandle (.nothing, r.proceed .pause)
  | .resume => withHandle (.nothing, r.proceed .resume)
  | .name => withHandle (.value r.name, r)
  | .call call =>
    let (number, desk) := r.desk.start call
    withHandle (.started number, ({ r with desk } : ProcessorRun).proceed .copyHandle)
  | .drop => withHandle (.nothing, { r.proceed .dropHandle with released := true })

/-- Begins a call, which then gives its handle back: what is left of it counts as a running call. -/
def begin (number : CallId) (call : EndCall) (r : ProcessorRun) : ProcessorRun :=
  let event := match call with
    | .stop => Processor.Event.stop number
    | .join => .join number
  (r.proceed event).proceed .dropHandle

/-- The answer of the read in progress, with the script after it, once there is one. -/
def readAnswer? (r : ProcessorRun) : Option (Option Int × ProcessorRun) :=
  match r.reader.reads with
  | .message value _ :: rest =>
    if r.wakeAt ≤ r.clock then some (some value, { r with reader := { r.reader with reads := rest } })
    else none
  | .poked value :: rest =>
    if 0 < r.pokes then
      some (some value,
        { r with pokes := r.pokes - 1, reader := { r.reader with reads := rest } })
    else none
  | [] => if r.reader.blocks then none else some (none, r)

/-- A move of the reader at the present instant, if it has one. -/
def fireReader (r : ProcessorRun) : Option ProcessorRun :=
  let move (event : Processor.Event Int) : Option ProcessorRun := (r.occur event).map (·.2)
  match r.processor.reader with
  | .looking => move .look
  | .paused => move .unpause
  | .reading =>
    match r.readAnswer? with
    | some (answer, r) => (r.occur (.readReturns answer)).map (·.2)
    | none => move .readCancelled
  | .sending _ | .forwarding _ _ => move .sendResumes
  | .leaving => move (.takePending (if r.reader.plain then [] else r.reader.pending))
  | .finishing => if r.clock < r.wakeAt then none else move .readerFinishes
  | .ended => none

/-- A step of the line of calls that wait for the end, if it can be taken. -/
def fireLine (r : ProcessorRun) : Option ProcessorRun :=
  match r.occur .advanceLine with
  | some (.joined call stats, r) => some { r with desk := r.desk.finish call stats }
  | some (.quiet, r) => some r
  | none => none

/-- A call that goes on, or else one that begins. -/
def fireCall (r : ProcessorRun) : Option ProcessorRun :=
  r.fireLine <|> r.desk.next?.map fun ((number, call), desk) =>
    ({ r with desk } : ProcessorRun).begin number call

/-- A move of the handler at the present instant, if it has one. -/
def fireHandler (r : ProcessorRun) : Option ProcessorRun :=
  r.staff.fire.map fun staff => { r with staff }

/-- Gives up a call, whether it has begun or not. -/
def abort (number : CallId) (r : ProcessorRun) : ProcessorRun :=
  if r.desk.opening.any (·.1 == number) then
    ({ r with desk := r.desk.abort number } : ProcessorRun).proceed .dropHandle
  else r.proceed (.cancel number)

/-- The instants at which the reader and the handler wake up. -/
def alarms (r : ProcessorRun) : List Nat :=
  match r.processor.reader with
  | .reading | .finishing => r.wakeAt :: r.staff.alarms
  | _ => r.staff.alarms

/-- How processors take part in scenarios. -/
def rig : Rig ProcessorRun Step String (Option Observation) ProcessorStats where
  act := act
  nextCall r := r.desk.nextCall
  abort := abort
  tasks := [fireCall, fireHandler, fireReader]
  clock := clock
  setClock t r := { r with staff := { r.staff with clock := t } }
  alarms := alarms
  observe r := if r.released then none else some (.of r.processor)
  collect r :=
    let (finished, desk) := r.desk.collect
    (finished, { r with desk })

end ProcessorRun

end Sluice.Scenario
