import Sluice.Scenario.Processor
import Sluice.Worker.Inbox

/-!
# Inboxes in scenarios

An inbox of integers with the handler of a script, and numbered senders. A sender that is closed, or
never was there, cannot be used; a copy of it cannot be used either, but takes a number.
-/

namespace Sluice.Scenario

/-- A handler that asks to stop empties its channel before anyone else can move. -/
def emptyChannel (b : Inbox Int) : Inbox Int :=
  let discards := List.replicate (b.processor.channel.queue.size + 1) Inbox.Event.discard
  (.bar :: discards).foldl (fun b event => ((b.step event).map (·.2)).getD b) b

instance : Host (Inbox Int) where
  processor b := b.processor
  step b event :=
    (b.step (.processor event)).map fun (reply, b) =>
      match reply with
      | .processor reply => (reply, b)
      | _ => (.quiet, emptyChannel b)

/-- Calls to an inbox that may have to wait. -/
inductive InboxCall where
  | finish (call : EndCall)
  | send (message : Int)
  deriving DecidableEq, Repr

/-- What such calls return. -/
inductive InboxOutcome where
  | finished (stats : ProcessorStats)
  | sent (result : Except WorkerError Unit)

/-- An inbox in a scenario. -/
structure InboxRun where
  name : String
  staff : HandlerRun (Inbox Int)
  /-- Which of the numbered senders can be used. -/
  senders : List Bool := [true]
  /-- Whether the script has dropped its handle. -/
  released : Bool := false
  desk : Desk InboxCall InboxOutcome := {}

namespace InboxRun

/-- Steps that concern an inbox. -/
inductive Step where
  | pause
  | resume
  | name
  | call (call : EndCall)
  | drop
  | copySender (sender : Nat)
  | closeSender (sender : Nat)
  | send (message : Int) (sender : Nat)
  | trySend (message : Int) (sender : Nat)
  | isClosed (sender : Nat)
  deriving DecidableEq, Repr

/-- What such steps answer. -/
inductive Result where
  | text (name : String)
  | flag (closed : Bool)
  | sent (result : Except WorkerError Unit)

/-- The inbox at present. -/
def inbox (r : InboxRun) : Inbox Int := r.staff.host

/-- Lets an event happen, if it can. -/
def occur (r : InboxRun) (event : Inbox.Event Int) : Option (Inbox.Reply × InboxRun) :=
  (r.inbox.step event).map fun (reply, b) => (reply, { r with staff := r.staff.become b })

/-- Lets an event happen whose answer does not matter. -/
def proceed (r : InboxRun) (event : Inbox.Event Int) : InboxRun :=
  ((r.occur event).map (·.2)).getD r

/-- Lets an event of a sending call happen. A call that gets a permit puts its message into the
channel before anyone else can move. -/
def occurSend (call : CallId) (event : Inbox.Event Int) (r : InboxRun) :
    Option (Inbox.Reply × InboxRun) :=
  (r.occur event).map fun (reply, r) => (r.occur (.push call)).getD (reply, r)

/-- Whether a sender can be used. -/
def canUse (r : InboxRun) (sender : Nat) : Bool := r.senders.getD sender false

/-- Runs a step. Without the handle, or the sender, that it needs there is nothing to do. A call is
taken in with a handle or a sender of its own. -/
def act (step : Step) (r : InboxRun) : Answer Result × InboxRun :=
  let withHandle (answer : Answer Result × InboxRun) : Answer Result × InboxRun :=
    if r.released then (.nothing, r) else answer
  let withSender (sender : Nat) (answer : Answer Result × InboxRun) : Answer Result × InboxRun :=
    if r.canUse sender then answer else (.nothing, r)
  match step with
  | .pause => withHandle (.nothing, r.proceed (.processor .pause))
  | .resume => withHandle (.nothing, r.proceed (.processor .resume))
  | .name => withHandle (.value (.text r.name), r)
  | .call call =>
    let (number, desk) := r.desk.start (.finish call)
    withHandle (.started number,
      ({ r with desk } : InboxRun).proceed (.processor .copyHandle))
  | .drop => withHandle (.nothing, { r.proceed (.processor .dropHandle) with released := true })
  | .copySender sender =>
    let added := { r with senders := r.senders ++ [r.canUse sender] }
    (.nothing, if r.canUse sender then added.proceed .copySender else added)
  | .closeSender sender =>
    withSender sender
      (.nothing, { r with senders := r.senders.set sender false }.proceed .closeSender)
  | .send message sender =>
    let (number, desk) := r.desk.start (.send message)
    withSender sender (.started number, ({ r with desk } : InboxRun).proceed .copySender)
  | .trySend message sender =>
    withSender sender
      (match r.occurSend r.desk.nextCall (.trySend r.desk.nextCall message) with
      | some (.sent result, r) => (.value (.sent result), r)
      | _ => (.nothing, r))
  | .isClosed sender => withSender sender (.value (.flag r.inbox.isClosed), r)

/-- Notes the outcome of a sending call, if it has one. -/
def conclude (call : CallId) : Inbox.Reply × InboxRun → InboxRun
  | (.sent result, r) => { r with desk := r.desk.finish call (.sent result) }
  | (_, r) => r

/-- Begins a call, which then gives its handle or its sender back: what is left of it counts as a
running call. -/
def begin (number : CallId) (call : InboxCall) (r : InboxRun) : InboxRun :=
  match call with
  | .finish .stop =>
    (r.proceed (.processor (.stop number))).proceed (.processor .dropHandle)
  | .finish .join =>
    (r.proceed (.processor (.join number))).proceed (.processor .dropHandle)
  | .send message =>
    (((r.occurSend number (.send number message)).map (conclude number)).getD r).proceed .closeSender

/-- A reader that is sending goes on with its messages until there is no room for one. -/
def sendOn (r : InboxRun) : InboxRun :=
  let count :=
    match r.inbox.processor.reader with
    | .sending _ => 1
    | .forwarding _ rest => rest.length + 1
    | _ => 0
  (List.replicate count [Inbox.Event.ask, .hand]).flatten.foldl proceed r

/-- A reader that has stopped reading closes the channel of the senders and takes what is in it. -/
def gather (r : InboxRun) : InboxRun :=
  match r.inbox.processor.reader with
  | .leaving =>
    let takes := List.replicate (r.inbox.input.queue.size + 1) Inbox.Event.take
    (.shut :: takes).foldl proceed r
  | _ => r

/-- A move of the reader at the present instant, if it has one. Nobody else can move before the reader
waits again. -/
def fireReader (r : InboxRun) : Option InboxRun :=
  let move (event : Inbox.Event Int) : Option InboxRun :=
    (r.occur event).map fun (_, r) => r.sendOn.gather.sendOn
  match r.inbox.processor.reader with
  | .looking => move (.processor .look)
  | .paused => move (.processor .unpause)
  | .reading => (move .read).or (move (.processor .readCancelled))
  | .sending _ | .forwarding _ _ => move .ask
  | .finishing => move (.processor .readerFinishes)
  | .leaving | .ended => none

/-- A step of the line of calls that wait for the end, if it can be taken. -/
def fireLine (r : InboxRun) : Option InboxRun :=
  match r.occur (.processor .advanceLine) with
  | some (.processor (.joined call stats), r) =>
    some { r with desk := r.desk.finish call (.finished stats) }
  | some (_, r) => some r
  | none => none

/-- The first sending call of the line goes on, if it can. None behind it can go on before it does. -/
def fireSend (r : InboxRun) : Option InboxRun :=
  r.inbox.input.waiting.head?.bind fun c => (r.occurSend c.1 (.resumeSend c.1)).map (conclude c.1)

/-- A call that goes on, or else one that begins. -/
def fireCall (r : InboxRun) : Option InboxRun :=
  r.fireLine <|> r.fireSend <|> r.desk.next?.map fun ((number, call), desk) =>
    ({ r with desk } : InboxRun).begin number call

/-- A move of the handler at the present instant, if it has one. -/
def fireHandler (r : InboxRun) : Option InboxRun :=
  r.staff.fire.map fun staff => { r with staff }

/-- Gives up a call, whether it has begun or not. -/
def abort (number : CallId) (r : InboxRun) : InboxRun :=
  let rest := { r with desk := r.desk.abort number }
  match r.desk.opening.lookup number with
  | some (.finish _) => rest.proceed (.processor .dropHandle)
  | some (.send _) => rest.proceed .closeSender
  | none => (r.proceed (.processor (.cancel number))).proceed (.cancelSend number)

/-- How inboxes take part in scenarios. -/
def rig : Rig InboxRun Step Result (Option ProcessorRun.Observation) InboxOutcome where
  act := act
  nextCall r := r.desk.nextCall
  abort := abort
  tasks := [fireCall, fireHandler, fireReader]
  clock r := r.staff.clock
  setClock t r := { r with staff := { r.staff with clock := t } }
  alarms r := r.staff.alarms
  observe r := if r.released then none else some (.of r.inbox.processor)
  collect r :=
    let (finished, desk) := r.desk.collect
    (finished, { r with desk })

end InboxRun

end Sluice.Scenario
