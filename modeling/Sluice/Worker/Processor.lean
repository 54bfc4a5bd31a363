import Sluice.Worker.Channel
import Sluice.Worker.Error

/-!
# Message processors

A `Processor` has two tasks. The reader gets messages and sends them through a bounded channel; the
handler receives and handles them. Three things end it: the reader finishes; the handler asks to stop,
and what is still in the channel is dropped; or a handle stops it, which cancels the read in progress
but lets everything already accepted be handled. A pause keeps the reader from beginning another read.

What the reader and the handler do is left open: their answers are part of the events. `Processor.step`
says what each event does. The tasks move from one point where they may wait to the next, and any
order of such moves is a schedule.
-/

namespace Sluice

/-- What the handler wants after a message. -/
inductive HandleOutcome where
  | continue
  | stop
  deriving DecidableEq, Repr

/-- Counters of a processor. -/
structure ProcessorStats where
  read : Nat
  handled : Nat
  dropped : Nat
  deriving DecidableEq, Repr

namespace Processor

/-- What the reader is told. -/
inductive Control where
  | running
  | paused
  | stopped
  deriving DecidableEq, Repr

/-- Where the reader's task waits. -/
inductive ReaderPhase (M : Type) where
  /-- It is about to look at the control. -/
  | looking
  /-- For the control to change, since it is paused. -/
  | paused
  /-- For a read in progress. -/
  | reading
  /-- For room for a message. -/
  | sending (message : M)
  /-- It has stopped reading and is about to take the messages accepted but not read. -/
  | leaving
  /-- For room for such a message; others follow. -/
  | forwarding (message : M) (rest : List M)
  /-- For its closing work. -/
  | finishing
  | ended
  deriving DecidableEq, Repr

/-- Where the handler's task waits. -/
inductive HandlerPhase (M : Type) where
  /-- For a message. -/
  | receiving
  /-- For the handling of a message. -/
  | handling (message : M)
  /-- For its closing work. -/
  | finishing
  | ended
  deriving DecidableEq, Repr

/-- The two tasks. -/
inductive Worker where
  | reader
  | handler
  deriving DecidableEq, Repr

end Processor

open Processor

/-- A processor with its handles and the calls that wait for its end. -/
structure Processor (M : Type) where
  channel : Channel M
  control : Control := .running
  reader : ReaderPhase M := .looking
  handler : HandlerPhase M := .receiving
  read : Nat := 0
  handled : Nat := 0
  dropped : Nat := 0
  /-- The tasks whose end nobody has waited for yet, the one to wait for first in front. -/
  unjoined : List Worker := [.handler, .reader]
  /-- The calls that wait for the end, in the order of their arrival. The first one does the waiting
  and the others wait for it. -/
  line : List CallId := []
  /-- The handles apart from those of the running calls. -/
  handles : Nat := 1

namespace Processor

variable {M : Type}

/-- A running processor with one handle. -/
def ofSettings (s : ProcessorSettings) : Processor M := { channel := { capacity := s.capacity } }

/-- A running processor with one handle, for settings that are valid. -/
def ofSettings? (s : ProcessorSettings) : Except WorkerError (Processor M) :=
  match s.validate with
  | .ok () => .ok (ofSettings s)
  | .error fault => .error (.invalidConfig fault)

/-- The counters of the processor. -/
def stats (p : Processor M) : ProcessorStats := ⟨p.read, p.handled, p.dropped⟩

/-- Whether the reader's task has ended. -/
def readerEnded (p : Processor M) : Bool :=
  match p.reader with
  | .ended => true
  | _ => false

/-- Whether the handler's task has ended. -/
def handlerEnded (p : Processor M) : Bool :=
  match p.handler with
  | .ended => true
  | _ => false

/-- Whether a task has ended. -/
def hasEnded (p : Processor M) : Worker → Bool
  | .reader => p.readerEnded
  | .handler => p.handlerEnded

/-- Whether a task is still at work. -/
def isRunning (p : Processor M) : Bool := !p.readerEnded || !p.handlerEnded

/-- Whether the processor is paused. -/
def isPaused (p : Processor M) : Bool := p.control == .paused

/-- Tells the reader to stop for good. -/
def tellStop (p : Processor M) : Processor M := { p with control := .stopped }

/-- Tells the reader to stop if nobody holds a handle any more. -/
def stopIfForsaken (p : Processor M) : Processor M :=
  if p.handles = 0 ∧ p.line = [] then p.tellStop else p

/-! ### The reader's task -/

/-- Counts a message as read and sends it, or waits for room, or drops it if nobody will receive
it. -/
def sendRead (p : Processor M) (message : M) : Processor M :=
  let counted := { p with read := p.read + 1 }
  match p.channel.offer message with
  | (.accepted, channel) => { counted with channel, reader := .looking }
  | (.full, _) => { counted with reader := .sending message }
  | (.closed, _) => { counted with dropped := p.dropped + 1, reader := .leaving }

/-- Counts messages as read and sends them one after the other, until there is no room for one. -/
def forward (p : Processor M) : List M → Processor M
  | [] => { p with reader := .finishing }
  | message :: rest =>
    let counted := { p with read := p.read + 1 }
    match p.channel.offer message with
    | (.accepted, channel) => forward { counted with channel } rest
    | (.full, _) => { counted with reader := .forwarding message rest }
    | (.closed, _) => forward { counted with dropped := p.dropped + 1 } rest

/-- The reader looks at the control. Its turn up to the next wait is ordered at this look, since it shares nothing
else until then: a pause or a stop that overlaps the turn comes after it. -/
def look (p : Processor M) : Processor M :=
  match p.control with
  | .running => { p with reader := .reading }
  | .paused => { p with reader := .paused }
  | .stopped => { p with reader := .leaving }

/-! ### The handler's task -/

/-- The end of the handler's reception: nothing is accepted any more and what is queued is
dropped. -/
def refuse (p : Processor M) : Processor M :=
  { p with
    control := .stopped
    channel := p.channel.abandon
    dropped := p.dropped + p.channel.messages.length
    handler := .finishing }

/-! ### Events -/

/-- What can happen to a processor. -/
inductive Event (M : Type) where
  | pause
  | resume
  /-- A call begins that stops the processor and waits for its end. -/
  | stop (call : CallId)
  /-- A call begins that waits for the end. -/
  | join (call : CallId)
  /-- The first call of the line goes on. -/
  | advanceLine
  /-- A running call is given up. -/
  | cancel (call : CallId)
  | copyHandle
  | dropHandle
  /-- The reader looks at the control. -/
  | look
  /-- The paused reader finds the control changed. -/
  | unpause
  /-- The read in progress returns a message, or that there are no more. -/
  | readReturns (message : Option M)
  /-- The read in progress is cancelled, since the processor is stopped. -/
  | readCancelled
  /-- The reader goes on with the message that it could not send. -/
  | sendResumes
  /-- The reader takes the messages that were accepted but not read. -/
  | takePending (pending : List M)
  /-- The closing work of the reader is done. -/
  | readerFinishes
  /-- The handler receives a message, or finds that there will be none. -/
  | receive
  /-- The handling of a message is done. -/
  | handleReturns (outcome : HandleOutcome)
  /-- The closing work of the handler is done. -/
  | handlerFinishes

/-- What an event answers to the one who caused it. -/
inductive Reply where
  | quiet
  /-- A call that waited for the end returns. -/
  | joined (call : CallId) (stats : ProcessorStats)

/-- The first call of the line waits for the next task to end, and returns when both have. -/
def advanceLine (p : Processor M) : Option (Reply × Processor M) :=
  match p.line with
  | [] => none
  | call :: rest =>
    match p.unjoined with
    | [] => some (.joined call p.stats, ({ p with line := rest } : Processor M).stopIfForsaken)
    | worker :: others =>
      if p.hasEnded worker then some (.quiet, { p with unjoined := others }) else none

/-- What an event does, if it can happen. -/
def step (p : Processor M) : Event M → Option (Reply × Processor M)
  | .pause =>
    if p.handles = 0 then none
    else some (.quiet, if p.control = .running then { p with control := .paused } else p)
  | .resume =>
    if p.handles = 0 then none
    else some (.quiet, if p.control = .paused then { p with control := .running } else p)
  | .stop call =>
    if p.handles = 0 then none
    else some (.quiet, { p.tellStop with line := p.line ++ [call] })
  | .join call =>
    if p.handles = 0 then none else some (.quiet, { p with line := p.line ++ [call] })
  | .advanceLine => p.advanceLine
  | .cancel call =>
    some (.quiet, ({ p with line := p.line.filter (· != call) } : Processor M).stopIfForsaken)
  | .copyHandle => if p.handles = 0 then none else some (.quiet, { p with handles := p.handles + 1 })
  | .dropHandle =>
    if p.handles = 0 then none
    else some (.quiet, ({ p with handles := p.handles - 1 } : Processor M).stopIfForsaken)
  | .look =>
    match p.reader with
    | .looking => some (.quiet, p.look)
    | _ => none
  | .unpause =>
    match p.reader with
    | .paused => if p.control = .paused then none else some (.quiet, { p with reader := .looking })
    | _ => none
  | .readReturns message =>
    match p.reader with
    | .reading =>
      match message with
      | some m => some (.quiet, p.sendRead m)
      | none => some (.quiet, { p with reader := .leaving })
    | _ => none
  | .readCancelled =>
    match p.reader with
    | .reading =>
      if p.control = .stopped then some (.quiet, { p with reader := .leaving }) else none
    | _ => none
  | .sendResumes =>
    match p.reader with
    | .sending m =>
      match p.channel.offer m with
      | (.accepted, channel) => some (.quiet, { p with channel, reader := .looking })
      | (.full, _) => none
      | (.closed, _) => some (.quiet, { p with dropped := p.dropped + 1, reader := .leaving })
    | .forwarding m rest =>
      match p.channel.offer m with
      | (.accepted, channel) => some (.quiet, ({ p with channel } : Processor M).forward rest)
      | (.full, _) => none
      | (.closed, _) =>
        some (.quiet, ({ p with dropped := p.dropped + 1 } : Processor M).forward rest)
    | _ => none
  | .takePending pending =>
    match p.reader with
    | .leaving => some (.quiet, p.forward pending)
    | _ => none
  | .readerFinishes =>
    match p.reader with
    | .finishing => some (.quiet, { p with reader := .ended })
    | _ => none
  | .receive =>
    match p.handler with
    | .receiving =>
      match p.channel.receive with
      | some (m, channel) =>
        some (.quiet, { p with channel, handled := p.handled + 1, handler := .handling m })
      | none => if p.readerEnded then some (.quiet, { p with handler := .finishing }) else none
    | _ => none
  | .handleReturns outcome =>
    match p.handler with
    | .handling _ =>
      match outcome with
      | .continue => some (.quiet, { p with handler := .receiving })
      | .stop => some (.quiet, p.refuse)
    | _ => none
  | .handlerFinishes =>
    match p.handler with
    | .finishing => some (.quiet, { p with handler := .ended })
    | _ => none

end Processor

end Sluice
