import Sluice.Worker.Processor

/-!
# Processors fed by senders

An `Inbox` is a processor whose reader receives from a channel of its own, to which any number of
senders send. The reader finishes when every sender is closed and the channel is empty. When the
processor ends otherwise, the messages still in the channel are handed on, and senders are refused.

The senders share this channel with the reader, and the reader shares the next one with the handler.
Each event is one access to one of them. Whoever sends gets a permit first and puts the message into
the channel later, whatever happens in between. Whoever receives and is at its end closes the channel,
takes one message after the other, and goes on when it finds the channel empty, although somebody with
a permit may still put a message into it.
-/

namespace Sluice

namespace Processor

variable {M : Type}

/-- The message that the reader is sending to the handler. -/
def inHand? (p : Processor M) : Option M :=
  match p.reader with
  | .sending message | .forwarding message _ => some message
  | _ => none

/-- The reader counts the first of some messages as read and is about to send it, or has none to
send. -/
def takeUp (p : Processor M) : List M → Processor M
  | [] => { p with reader := .finishing }
  | message :: rest => { p with read := p.read + 1, reader := .forwarding message rest }

/-- The reader goes on when its message is in the channel, or will not be. -/
def goOn (p : Processor M) (isSent : Bool) : Processor M :=
  match p.reader with
  | .sending _ => { p with reader := if isSent then .looking else .leaving }
  | .forwarding _ rest => p.takeUp rest
  | _ => p

end Processor

/-- A processor with the channel that feeds it. -/
structure Inbox (M : Type) where
  processor : Processor M
  input : Channel M
  /-- The sending calls that have a permit, with the messages that they are about to put into the
  channel. -/
  admitted : List (CallId × M) := []
  /-- What the reader has taken from the channel since it stopped reading. -/
  taken : List M := []
  /-- Whether the reader has a permit for the message that it is sending to the handler. -/
  isPermitted : Bool := false
  /-- Whether the handler has asked to stop, and is not done with the channel yet. -/
  isRefusing : Bool := false
  /-- The senders that are not closed, apart from those of the running calls. -/
  senders : Nat := 1

namespace Inbox

variable {M : Type}

/-- A running processor with one handle and one sender. Both channels have the room of the
settings. -/
def ofSettings (s : ProcessorSettings) : Inbox M :=
  { processor := .ofSettings s, input := { capacity := s.capacity } }

/-- The same for settings that are valid. -/
def ofSettings? (s : ProcessorSettings) : Except WorkerError (Inbox M) :=
  match s.validate with
  | .ok () => .ok (ofSettings s)
  | .error fault => .error (.invalidConfig fault)

/-- Whether nobody can send any more. -/
def isForsaken (b : Inbox M) : Bool :=
  b.senders == 0 && b.input.waiting.isEmpty && b.admitted.isEmpty

/-- Whether the processor accepts no more messages. -/
def isClosed (b : Inbox M) : Bool := b.input.closed

/-- Whether a sending call finds room behind others. Every message and every permit takes a place. -/
def hasRoom (b : Inbox M) (ahead : Nat) : Bool :=
  b.input.queue.size + b.admitted.length + ahead < b.input.capacity

/-- Gives a sending call a permit. -/
def letIn (b : Inbox M) (call : CallId) (message : M) : Inbox M :=
  { b with admitted := b.admitted ++ [(call, message)] }

/-- What can happen to an inbox. -/
inductive Event (M : Type) where
  /-- A call begins that sends a message and waits for room if need be. -/
  | send (call : CallId) (message : M)
  /-- A call that does not wait. -/
  | trySend (call : CallId) (message : M)
  /-- A sending call that waits goes on. -/
  | resumeSend (call : CallId)
  /-- A sending call with a permit puts its message into the channel. -/
  | push (call : CallId)
  /-- A sending call that waits is given up. -/
  | cancelSend (call : CallId)
  | copySender
  | closeSender
  /-- The reader receives a message, or finds that there will be none. -/
  | read
  /-- The reader has stopped reading and closes the channel. -/
  | shut
  /-- It takes a message from the channel that it has closed, or finds none and goes on. -/
  | take
  /-- The reader gets a permit for the message that it is sending, or learns that nobody will receive
  it. -/
  | ask
  /-- It has a permit and puts the message into the channel of the handler. -/
  | hand
  /-- The handler has asked to stop and closes its channel. -/
  | bar
  /-- It takes a message from the channel that it has closed and drops it, or finds none and goes
  on. -/
  | discard
  /-- Something else that happens to the processor. When the handler asks to stop, the reader is
  told. -/
  | processor (event : Processor.Event M)

/-- What an event answers to the one who caused it. -/
inductive Reply where
  | quiet
  /-- A sending call returns. -/
  | sent (result : Except WorkerError Unit)
  | processor (reply : Processor.Reply)

/-- Passes an event to the processor. -/
def passOn (b : Inbox M) (event : Processor.Event M) : Option (Reply × Inbox M) :=
  (b.processor.step event).map fun (reply, processor) => (.processor reply, { b with processor })

/-- What an event does, if it can happen. -/
def step (b : Inbox M) : Event M → Option (Reply × Inbox M)
  | .send call message =>
    if b.senders = 0 then none
    else if b.input.closed then some (.sent (.error .shutdown), b)
    else if b.hasRoom b.input.waiting.length then some (.quiet, b.letIn call message)
    else some (.quiet, { b with input.waiting := b.input.waiting ++ [(call, message)] })
  | .trySend call message =>
    if b.senders = 0 then none
    else if b.input.closed then some (.sent (.error .shutdown), b)
    else if b.hasRoom b.input.waiting.length then some (.quiet, b.letIn call message)
    else some (.sent (.error (.queueFull b.input.capacity)), b)
  | .resumeSend call =>
    match b.input.place? call, b.input.waiting.lookup call with
    | some place, some message =>
      let rest := { b with input := b.input.withdraw call }
      if b.input.closed then some (.sent (.error .shutdown), rest)
      else if b.hasRoom place then some (.quiet, rest.letIn call message)
      else none
    | _, _ => none
  | .push call =>
    match b.admitted.lookup call with
    | some message =>
      some (.sent (.ok ()), { b with
        input.queue := b.input.queue.push message
        admitted := b.admitted.eraseP (·.1 == call) })
    | none => none
  | .cancelSend call => some (.quiet, { b with input := b.input.withdraw call })
  | .copySender =>
    if b.senders = 0 then none else some (.quiet, { b with senders := b.senders + 1 })
  | .closeSender =>
    if b.senders = 0 then none else some (.quiet, { b with senders := b.senders - 1 })
  | .read =>
    match b.processor.reader with
    | .reading =>
      match b.input.receive with
      | some (message, input) =>
        some (.quiet, { b with
          input
          processor := { b.processor with read := b.processor.read + 1, reader := .sending message } })
      | none => if b.isForsaken then b.passOn (.readReturns none) else none
    | _ => none
  | .shut =>
    match b.processor.reader with
    | .leaving => if b.input.closed then none else some (.quiet, { b with input := b.input.close })
    | _ => none
  | .take =>
    match b.processor.reader with
    | .leaving =>
      if b.input.closed then
        match b.input.receive with
        | some (message, input) => some (.quiet, { b with input, taken := b.taken ++ [message] })
        | none => some (.quiet, { b with processor := b.processor.takeUp b.taken, taken := [] })
      else none
    | _ => none
  | .ask =>
    match b.isPermitted, b.processor.inHand? with
    | false, some message =>
      match b.processor.channel.offer message with
      | (.accepted, _) => some (.quiet, { b with isPermitted := true })
      | (.full, _) => none
      | (.closed, _) =>
        let refused := { b.processor with dropped := b.processor.dropped + 1 }
        some (.quiet, { b with processor := refused.goOn false })
    | _, _ => none
  | .hand =>
    match b.isPermitted, b.processor.inHand? with
    | true, some message =>
      let sent := { b.processor with channel.queue := b.processor.channel.queue.push message }
      some (.quiet, { b with processor := sent.goOn true, isPermitted := false })
    | _, _ => none
  | .bar =>
    if b.isRefusing ∧ b.processor.channel.closed = false then
      some (.quiet, { b with processor.channel := b.processor.channel.close })
    else none
  | .discard =>
    if b.isRefusing ∧ b.processor.channel.closed then
      match b.processor.channel.receive with
      | some (_, channel) =>
        some (.quiet, { b with
          processor := { b.processor with channel, dropped := b.processor.dropped + 1 } })
      | none => some (.quiet, { b with processor.handler := .finishing, isRefusing := false })
    else none
  | .processor (.handleReturns outcome) =>
    if b.isRefusing then none
    else
      match outcome with
      | .continue => b.passOn (.handleReturns .continue)
      | .stop =>
        match b.processor.handler with
        | .handling _ =>
          some (.quiet, { b with processor := b.processor.tellStop, isRefusing := true })
        | _ => none
  | .processor (.readReturns _) => none
  | .processor .sendResumes => none
  | .processor (.takePending _) => none
  | .processor event => b.passOn event

end Inbox

end Sluice
