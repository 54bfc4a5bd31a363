import Sluice.Proofs.Worker.Relay

/-!
# What becomes of a message that is accepted

An inbox has two channels in series, that of the senders and that between its tasks. What a history says of the
first one is which messages the sending calls put into it (`accepted`), and what it says of the second one is what the
handler was called with (`handedOn`).

`Ledger` is the account of the second channel: what was counted as read is what was handed on, followed by what is in
the channel and by what the reader is sending, as long as the handler has not closed the channel, and the numbers
balance ever after. `Fed` puts the first channel before it: what was accepted is what was counted as read, followed by
what the reader has taken and by what is in the channel of the senders. With the phases of the tasks (`Staged`) this
gives `sent_accounted`, for every schedule.

Whoever has got a permit before a channel was closed may put a message into it after the one who closed it has found it
empty. A sending call that does so returns that its message is accepted, and nobody reads it: `unread_latePush` is a
schedule in which that happens. A reader that does so has counted the message as read, and the handler neither handles
nor drops it. `DrainedDry` says that neither happens.
-/

namespace Sluice

namespace Processor

variable {M : Type} {p p' : Processor M} {seen gone : List M}

/-! ### The channel between the tasks -/

theorem take_one_append_tail (ms : List M) : ms.take 1 ++ ms.tail = ms := by
  rw [← List.drop_one, List.take_append_drop]

/-- What was counted as read and what was handed on fit the processor. -/
structure Ledger (seen gone : List M) (p : Processor M) : Prop where
  read : seen.length = p.read
  handled : gone.length = p.handled
  balance : p.read = p.handled + p.dropped + p.channel.messages.length + p.inHand?.toList.length
  order : gone <+: seen
  flowing : p.channel.closed = false → seen = gone ++ (p.channel.messages ++ p.inHand?.toList)

namespace Ledger

/-- The counters, the messages and what the reader is sending are the same, and the channel is not opened. -/
theorem of_same (l : Ledger seen gone p) (hstats : p'.stats = p.stats)
    (hmessages : p'.channel.messages = p.channel.messages) (hinHand : p'.inHand? = p.inHand?)
    (hclosed : p'.channel.closed = false → p.channel.closed = false) : Ledger seen gone p' := by
  obtain ⟨hread, hhandled, hdropped⟩ := ProcessorStats.mk.inj hstats
  constructor
  · rw [hread]
    exact l.read
  · rw [hhandled]
    exact l.handled
  · rw [hread, hhandled, hdropped, hmessages, hinHand]
    exact l.balance
  · exact l.order
  · intro hopen
    rw [hmessages, hinHand]
    exact l.flowing (hclosed hopen)

/-- The reader counts a message and is about to send it. -/
theorem count (l : Ledger seen gone p) (hidle : p.inHand? = none) {m : M} (hinHand : p'.inHand? = some m)
    (hstats : p'.stats = { p.stats with read := p.read + 1 }) (hchannel : p'.channel = p.channel) :
    Ledger (seen ++ [m]) gone p' := by
  obtain ⟨hread, hhandled, hdropped⟩ := ProcessorStats.mk.inj hstats
  have hbalance := l.balance
  rw [hidle] at hbalance
  constructor
  · rw [hread, List.length_append, l.read]
    rfl
  · rw [hhandled]
    exact l.handled
  · rw [hread, hhandled, hdropped, hchannel, hinHand]
    show p.read + 1 = p.handled + p.dropped + p.channel.messages.length + 1
    rw [hbalance]
    rfl
  · exact l.order.trans (List.prefix_append _ _)
  · intro hopen
    have hflowing := l.flowing (hchannel ▸ hopen)
    rw [hidle, Option.toList_none, List.append_nil] at hflowing
    rw [hchannel, hinHand, hflowing, List.append_assoc]
    rfl

/-- The reader takes up some messages, of which it counts the first one. -/
theorem takeUp (l : Ledger seen gone p) (hidle : p.inHand? = none) (ms : List M) :
    Ledger (seen ++ ms.take 1) gone (p.takeUp ms) := by
  cases ms with
  | nil =>
    rw [List.take_nil, List.append_nil]
    exact l.of_same rfl rfl hidle.symm id
  | cons m rest => exact l.count hidle rfl rfl rfl

/-- The reader goes on with what is left, of which it counts the first one. -/
theorem goOn (l : Ledger seen gone ({ p with reader := .leaving } : Processor M)) {m : M}
    (hinHand : p.inHand? = some m) (isSent : Bool) :
    Ledger (seen ++ p.reader.held.tail.take 1) gone (p.goOn isSent) := by
  cases hreader : p.reader with
  | sending =>
    simp only [Processor.goOn, hreader]
    show Ledger (seen ++ []) gone _
    rw [List.append_nil]
    refine l.of_same rfl rfl ?_ id
    cases isSent <;> rfl
  | forwarding m rest =>
    simp only [Processor.goOn, hreader]
    have hnext := l.takeUp rfl rest
    -- The phase that the reader comes from does not matter.
    cases rest with
    | nil => exact hnext
    | cons => exact hnext
  | _ =>
    rw [inHand?_eq, hreader] at hinHand
    cases hinHand

/-- The reader puts its message into the channel. -/
theorem hand (l : Ledger seen gone p) {m : M} (hinHand : p.inHand? = some m) :
    Ledger (seen ++ p.reader.held.tail.take 1) gone
      (({ p with channel.queue := p.channel.queue.push m } : Processor M).goOn true) := by
  have hmessages := Channel.messages_push p.channel m
  have hbalance := l.balance
  rw [hinHand] at hbalance
  let p' : Processor M := { p with channel.queue := p.channel.queue.push m }
  refine goOn (p := p') ⟨l.read, l.handled, ?_, l.order, ?_⟩ hinHand true
  · show p.read = p.handled + p.dropped + ({ p.channel with queue := _ } : Channel M).messages.length + 0
    rw [hmessages, List.length_append]
    exact hbalance
  · intro hopen
    have hflowing := l.flowing hopen
    rw [hinHand] at hflowing
    show seen = gone ++ (({ p.channel with queue := _ } : Channel M).messages ++ [])
    rw [hmessages, List.append_nil]
    exact hflowing

/-- Nobody will receive the message of the reader, and it is dropped. -/
theorem refuse (l : Ledger seen gone p) {m : M} (hinHand : p.inHand? = some m) (hclosed : p.channel.closed = true) :
    Ledger (seen ++ p.reader.held.tail.take 1) gone
      (({ p with dropped := p.dropped + 1 } : Processor M).goOn false) := by
  have hbalance := l.balance
  rw [hinHand] at hbalance
  refine goOn (p := { p with dropped := p.dropped + 1 }) ⟨l.read, l.handled, ?_, l.order, ?_⟩ hinHand false
  · show p.read = p.handled + (p.dropped + 1) + p.channel.messages.length + 0
    simp only [Option.toList_some, List.length_singleton] at hbalance
    omega
  · intro hopen
    cases hclosed.symm.trans hopen

/-- The handler receives a message. -/
theorem receive (l : Ledger seen gone p) {m : M} {channel : Channel M}
    (hreceive : p.channel.receive = some (m, channel)) (hopen : p.channel.closed = false)
    (phase : HandlerPhase M) :
    Ledger seen (gone ++ [m]) { p with channel, handled := p.handled + 1, handler := phase } := by
  have hmessages := Channel.messages_of_receive hreceive
  have hbalance := l.balance
  have hflowing := l.flowing hopen
  rw [hmessages] at hbalance hflowing
  have hsplit : seen = gone ++ [m] ++ (channel.messages ++ p.inHand?.toList) := by
    rw [hflowing, List.append_assoc]
    rfl
  constructor
  · exact l.read
  · show (gone ++ [m]).length = p.handled + 1
    rw [List.length_append, l.handled]
    rfl
  · show p.read = p.handled + 1 + p.dropped + channel.messages.length + p.inHand?.toList.length
    rw [List.length_cons] at hbalance
    omega
  · rw [hsplit]
    exact List.prefix_append _ _
  · exact fun _ => hsplit

/-- The handler that has asked to stop drops a message. -/
theorem discard (l : Ledger seen gone p) {m : M} {channel : Channel M}
    (hreceive : p.channel.receive = some (m, channel)) (hclosed : p.channel.closed = true) :
    Ledger seen gone { p with channel, dropped := p.dropped + 1 } := by
  have hmessages := Channel.messages_of_receive hreceive
  have hbalance := l.balance
  rw [hmessages, List.length_cons] at hbalance
  refine ⟨l.read, l.handled, ?_, l.order, fun hopen => ?_⟩
  · show p.read = p.handled + (p.dropped + 1) + channel.messages.length + p.inHand?.toList.length
    omega
  · cases ((Channel.closed_of_receive hreceive).trans hclosed).symm.trans hopen

/-- Nothing is dropped as long as the channel is open. -/
theorem dropped_eq_zero (l : Ledger seen gone p) (hopen : p.channel.closed = false) : p.dropped = 0 := by
  have hlength := congrArg List.length (l.flowing hopen)
  have hbalance := l.balance
  rw [List.length_append, List.length_append, l.read, l.handled] at hlength
  omega

/-- What was handed on are the messages that were counted first. -/
theorem gone_eq_take (l : Ledger seen gone p) : gone = seen.take p.handled := by
  rw [← l.handled]
  exact List.prefix_iff_eq_take.mp l.order

end Ledger

end Processor

namespace Inbox

variable {M : Type} {b b' : Inbox M} {event : Event M} {reply : Reply}

/-! ### What a history tells -/

/-- An event that happened to an inbox. -/
abbrev Happening (M : Type) : Type := Occurrence (Inbox M) (Event M) Reply

/-- What happens to a new inbox in a schedule. -/
def happenings (settings : ProcessorSettings) (events : List (Event M)) : List (Happening M) :=
  Schedule.occurrences step (ofSettings settings) events

/-- A new inbox after a schedule. -/
def afterEvents (settings : ProcessorSettings) (events : List (Event M)) : Inbox M :=
  Schedule.after step (ofSettings settings) events

/-- Whether a sending call returns that its message is accepted. -/
def Reply.isOk : Reply → Bool
  | .sent (.ok ()) => true
  | _ => false

/-- Whether the handler asks to stop with an event. -/
def Event.stops : Event M → Bool
  | .processor event => event.stops
  | _ => false

/-- The message that is accepted with an event: that of a call with a permit, which puts it into the channel. -/
def acceptedBy (s : Happening M) : List M :=
  match s.event with
  | .push call => (s.before.admitted.lookup call).toList
  | _ => []

/-- The message that an event calls the handler with. -/
def handedBy (s : Happening M) : List M :=
  match s.event, s.after.processor.handler with
  | .processor .receive, .handling m => [m]
  | _, _ => []

/-- What the sending calls had accepted, in order. -/
def accepted (h : List (Happening M)) : List M := h.flatMap acceptedBy

/-- What the handler was called with, in order. -/
def handedOn (h : List (Happening M)) : List M := h.flatMap handedBy

section

variable (h : List (Happening M)) (s : Happening M)

theorem accepted_snoc : accepted (h ++ [s]) = accepted h ++ acceptedBy s := by
  simp only [accepted, List.flatMap_append, List.flatMap_singleton]

theorem handedOn_snoc : handedOn (h ++ [s]) = handedOn h ++ handedBy s := by
  simp only [handedOn, List.flatMap_append, List.flatMap_singleton]

theorem handedBy_eq_nil (hnot : s.event ≠ .processor .receive) : handedBy s = [] := by
  rw [handedBy]
  split
  · next hevent _ => exact absurd hevent hnot
  · rfl

end

theorem Event.not_received_of_asks (hasks : event.asks = true) : event ≠ .processor .receive := by
  rintro rfl
  cases hasks

theorem acceptedBy_of_asks (hasks : event.asks = true) : acceptedBy ⟨b, event, reply, b'⟩ = [] := by
  cases event with
  | push => cases hasks
  | _ => rfl

/-- An event that moves no message calls the handler with none. -/
theorem handedBy_of_passed {inner : Processor.Event M} {answer : Processor.Reply} {processor : Processor M}
    (hwhich : event.StandsFor inner) (e : Processor.Effect b.processor inner answer processor)
    (a : Processor.Aside b.processor processor) :
    handedBy ⟨b, event, .processor answer, { b with processor }⟩ = [] := by
  rw [handedBy]
  split
  · next m hevent hhandling =>
    obtain rfl : event = .processor .receive := hevent
    have hbefore := a.handling m hhandling
    cases hwhich
    cases e with
    | ignored hcall => rcases hcall with ⟨hcall, -⟩ | ⟨hcall, -⟩ <;> cases hcall
    | received hreceiving => cases hreceiving.symm.trans hbefore
    | drained hreceiving => cases hreceiving.symm.trans hbefore
  · rfl

/-! ### The invariant -/

/-- The messages that are accepted and not counted as read. -/
def unread (b : Inbox M) : List M := b.processor.reader.held.tail ++ (b.taken ++ b.input.messages)

/-- The history of an inbox, and what was counted as read, fit the state. -/
structure Fed (seen : List M) (h : List (Happening M)) (b : Inbox M) : Prop where
  staged : b.Staged
  ledger : Processor.Ledger seen (handedOn h) b.processor
  accepted : accepted h = seen ++ b.unread
  stops : b.isRefusing = true ∨ b.processor.channel.closed = true → ∃ s ∈ h, s.event.stops = true
  count : (Inbox.accepted h).length = h.countP (·.reply.isOk)

namespace Fed

variable {seen : List M} {h : List (Happening M)}

theorem start (settings : ProcessorSettings) : Fed [] [] (ofSettings settings : Inbox M) where
  staged := .start settings
  ledger := ⟨rfl, rfl, rfl, List.prefix_rfl, fun _ => rfl⟩
  accepted := rfl
  stops hrefused := by
    rcases hrefused with hrefusing | hclosed
    · cases hrefusing
    · cases hclosed
  count := rfl

/-- An event that has an effect leads to a state that the history fits. -/
theorem next (f : Fed seen h b) (new : List M) (e : Effect b event reply b')
    (hledger : Processor.Ledger (seen ++ new) (handedOn h ++ handedBy ⟨b, event, reply, b'⟩) b'.processor)
    (hunread : b.unread ++ acceptedBy ⟨b, event, reply, b'⟩ = new ++ b'.unread)
    (hcount : (acceptedBy ⟨b, event, reply, b'⟩).length = if reply.isOk then 1 else 0)
    (hstops : b'.isRefusing = true ∨ b'.processor.channel.closed = true →
      (b.isRefusing = true ∨ b.processor.channel.closed = true) ∨ event.stops = true) :
    Fed (seen ++ new) (h ++ [⟨b, event, reply, b'⟩]) b' where
  staged := e.staged f.staged
  ledger := by
    rw [handedOn_snoc]
    exact hledger
  accepted := by rw [accepted_snoc, f.accepted, List.append_assoc, hunread, List.append_assoc]
  stops hrefused := by
    rcases hstops hrefused with hbefore | hnow
    · obtain ⟨s, hs, hstop⟩ := f.stops hbefore
      exact ⟨s, List.mem_append_left _ hs, hstop⟩
    · exact ⟨_, List.mem_append_right _ List.mem_cons_self, hnow⟩
  count := by rw [accepted_snoc, List.length_append, f.count, hcount, List.countP_append, List.countP_singleton]

/-- The same for an event with which nothing is counted as read and nothing handed on. -/
theorem beside (f : Fed seen h b) (e : Effect b event reply b')
    (hledger : Processor.Ledger seen (handedOn h) b'.processor) (hhanded : handedBy ⟨b, event, reply, b'⟩ = [])
    (hunread : b'.unread = b.unread ++ acceptedBy ⟨b, event, reply, b'⟩)
    (hcount : (acceptedBy ⟨b, event, reply, b'⟩).length = if reply.isOk then 1 else 0)
    (hstops : b'.isRefusing = true ∨ b'.processor.channel.closed = true →
      (b.isRefusing = true ∨ b.processor.channel.closed = true) ∨ event.stops = true) :
    ∃ seen', Fed seen' (h ++ [⟨b, event, reply, b'⟩]) b' := by
  refine ⟨seen ++ [], f.next [] e ?_ hunread.symm hcount hstops⟩
  rw [hhanded, List.append_nil, List.append_nil]
  exact hledger

/-- The senders do something that puts nothing into their channel. -/
theorem asked (f : Fed seen h b) (e : Effect b event reply b') (hasks : event.asks = true)
    (hanswer : reply.isOk = false) (hprocessor : b'.processor = b.processor) (hrefusing : b'.isRefusing = b.isRefusing)
    (hunread : b'.unread = b.unread) : ∃ seen', Fed seen' (h ++ [⟨b, event, reply, b'⟩]) b' := by
  refine f.beside e (hprocessor ▸ f.ledger) (handedBy_eq_nil _ (Event.not_received_of_asks hasks)) ?_ ?_ ?_
  · rw [acceptedBy_of_asks hasks, List.append_nil, hunread]
  · rw [acceptedBy_of_asks hasks, hanswer]
    rfl
  · rw [hprocessor, hrefusing]
    exact .inl

/-- The message of the reader is sent or refused, and the reader goes on. -/
theorem goOn (f : Fed seen h b) (e : Effect b event .quiet b') {m : M} (hinHand : b.processor.inHand? = some m)
    {p : Processor M} {isSent : Bool} (hreader : p.reader = b.processor.reader)
    (hprocessor : b'.processor = p.goOn isSent)
    (hledger : Processor.Ledger (seen ++ b.processor.reader.held.tail.take 1) (handedOn h) (p.goOn isSent))
    (hhanded : handedBy ⟨b, event, .quiet, b'⟩ = []) (haccepted : acceptedBy ⟨b, event, .quiet, b'⟩ = [])
    (hrest : b'.taken ++ b'.input.messages = b.taken ++ b.input.messages)
    (hstops : b'.isRefusing = b.isRefusing ∧ p.channel.closed = b.processor.channel.closed) :
    ∃ seen', Fed seen' (h ++ [⟨b, event, .quiet, b'⟩]) b' := by
  refine ⟨_, f.next (b.processor.reader.held.tail.take 1) e ?_ ?_ ?_ ?_⟩
  · rw [hhanded, List.append_nil, hprocessor]
    exact hledger
  · have hsame : p.inHand? = some m := by rw [Processor.inHand?_eq, hreader, ← Processor.inHand?_eq, hinHand]
    rw [haccepted, unread, unread, hprocessor, Processor.tail_held_goOn hsame, hreader, hrest, List.append_nil,
      ← List.append_assoc _ _ (b.taken ++ b.input.messages), Processor.take_one_append_tail]
  · rw [haccepted]
    rfl
  · rw [hprocessor, Processor.channel_goOn, hstops.1, hstops.2]
    exact .inl

/-- Every event keeps the account. -/
theorem effect (f : Fed seen h b) (e : Effect b event reply b') :
    ∃ seen', Fed seen' (h ++ [⟨b, event, reply, b'⟩]) b' := by
  have e' := e
  cases e with
  | refused hasks => exact f.asked e' hasks rfl rfl rfl rfl
  | admitted hasks => exact f.asked e' hasks rfl rfl rfl rfl
  | aside hasks => exact f.asked e' hasks rfl rfl rfl rfl
  | @pushed call message hlookup =>
    have hby : ∀ b', acceptedBy ⟨b, .push call, .sent (.ok ()), b'⟩ = [message] := by
      intro b'
      show (b.admitted.lookup call).toList = _
      rw [hlookup]
      rfl
    refine f.beside e' f.ledger rfl ?_ (by rw [hby]; rfl) .inl
    rw [hby, unread, unread, List.append_assoc, List.append_assoc]
    exact congrArg _ (congrArg _ (Channel.messages_push _ _))
  | @read message input hreading hreceive =>
    have hheld : b.processor.reader.held = [] := by rw [hreading]; rfl
    let p : Processor M := { b.processor with read := b.processor.read + 1, reader := .sending message }
    have hcounted : Processor.Ledger (seen ++ [message]) (handedOn h) p :=
      f.ledger.count (Processor.inHand?_eq_none hheld) rfl rfl rfl
    refine ⟨_, f.next [message] e' ?_ ?_ rfl .inl⟩
    · rw [show handedBy _ = [] from rfl, List.append_nil]
      exact hcounted
    · show b.unread ++ [] = [message] ++ ([] ++ (b.taken ++ input.messages))
      rw [unread, hheld, f.staged.untaken (by rw [hreading]; nofun), Channel.messages_of_receive hreceive]
      simp
  | shut => exact f.beside e' f.ledger rfl (List.append_nil _).symm rfl .inl
  | @took message input hleaving hclosed hreceive =>
    refine f.beside e' f.ledger rfl ?_ rfl .inl
    show b.processor.reader.held.tail ++ (b.taken ++ [message] ++ input.messages) = b.unread ++ []
    rw [unread, Channel.messages_of_receive hreceive, List.append_nil, List.append_assoc b.taken]
    rfl
  | gathered hleaving =>
    have hheld : b.processor.reader.held = [] := by rw [hleaving]; rfl
    refine ⟨_, f.next (b.taken.take 1) e' ?_ ?_ rfl ?_⟩
    · rw [show handedBy _ = [] from rfl, List.append_nil]
      exact f.ledger.takeUp (Processor.inHand?_eq_none hheld) b.taken
    · show b.unread ++ [] =
        b.taken.take 1 ++ ((b.processor.takeUp b.taken).reader.held.tail ++ ([] ++ b.input.messages))
      rw [Processor.tail_held_takeUp, unread, hheld, ← List.append_assoc (b.taken.take 1),
        Processor.take_one_append_tail, List.append_nil]
      rfl
    · rw [Processor.channel_takeUp]
      exact .inl
  | permitted => exact f.beside e' f.ledger rfl (List.append_nil _).symm rfl .inl
  | denied _ hinHand hclosed =>
    exact f.goOn (p := { b.processor with dropped := b.processor.dropped + 1 }) e' hinHand rfl rfl
      (f.ledger.refuse hinHand hclosed) rfl rfl rfl ⟨rfl, rfl⟩
  | @handed m _ hinHand =>
    exact f.goOn (p := { b.processor with channel.queue := b.processor.channel.queue.push m }) e' hinHand rfl rfl
      (f.ledger.hand hinHand) rfl rfl rfl ⟨rfl, rfl⟩
  | @received message channel hreceiving hreceive =>
    have hopen := f.staged.open_of_receiving hreceiving
    have hreceived := f.ledger.receive hreceive hopen (.handling message)
    refine ⟨seen ++ [], f.next [] e' ?_ (List.append_nil _) rfl ?_⟩
    · rw [List.append_nil]
      exact hreceived
    · show _ ∨ channel.closed = true → _
      rw [Channel.closed_of_receive hreceive]
      exact .inl
  | stopping =>
    exact f.beside e' (f.ledger.of_same rfl rfl rfl id) rfl (List.append_nil _).symm rfl fun _ => .inr rfl
  | barred hrefusing =>
    refine f.beside e' (f.ledger.of_same rfl rfl rfl ?_) rfl (List.append_nil _).symm rfl fun _ => .inl (.inl hrefusing)
    intro hopen
    cases hopen
  | discarded hrefusing hclosed hreceive =>
    have hdiscarded := f.ledger.discard hreceive hclosed
    exact f.beside e' hdiscarded rfl (List.append_nil _).symm rfl fun _ => .inl (.inl hrefusing)
  | emptied hrefusing =>
    exact f.beside e' (f.ledger.of_same rfl rfl rfl id) rfl (List.append_nil _).symm rfl fun _ => .inl (.inl hrefusing)
  | @passed _ inner answer processor hwhich hwhole hbusy e a =>
    have hinHand : processor.inHand? = b.processor.inHand? := by
      rw [Processor.inHand?_eq, a.held, ← Processor.inHand?_eq]
    have haccepted : acceptedBy ⟨b, event, .processor answer, { b with processor }⟩ = [] := by cases hwhich <;> rfl
    refine f.beside e' (f.ledger.of_same a.stats (by rw [a.channel]) hinHand (by rw [a.channel]; exact id))
      (handedBy_of_passed hwhich e a) ?_ ?_ ?_
    · rw [haccepted, List.append_nil, unread, unread, a.held]
    · rw [haccepted]
      rfl
    · rw [a.channel]
      exact .inl

end Fed

/-- Every schedule keeps the account. -/
theorem fed (settings : ProcessorSettings) (events : List (Event M)) :
    ∃ seen, Fed seen (happenings settings events) (afterEvents settings events) := by
  refine Schedule.induction (P := fun h b => ∃ seen, Fed seen h b) ⟨[], .start settings⟩ ?_ events
  rintro h b event reply b' ⟨seen, f⟩ hstep
  exact f.effect (step_effect hstep)

/-! ### Senders that are too late -/

theorem Effect.closed (e : Effect b event reply b') (hclosed : b.input.closed = true) : b'.input.closed = true := by
  cases e with
  | shut => rfl
  | read _ hreceive => exact (Channel.closed_of_receive hreceive).trans hclosed
  | took _ _ hreceive => exact (Channel.closed_of_receive hreceive).trans hclosed
  | _ => exact hclosed

/-- A closed channel gives no permit, and the senders learn that it is closed, unless they have one. -/
theorem Effect.refuses (e : Effect b event reply b') (hclosed : b.input.closed = true) :
    (if reply.isOk then 1 else 0) + b'.admitted.length ≤ b.admitted.length ∧
      ∀ result, reply = .sent result → result = .ok () ∨ result = .error .shutdown := by
  cases e with
  | refused _ hfault =>
    refine ⟨Nat.le_of_eq (Nat.zero_add _), fun result hresult => .inr ?_⟩
    cases hresult
    rw [hfault hclosed]
  | admitted _ hopen => cases hopen.symm.trans hclosed
  | @pushed call message hlookup =>
    have hmem : (call, message) ∈ b.admitted := Channel.mem_of_lookup hlookup
    have hpos := List.length_pos_of_mem hmem
    have hlength : (b.admitted.eraseP (·.1 == call)).length = b.admitted.length - 1 :=
      List.length_eraseP_of_mem hmem (beq_self_eq_true call)
    refine ⟨?_, fun result hresult => ?_⟩
    · show 1 + (b.admitted.eraseP (·.1 == call)).length ≤ _
      omega
    · cases hresult
      exact .inl rfl
  | _ => exact ⟨Nat.le_of_eq (Nat.zero_add _), nofun⟩

/-- Once the channel is closed, the sending calls that return say that the processor has shut down, but for those that
have a permit. -/
theorem refused_of_closed (hclosed : b.input.closed = true) (events : List (Event M)) :
    let late := Schedule.occurrences step b events
    late.countP (·.reply.isOk) ≤ b.admitted.length ∧
      ∀ s ∈ late, ∀ result, s.reply = .sent result → result = .ok () ∨ result = .error .shutdown := by
  let P (h : List (Happening M)) (c : Inbox M) : Prop :=
    c.input.closed = true ∧ h.countP (·.reply.isOk) + c.admitted.length ≤ b.admitted.length ∧
      ∀ s ∈ h, ∀ result, s.reply = .sent result → result = .ok () ∨ result = .error .shutdown
  have hkeep : ∀ h c event reply c', P h c → c.step event = some (reply, c') →
      P (h ++ [⟨c, event, reply, c'⟩]) c' := by
    rintro h c event reply c' ⟨hshut, hcount, hall⟩ hstep
    have e := step_effect hstep
    obtain ⟨hone, hresult⟩ := e.refuses hshut
    refine ⟨e.closed hshut, ?_, fun s hs => ?_⟩
    · rw [List.countP_append, List.countP_singleton, Nat.add_assoc]
      exact Nat.le_trans (Nat.add_le_add_left hone _) hcount
    · rcases List.mem_append.mp hs with hs | hs
      · exact hall s hs
      · obtain rfl := List.mem_singleton.mp hs
        exact hresult
  have hstart : P [] b := ⟨hclosed, Nat.le_of_eq (Nat.zero_add _), fun _ hs => absurd hs List.not_mem_nil⟩
  obtain ⟨-, hcount, hall⟩ := Schedule.induction (P := P) hstart hkeep events
  exact ⟨Nat.le_trans (Nat.le_add_right _ _) hcount, hall⟩

/-! ### Permits that are used too late -/

/-- When the reader finds the channel empty that it has closed, no sending call has a permit, and when the handler
does, the reader has none. -/
def DrainedDry (h : List (Happening M)) : Prop :=
  ∀ s ∈ h, (s.event = .take → s.before.input.messages = [] → s.before.admitted = []) ∧
    (s.event = .discard → s.before.processor.channel.messages = [] → s.before.isPermitted = false)

/-- Nothing is left behind. -/
structure Dry (b : Inbox M) : Prop where
  /-- The reader that has gathered what was left has left nothing, and nobody will add something. -/
  senders : b.processor.reader.hasGathered = true → b.input.messages = [] ∧ b.admitted = []
  /-- Neither has the handler at its end, to which the reader will send nothing. -/
  tasks : b.processor.handler.isLast → b.processor.channel.messages = [] ∧ b.isPermitted = false

theorem Effect.dry_senders (e : Effect b event reply b') (d : b.Dry) (g : b.Staged)
    (hdry : event = .take → b.input.messages = [] → b.admitted = [])
    (hgathered : b'.processor.reader.hasGathered = true) : b'.input.messages = [] ∧ b'.admitted = [] := by
  cases e with
  | refused => exact d.senders hgathered
  | admitted _ hopen => cases hopen.symm.trans (g.gathered hgathered)
  | aside => exact d.senders hgathered
  | pushed hlookup =>
    rw [(d.senders hgathered).2] at hlookup
    cases hlookup
  | read => cases hgathered
  | shut hleaving =>
    rw [hleaving] at hgathered
    cases hgathered
  | took hleaving =>
    rw [hleaving] at hgathered
    cases hgathered
  | gathered _ _ hnone => exact ⟨hnone, hdry rfl hnone⟩
  | permitted => exact d.senders hgathered
  | denied =>
    let p : Processor M := { b.processor with dropped := b.processor.dropped + 1 }
    exact d.senders (Processor.hasGathered_of_goOn (p := p) hgathered)
  | @handed m =>
    let p : Processor M := { b.processor with channel.queue := b.processor.channel.queue.push m }
    exact d.senders (Processor.hasGathered_of_goOn (p := p) hgathered)
  | received => exact d.senders hgathered
  | stopping => exact d.senders hgathered
  | barred => exact d.senders hgathered
  | discarded => exact d.senders hgathered
  | emptied => exact d.senders hgathered
  | passed _ _ _ _ a => exact d.senders (a.hasGathered hgathered)

theorem Effect.dry_tasks (e : Effect b event reply b') (d : b.Dry) (g : b.Staged)
    (hdry : event = .discard → b.processor.channel.messages = [] → b.isPermitted = false)
    (hlast : b'.processor.handler.isLast) : b'.processor.channel.messages = [] ∧ b'.isPermitted = false := by
  cases e with
  | refused => exact d.tasks hlast
  | admitted => exact d.tasks hlast
  | aside => exact d.tasks hlast
  | pushed => exact d.tasks hlast
  | read => exact d.tasks hlast
  | shut => exact d.tasks hlast
  | took => exact d.tasks hlast
  | gathered =>
    rw [Processor.handler_takeUp] at hlast
    rw [Processor.channel_takeUp]
    exact d.tasks hlast
  | permitted _ hinHand hopen => cases hopen.symm.trans (g.closed_of_inHand hinHand hlast)
  | denied =>
    rw [Processor.handler_goOn] at hlast
    rw [Processor.channel_goOn]
    exact d.tasks hlast
  | handed hpermitted =>
    rw [Processor.handler_goOn] at hlast
    cases (d.tasks hlast).2.symm.trans hpermitted
  | received => exact hlast.elim
  | stopping => exact d.tasks hlast
  | barred => exact d.tasks hlast
  | discarded hrefusing => exact absurd hlast (g.not_last_of_refusing hrefusing)
  | emptied _ _ hnone => exact ⟨hnone, hdry rfl hnone⟩
  | passed _ _ _ _ a =>
    rw [a.channel]
    rcases a.isLast hlast with hbefore | ⟨hnone, hended⟩
    · exact d.tasks hbefore
    · refine ⟨hnone, Bool.eq_false_iff.mpr fun hpermitted => g.permitted hpermitted ?_⟩
      exact Processor.inHand?_eq_none (by rw [hended]; rfl)

/-- If nobody has a permit when a closed channel is found empty, nothing is left behind. -/
theorem dry (settings : ProcessorSettings) (events : List (Event M)) (hdry : DrainedDry (happenings settings events)) :
    (afterEvents settings events).Dry := by
  let P (h : List (Happening M)) (b : Inbox M) : Prop := b.Staged ∧ (DrainedDry h → b.Dry)
  have hkeep : ∀ h b event reply b', P h b → b.step event = some (reply, b') →
      P (h ++ [⟨b, event, reply, b'⟩]) b' := by
    rintro h b event reply b' ⟨g, hearlier⟩ hstep
    have e := step_effect hstep
    refine ⟨e.staged g, fun hall => ?_⟩
    have d := hearlier fun s hs => hall s (List.mem_append_left _ hs)
    obtain ⟨htake, hdiscard⟩ := hall _ (List.mem_append_right _ List.mem_cons_self)
    exact ⟨e.dry_senders d g htake, e.dry_tasks d g hdiscard⟩
  have hstart : P [] (ofSettings settings : Inbox M) := by
    refine ⟨.start settings, fun _ => ⟨fun hgathered => ?_, fun hlast => hlast.elim⟩⟩
    cases hgathered
  exact (Schedule.induction (P := P) hstart hkeep events).2 hdry

/-! ### Conservation -/

/-- When the processor has ended, what the sending calls had accepted is what it has read, followed by what was put
into the channel of the senders too late. The handler was called with what was read in the order of its acceptance,
with all of it unless the handler asked to stop, and the others were dropped but for what was put into its channel too
late. Sending calls that return later say that the processor has shut down, but for those that have a permit. If nobody
had one when a closed channel was found empty, what was read is all that was accepted, what was not handled was
dropped, and every sending call that returns later is refused. -/
theorem sent_accounted (settings : ProcessorSettings) (events later : List (Event M))
    (hended : (afterEvents settings events).processor.isRunning = false) :
    let h := happenings settings events
    let b := afterEvents settings events
    let p := b.processor
    let late := Schedule.occurrences step b later
    (accepted h).length = h.countP (·.reply.isOk) ∧
      p.read + b.input.messages.length = (accepted h).length ∧
      accepted h = (accepted h).take p.read ++ b.input.messages ∧
      handedOn h = (accepted h).take p.handled ∧
      p.read = p.handled + p.dropped + p.channel.messages.length ∧
      ((∀ s ∈ h, s.event.stops = false) → handedOn h = (accepted h).take p.read ∧ p.dropped = 0) ∧
      late.countP (·.reply.isOk) ≤ b.admitted.length ∧
      (∀ s ∈ late, ∀ result, s.reply = .sent result → result = .ok () ∨ result = .error .shutdown) ∧
      (DrainedDry h →
        p.read = h.countP (·.reply.isOk) ∧ (accepted h).take p.read = accepted h ∧
          p.read = p.handled + p.dropped ∧
          ∀ s ∈ late, ∀ result, s.reply = .sent result → result = .error .shutdown) := by
  intro h b p late
  obtain ⟨seen, f⟩ : ∃ seen, Fed seen h b := fed settings events
  obtain ⟨hreader, hhandler⟩ := Processor.isRunning_eq_false_iff.mp hended
  have hheld : p.reader.held = [] := by rw [hreader]; rfl
  have hgathered : p.reader.hasGathered = true := by rw [hreader]; rfl
  have hlast : p.handler.isLast := by rw [hhandler]; trivial
  have l := f.ledger
  have hidle : p.inHand? = none := Processor.inHand?_eq_none hheld
  have hall : accepted h = seen ++ b.input.messages := by
    rw [f.accepted, unread, hheld, f.staged.untaken (by rw [hreader]; nofun)]
    rfl
  have hseen : (accepted h).take p.read = seen := by
    rw [hall, ← l.read, List.take_left]
  have hbalance : p.read = p.handled + p.dropped + p.channel.messages.length := by
    have hbalance := l.balance
    rw [hidle] at hbalance
    exact hbalance
  obtain ⟨hcount, hlate⟩ := refused_of_closed (f.staged.gathered hgathered) later
  refine ⟨f.count, ?_, ?_, ?_, hbalance, fun hgo => ?_, hcount, hlate, fun hdry => ?_⟩
  · rw [hall, List.length_append, l.read]
  · rw [hseen, hall]
  · have hread : seen.length = p.read := l.read
    have hle : p.handled ≤ seen.length := by omega
    rw [hall, List.take_append_of_le_length hle]
    exact l.gone_eq_take
  · have hopen : p.channel.closed = false := by
      refine Bool.eq_false_iff.mpr fun hclosed => ?_
      obtain ⟨s, hs, hstops⟩ := f.stops (.inr hclosed)
      cases (hgo s hs).symm.trans hstops
    have hnone : p.channel.messages = [] := by
      rcases f.staged.last hlast with hclosed | ⟨hnone, -⟩
      · cases hopen.symm.trans hclosed
      · exact hnone
    have hflowing := l.flowing hopen
    rw [hnone, hidle, Option.toList_none, List.append_nil, List.append_nil] at hflowing
    exact ⟨hflowing.symm.trans hseen.symm, l.dropped_eq_zero hopen⟩
  · have d := dry settings events hdry
    obtain ⟨hnone, hunused⟩ := d.senders hgathered
    have hwhole : accepted h = seen := by rw [hall, hnone, List.append_nil]
    refine ⟨?_, by rw [hseen, hwhole], ?_, fun s hs result hresult => ?_⟩
    · rw [← f.count, hwhole, l.read]
    · rw [(d.tasks hlast).1] at hbalance
      exact hbalance
    · refine (hlate s hs result hresult).resolve_left fun hok => ?_
      rw [hunused] at hcount
      have hnever := List.countP_eq_zero.mp (Nat.le_zero.mp hcount) s hs
      rw [hresult, hok] at hnever
      exact hnever rfl

/-- A schedule in which senders wait for room, the handler asks to stop, and one sender still waits. -/
def lateSenders : List (Event Nat) :=
  [.trySend 0 10, .push 0, .send 1 20, .send 2 30, .processor .look, .read, .ask, .hand, .resumeSend 1,
    .processor .receive, .push 1, .cancelSend 2, .processor .look, .read, .ask, .hand, .trySend 4 40, .push 4,
    .send 3 50, .processor (.handleReturns .stop), .bar, .discard, .discard, .processor .look, .shut, .take, .take,
    .ask, .processor .readerFinishes, .processor .handlerFinishes]

theorem sent_accounted_lateSenders :
    let h := happenings ⟨1⟩ lateSenders
    let b := afterEvents ⟨1⟩ lateSenders
    b.processor.isRunning = false ∧ b.processor.stats = ⟨3, 1, 2⟩ ∧ accepted h = [10, 20, 40] ∧
      handedOn h = [10] ∧ b.processor.read + b.input.messages.length = (accepted h).length ∧
      handedOn h = (accepted h).take b.processor.handled ∧
      ∀ s ∈ Schedule.occurrences step b [.resumeSend 3, .trySend 6 60], ∀ result, s.reply = .sent result →
        result = .ok () ∨ result = .error .shutdown := by
  intro h b
  have hended : b.processor.isRunning = false := by decide +kernel
  obtain ⟨-, hcount, -, hfirst, -, -, -, hlate, -⟩ :=
    sent_accounted ⟨1⟩ lateSenders [.resumeSend 3, .trySend 6 60] hended
  exact ⟨hended, by decide +kernel, by decide +kernel, by decide +kernel, hcount, hfirst, hlate⟩

/-- A call gets its permit, the processor is stopped, and the reader closes the channel and finds it empty before the
call puts its message into it. -/
def latePush : List (Event Nat) :=
  [.trySend 0 10, .processor (.stop 1), .processor .look, .shut, .take, .push 0, .processor .readerFinishes,
    .processor .receive, .processor .handlerFinishes]

/-- The call returns that its message is accepted, and the processor ends without having read it. -/
theorem unread_latePush :
    let h := happenings ⟨1⟩ latePush
    let b := afterEvents ⟨1⟩ latePush
    b.processor.isRunning = false ∧ h.countP (·.reply.isOk) = 1 ∧ accepted h = [10] ∧
      b.processor.stats = ⟨0, 0, 0⟩ ∧
      b.input.messages = [10] := by
  decide +kernel

/-- The reader gets its permit, and the handler asks to stop and finds its channel empty before the reader puts the
message into it. -/
def lateHand : List (Event Nat) :=
  [.trySend 0 10, .push 0, .processor .look, .read, .ask, .hand, .processor .receive, .trySend 1 20, .push 1,
    .processor .look, .read, .ask, .processor (.handleReturns .stop), .bar, .discard, .hand, .processor .look, .shut,
    .take, .processor .readerFinishes, .processor .handlerFinishes]

-- Two messages are read, one of them is handled and none is dropped.
example :
    let b := afterEvents ⟨1⟩ lateHand
    b.processor.isRunning = false ∧ b.processor.stats = ⟨2, 1, 0⟩ ∧ b.processor.channel.messages = [20] := by
  decide +kernel

end Inbox

end Sluice
