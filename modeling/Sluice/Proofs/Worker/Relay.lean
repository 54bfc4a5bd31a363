import Sluice.Proofs.Schedule
import Sluice.Proofs.Worker.Ending
import Sluice.Worker.Inbox

/-!
# What an event can do to an inbox

Some events of a processor are several accesses to the channel between its tasks: a message is offered, which is a
permit and a push, or the handler that asks to stop closes the channel and empties it. An inbox takes these events
apart (`Event.isSplit`), and the others move no message but for the one that the handler receives (`Aside`).

`Inbox.Effect` lists the ways in which an event changes an inbox, and `step_effect` says that every event that can
happen has one of these effects. `Staged` is what the phases of the two tasks say about the two channels, in every
schedule: a reader that has gathered what was left has closed the channel of the senders, only a handler that has
asked to stop closes the other one, and it comes to its end only if it has closed it or if the reader has ended and
nothing is left.

If nothing comes between the accesses of one event of the processor, they are that event: `read_undisturbed`,
`forward_undisturbed` and `refuse_undisturbed`.
-/

namespace Sluice

namespace Processor

variable {M : Type} {p p' : Processor M} {event : Event M} {reply : Reply}

/-! ### The message that the reader is sending -/

theorem inHand?_eq (p : Processor M) : p.inHand? = p.reader.held.head? := by
  rw [inHand?]
  cases p.reader <;> rfl

theorem inHand?_eq_none (hheld : p.reader.held = []) : p.inHand? = none := by
  rw [inHand?_eq, hheld]
  rfl

@[simp]
theorem channel_takeUp (p : Processor M) (ms : List M) : (p.takeUp ms).channel = p.channel := by
  cases ms <;> rfl

@[simp]
theorem handler_takeUp (p : Processor M) (ms : List M) : (p.takeUp ms).handler = p.handler := by
  cases ms <;> rfl

@[simp]
theorem channel_goOn (p : Processor M) (isSent : Bool) : (p.goOn isSent).channel = p.channel := by
  rw [goOn]
  split
  · rfl
  · exact channel_takeUp p _
  · rfl

@[simp]
theorem handler_goOn (p : Processor M) (isSent : Bool) : (p.goOn isSent).handler = p.handler := by
  rw [goOn]
  split
  · rfl
  · exact handler_takeUp p _
  · rfl

@[simp]
theorem tail_held_takeUp (p : Processor M) (ms : List M) : (p.takeUp ms).reader.held.tail = ms.tail := by
  cases ms <;> rfl

/-- A reader that goes on with what is left has one message less before it. -/
theorem tail_held_goOn {m : M} (h : p.inHand? = some m) (isSent : Bool) :
    (p.goOn isSent).reader.held.tail = p.reader.held.tail.tail := by
  cases hreader : p.reader with
  | sending =>
    simp only [goOn, hreader]
    cases isSent <;> rfl
  | forwarding m rest =>
    simp only [goOn, hreader]
    exact tail_held_takeUp p rest
  | _ =>
    rw [inHand?_eq, hreader] at h
    cases h

/-- A reader that goes on has gathered what was left if it had before. -/
theorem hasGathered_of_goOn {isSent : Bool} (h : (p.goOn isSent).reader.hasGathered = true) :
    p.reader.hasGathered = true := by
  rw [goOn] at h
  split at h
  · cases isSent <;> cases h
  · next hforwarding =>
    rw [hforwarding]
    rfl
  · exact h

/-- A reader that is sending a message is neither about to gather what is left nor at its end. -/
theorem phase_of_inHand {m : M} (h : p.inHand? = some m) : p.reader ≠ .leaving ∧ p.reader ≠ .ended := by
  rw [inHand?_eq] at h
  constructor
  · intro hleaving
    rw [hleaving] at h
    cases h
  · intro hended
    rw [hended] at h
    cases h

/-! ### Events that move no message -/

/-- Whether an event is taken apart into several accesses, of which one may move a message. -/
def Event.isSplit : Event M → Bool
  | .readReturns (some _) => true
  | .sendResumes => true
  | .takePending _ => true
  | .handleReturns .stop => true
  | _ => false

/-- The messages and the counters stay what they are, and the tasks go on at most. -/
structure Aside (p p' : Processor M) : Prop where
  channel : p'.channel = p.channel
  stats : p'.stats = p.stats
  held : p'.reader.held = p.reader.held
  hasGathered : p'.reader.hasGathered = true → p.reader.hasGathered = true
  leaving : p.reader = .leaving → p'.reader = .leaving
  ended : p.reader = .ended → p'.reader = .ended
  handling : ∀ m, p'.handler = .handling m → p.handler = .handling m
  isLast : p'.handler.isLast → p.handler.isLast ∨ p.channel.messages = [] ∧ p.reader = .ended

namespace Aside

/-- The tasks are where they were. -/
theorem of_same (hchannel : p'.channel = p.channel) (hstats : p'.stats = p.stats) (hreader : p'.reader = p.reader)
    (hhandler : p'.handler = p.handler) : Aside p p' where
  channel := hchannel
  stats := hstats
  held := congrArg _ hreader
  hasGathered h := hreader ▸ h
  leaving h := hreader.trans h
  ended h := hreader.trans h
  handling _ h := hhandler ▸ h
  isLast h := .inl (hhandler ▸ h)

theorem stopIfForsaken (a : Aside p p') : Aside p p'.stopIfForsaken := by
  rcases p'.stopIfForsaken_eq with h | h
  · exact h.symm ▸ a
  · rw [h]
    exact ⟨a.channel, a.stats, a.held, a.hasGathered, a.leaving, a.ended, a.handling, a.isLast⟩

/-- A reader that holds nothing, and is neither about to gather what is left nor at its end, goes on. -/
theorem of_reader {phase : ReaderPhase M} (hheld : phase.held = p.reader.held)
    (hgathered : phase.hasGathered = true → p.reader.hasGathered = true) (hleaving : p.reader ≠ .leaving)
    (hended : p.reader ≠ .ended) : Aside p { p with reader := phase } where
  channel := rfl
  stats := rfl
  held := hheld
  hasGathered := hgathered
  leaving h := absurd h hleaving
  ended h := absurd h hended
  handling _ h := h
  isLast h := .inl h

theorem of_handler {phase : HandlerPhase M} (hhandling : ∀ m, phase = .handling m → p.handler = .handling m)
    (hlast : phase.isLast → p.handler.isLast ∨ p.channel.messages = [] ∧ p.reader = .ended) :
    Aside p { p with handler := phase } where
  channel := rfl
  stats := rfl
  held := rfl
  hasGathered h := h
  leaving h := h
  ended h := h
  handling := hhandling
  isLast := hlast

end Aside

/-- An event that is not taken apart moves no message, or the handler receives one. -/
theorem Effect.aside_or_received (e : Effect p event reply p') (hwhole : event.isSplit = false) :
    Aside p p' ∨ event = .receive ∧ reply = .quiet ∧ p.handler = .receiving ∧ ∃ m channel,
      p.channel.receive = some (m, channel) ∧
        p' = { p with channel, handled := p.handled + 1, handler := .handling m } := by
  cases e with
  | joined => exact .inl (Aside.stopIfForsaken (.of_same rfl rfl rfl rfl))
  | cancelled => exact .inl (Aside.stopIfForsaken (.of_same rfl rfl rfl rfl))
  | released => exact .inl (Aside.stopIfForsaken (.of_same rfl rfl rfl rfl))
  | begun h => exact .inl (.of_reader (by rw [h]; rfl) nofun (by rw [h]; nofun) (by rw [h]; nofun))
  | held h => exact .inl (.of_reader (by rw [h]; rfl) nofun (by rw [h]; nofun) (by rw [h]; nofun))
  | left h => exact .inl (.of_reader (by rw [h]; rfl) nofun (by rw [h]; nofun) (by rw [h]; nofun))
  | unpaused h => exact .inl (.of_reader (by rw [h]; rfl) nofun (by rw [h]; nofun) (by rw [h]; nofun))
  | exhausted h => exact .inl (.of_reader (by rw [h]; rfl) nofun (by rw [h]; nofun) (by rw [h]; nofun))
  | readCancelled h => exact .inl (.of_reader (by rw [h]; rfl) nofun (by rw [h]; nofun) (by rw [h]; nofun))
  | readerFinished h =>
    exact .inl (.of_reader (by rw [h]; rfl) (fun _ => by rw [h]; rfl) (by rw [h]; nofun) (by rw [h]; nofun))
  | received hreceiving hreceive => exact .inr ⟨rfl, rfl, hreceiving, _, _, hreceive, rfl⟩
  | drained _ hnone hended => exact .inl (.of_handler nofun fun _ => .inr ⟨hnone, hended⟩)
  | handled => exact .inl (.of_handler nofun False.elim)
  | handlerFinished h => exact .inl (.of_handler nofun fun _ => .inl (by rw [h]; trivial))
  | read => cases hwhole
  | sent => cases hwhole
  | refused => cases hwhole
  | forwarded => cases hwhole
  | forwardRefused => cases hwhole
  | gathered => cases hwhole
  | stopped => cases hwhole
  | _ => exact .inl (.of_same rfl rfl rfl rfl)

/-- A handler that is handling a message does so until it is done. -/
theorem Effect.handling_stays (e : Effect p event reply p') (hwhole : event.isSplit = false)
    (hnot : event ≠ .handleReturns .continue) {m : M} (hhandling : p.handler = .handling m) :
    p'.handler = .handling m := by
  cases e with
  | joined =>
    rw [handler_stopIfForsaken]
    exact hhandling
  | cancelled =>
    rw [handler_stopIfForsaken]
    exact hhandling
  | released =>
    rw [handler_stopIfForsaken]
    exact hhandling
  | received hreceiving => cases hreceiving.symm.trans hhandling
  | drained hreceiving => cases hreceiving.symm.trans hhandling
  | handled => exact absurd rfl hnot
  | handlerFinished hfinishing => cases hfinishing.symm.trans hhandling
  | read => cases hwhole
  | sent => cases hwhole
  | refused => cases hwhole
  | forwarded => cases hwhole
  | forwardRefused => cases hwhole
  | gathered => cases hwhole
  | stopped => cases hwhole
  | _ => exact hhandling

end Processor

namespace Inbox

variable {M : Type} {b b' : Inbox M} {event : Event M} {reply : Reply}

/-! ### The effects -/

/-- Whether an event is one of the senders that puts nothing into their channel. -/
def Event.asks : Event M → Bool
  | .send _ _ => true
  | .trySend _ _ => true
  | .resumeSend _ => true
  | .cancelSend _ => true
  | .copySender => true
  | .closeSender => true
  | _ => false

/-- The event of the processor that an event of its inbox stands for. -/
inductive Event.StandsFor : Event M → Processor.Event M → Prop
  | processor {inner : Processor.Event M} : StandsFor (.processor inner) inner
  | read : StandsFor .read (.readReturns none)

/-- The changes that an event can make, with its answer. -/
inductive Effect (b : Inbox M) : Event M → Reply → Inbox M → Prop
  | refused {event : Event M} {fault : WorkerError} {waiting : List (CallId × M)} :
      event.asks = true → (b.input.closed = true → fault = .shutdown) →
      Effect b event (.sent (.error fault)) { b with input.waiting := waiting }
  /-- A sending call gets a permit. -/
  | admitted {event : Event M} {call : CallId} {message : M} {waiting : List (CallId × M)} :
      event.asks = true → b.input.closed = false →
      Effect b event .quiet { b with input.waiting := waiting, admitted := b.admitted ++ [(call, message)] }
  /-- The line of the senders changes, or their number. -/
  | aside {event : Event M} {waiting : List (CallId × M)} {senders : Nat} :
      event.asks = true → Effect b event .quiet { b with input.waiting := waiting, senders }
  /-- A message is accepted. -/
  | pushed {call : CallId} {message : M} :
      b.admitted.lookup call = some message →
      Effect b (.push call) (.sent (.ok ()))
        { b with input.queue := b.input.queue.push message, admitted := b.admitted.eraseP (·.1 == call) }
  | read {message : M} {input : Channel M} :
      b.processor.reader = .reading → b.input.receive = some (message, input) →
      Effect b .read .quiet
        { b with input, processor := { b.processor with read := b.processor.read + 1, reader := .sending message } }
  | shut :
      b.processor.reader = .leaving → b.input.closed = false →
      Effect b .shut .quiet { b with input := b.input.close }
  | took {message : M} {input : Channel M} :
      b.processor.reader = .leaving → b.input.closed = true → b.input.receive = some (message, input) →
      Effect b .take .quiet { b with input, taken := b.taken ++ [message] }
  /-- The reader finds the closed channel empty and goes on with what it has taken. -/
  | gathered :
      b.processor.reader = .leaving → b.input.closed = true → b.input.messages = [] →
      Effect b .take .quiet { b with processor := b.processor.takeUp b.taken, taken := [] }
  | permitted {message : M} :
      b.isPermitted = false → b.processor.inHand? = some message → b.processor.channel.closed = false →
      Effect b .ask .quiet { b with isPermitted := true }
  | denied {message : M} :
      b.isPermitted = false → b.processor.inHand? = some message → b.processor.channel.closed = true →
      Effect b .ask .quiet
        { b with processor := ({ b.processor with dropped := b.processor.dropped + 1 } : Processor M).goOn false }
  | handed {message : M} :
      b.isPermitted = true → b.processor.inHand? = some message →
      Effect b .hand .quiet
        { b with
          processor := ({ b.processor with
            channel.queue := b.processor.channel.queue.push message } : Processor M).goOn true
          isPermitted := false }
  | received {message : M} {channel : Channel M} :
      b.processor.handler = .receiving → b.processor.channel.receive = some (message, channel) →
      Effect b (.processor .receive) (.processor .quiet)
        { b with processor := { b.processor with
          channel, handled := b.processor.handled + 1, handler := .handling message } }
  | stopping {message : M} :
      b.isRefusing = false → b.processor.handler = .handling message →
      Effect b (.processor (.handleReturns .stop)) .quiet
        { b with processor := b.processor.tellStop, isRefusing := true }
  | barred :
      b.isRefusing = true → b.processor.channel.closed = false →
      Effect b .bar .quiet { b with processor.channel := b.processor.channel.close }
  | discarded {message : M} {channel : Channel M} :
      b.isRefusing = true → b.processor.channel.closed = true →
      b.processor.channel.receive = some (message, channel) →
      Effect b .discard .quiet
        { b with processor := { b.processor with channel, dropped := b.processor.dropped + 1 } }
  /-- The handler finds the closed channel empty and comes to its end. -/
  | emptied :
      b.isRefusing = true → b.processor.channel.closed = true → b.processor.channel.messages = [] →
      Effect b .discard .quiet { b with processor.handler := .finishing, isRefusing := false }
  /-- The processor does something that moves no message. -/
  | passed {event : Event M} {inner : Processor.Event M} {answer : Processor.Reply} {processor : Processor M} :
      event.StandsFor inner → inner.isSplit = false →
      (b.isRefusing = true → inner ≠ .handleReturns .continue) →
      Processor.Effect b.processor inner answer processor → Processor.Aside b.processor processor →
      Effect b event (.processor answer) { b with processor }

/-! The senders. -/

theorem send_effect {call : CallId} {message : M} (hstep : b.step (.send call message) = some (reply, b')) :
    Effect b (.send call message) reply b' := by
  simp only [step] at hstep
  split at hstep
  · cases hstep
  · split at hstep
    · cases hstep
      exact .refused rfl fun _ => rfl
    · next hopen =>
      split at hstep
      · cases hstep
        exact .admitted rfl (Bool.eq_false_iff.mpr hopen)
      · cases hstep
        exact .aside rfl

theorem trySend_effect {call : CallId} {message : M} (hstep : b.step (.trySend call message) = some (reply, b')) :
    Effect b (.trySend call message) reply b' := by
  simp only [step] at hstep
  split at hstep
  · cases hstep
  · split at hstep
    · cases hstep
      exact .refused rfl fun _ => rfl
    · next hopen =>
      split at hstep
      · cases hstep
        exact .admitted rfl (Bool.eq_false_iff.mpr hopen)
      · cases hstep
        exact .refused rfl fun hclosed => absurd hclosed hopen

theorem resumeSend_effect {call : CallId} (hstep : b.step (.resumeSend call) = some (reply, b')) :
    Effect b (.resumeSend call) reply b' := by
  simp only [step] at hstep
  split at hstep
  · split at hstep
    · cases hstep
      exact .refused rfl fun _ => rfl
    · next hopen =>
      split at hstep
      · cases hstep
        exact .admitted rfl (Bool.eq_false_iff.mpr hopen)
      · cases hstep
  · cases hstep

/-! The reader and the channel of the senders. -/

theorem passOn_effect {inner : Processor.Event M} (hwhich : event.StandsFor inner)
    (hwhole : inner.isSplit = false) (hbusy : b.isRefusing = true → inner ≠ .handleReturns .continue)
    (hstep : b.passOn inner = some (reply, b')) : Effect b event reply b' := by
  obtain ⟨⟨answer, processor⟩, hinner, heq⟩ := Option.map_eq_some_iff.mp hstep
  cases heq
  have e := Processor.step_effect hinner
  rcases e.aside_or_received hwhole with haside | ⟨rfl, rfl, hreceiving, message, channel, hreceive, rfl⟩
  · exact .passed hwhich hwhole hbusy e haside
  · cases hwhich
    exact .received hreceiving hreceive

theorem read_effect (hstep : b.step .read = some (reply, b')) : Effect b .read reply b' := by
  simp only [step] at hstep
  split at hstep
  · next hreading =>
    split at hstep
    · next message input hreceive =>
      cases hstep
      exact .read hreading hreceive
    · split at hstep
      · exact passOn_effect .read rfl (fun _ => nofun) hstep
      · cases hstep
  · cases hstep

theorem shut_effect (hstep : b.step .shut = some (reply, b')) : Effect b .shut reply b' := by
  simp only [step] at hstep
  split at hstep
  · next hleaving =>
    split at hstep
    · cases hstep
    · next hopen =>
      cases hstep
      exact .shut hleaving (Bool.eq_false_iff.mpr hopen)
  · cases hstep

theorem take_effect (hstep : b.step .take = some (reply, b')) : Effect b .take reply b' := by
  simp only [step] at hstep
  split at hstep
  · next hleaving =>
    split at hstep
    · next hclosed =>
      split at hstep
      · next message input hreceive =>
        cases hstep
        exact .took hleaving hclosed hreceive
      · next hnone =>
        cases hstep
        exact .gathered hleaving hclosed (b.input.receive_eq_none.mp hnone)
    · cases hstep
  · cases hstep

/-! The channel between the tasks. -/

theorem ask_effect (hstep : b.step .ask = some (reply, b')) : Effect b .ask reply b' := by
  simp only [step] at hstep
  split at hstep
  · next message hfree hinHand =>
    split at hstep
    · next channel hoffer =>
      cases hstep
      exact .permitted hfree hinHand (Channel.room_of_offer hoffer).1
    · cases hstep
    · next channel hoffer =>
      cases hstep
      cases Channel.offer_spec hoffer with
      | closed hclosed => exact .denied hfree hinHand hclosed
  · cases hstep

theorem hand_effect (hstep : b.step .hand = some (reply, b')) : Effect b .hand reply b' := by
  simp only [step] at hstep
  split at hstep
  · next message hpermitted hinHand =>
    cases hstep
    exact .handed hpermitted hinHand
  · cases hstep

theorem bar_effect (hstep : b.step .bar = some (reply, b')) : Effect b .bar reply b' := by
  obtain ⟨⟨hrefusing, hopen⟩, heq⟩ := Option.ite_none_right_eq_some.mp hstep
  cases heq
  exact .barred hrefusing hopen

theorem discard_effect (hstep : b.step .discard = some (reply, b')) : Effect b .discard reply b' := by
  obtain ⟨⟨hrefusing, hclosed⟩, heq⟩ := Option.ite_none_right_eq_some.mp hstep
  split at heq
  · next message channel hreceive =>
    cases heq
    exact .discarded hrefusing hclosed hreceive
  · next hnone =>
    cases heq
    exact .emptied hrefusing hclosed (b.processor.channel.receive_eq_none.mp hnone)

theorem handleReturns_effect {outcome : HandleOutcome}
    (hstep : b.step (.processor (.handleReturns outcome)) = some (reply, b')) :
    Effect b (.processor (.handleReturns outcome)) reply b' := by
  obtain ⟨hfree, heq⟩ := Option.ite_none_left_eq_some.mp hstep
  cases outcome with
  | «continue» => exact passOn_effect .processor rfl (fun hrefusing => absurd hrefusing hfree) heq
  | stop =>
    simp only at heq
    split at heq
    · next message hhandling =>
      cases heq
      exact .stopping (Bool.eq_false_iff.mpr hfree) hhandling
    · cases heq

theorem processor_effect {inner : Processor.Event M} (hstep : b.step (.processor inner) = some (reply, b')) :
    Effect b (.processor inner) reply b' := by
  cases inner with
  | readReturns => cases hstep
  | sendResumes => cases hstep
  | takePending => cases hstep
  | handleReturns => exact handleReturns_effect hstep
  | _ => exact passOn_effect .processor rfl (fun _ => nofun) hstep

/-- Every event that can happen has one of the effects. -/
theorem step_effect (hstep : b.step event = some (reply, b')) : Effect b event reply b' := by
  cases event with
  | send call message => exact send_effect hstep
  | trySend call message => exact trySend_effect hstep
  | resumeSend call => exact resumeSend_effect hstep
  | push call =>
    simp only [step] at hstep
    split at hstep
    · next hlookup =>
      cases hstep
      exact .pushed hlookup
    · cases hstep
  | cancelSend call =>
    cases hstep
    exact .aside rfl
  | copySender =>
    obtain ⟨-, heq⟩ := Option.ite_none_left_eq_some.mp hstep
    cases heq
    exact .aside rfl
  | closeSender =>
    obtain ⟨-, heq⟩ := Option.ite_none_left_eq_some.mp hstep
    cases heq
    exact .aside rfl
  | read => exact read_effect hstep
  | shut => exact shut_effect hstep
  | take => exact take_effect hstep
  | ask => exact ask_effect hstep
  | hand => exact hand_effect hstep
  | bar => exact bar_effect hstep
  | discard => exact discard_effect hstep
  | processor inner => exact processor_effect hstep

/-! ### The phases of the tasks and the channels -/

/-- What the phases of the two tasks say about the two channels. -/
structure Staged (b : Inbox M) : Prop where
  /-- Only a reader that is about to gather what is left has taken something. -/
  untaken : b.processor.reader ≠ .leaving → b.taken = []
  /-- A reader that has gathered what was left has closed its channel. -/
  gathered : b.processor.reader.hasGathered = true → b.input.closed = true
  permitted : b.isPermitted = true → b.processor.inHand? ≠ none
  refusing : b.isRefusing = true → ∃ m, b.processor.handler = .handling m
  /-- Only a handler that asks to stop closes its channel. -/
  barred : b.processor.channel.closed = true → b.isRefusing = true ∨ b.processor.handler.isLast
  /-- A handler that comes to its end has closed its channel, or nobody sends to it any more. -/
  last : b.processor.handler.isLast →
    b.processor.channel.closed = true ∨ b.processor.channel.messages = [] ∧ b.processor.reader = .ended

namespace Staged

theorem start (settings : ProcessorSettings) : (ofSettings settings : Inbox M).Staged where
  untaken _ := rfl
  gathered h := by cases h
  permitted h := by cases h
  refusing h := by cases h
  barred h := by cases h
  last h := h.elim

/-- A handler that waits for a message has an open channel. -/
theorem open_of_receiving (g : b.Staged) (hreceiving : b.processor.handler = .receiving) :
    b.processor.channel.closed = false := by
  refine Bool.eq_false_iff.mpr fun hclosed => ?_
  rcases g.barred hclosed with hrefusing | hlast
  · obtain ⟨m, hhandling⟩ := g.refusing hrefusing
    cases hreceiving.symm.trans hhandling
  · rw [hreceiving] at hlast
    exact hlast.elim

/-- A handler that asks to stop is not at its end. -/
theorem not_last_of_refusing (g : b.Staged) (hrefusing : b.isRefusing = true) : ¬ b.processor.handler.isLast := by
  obtain ⟨m, hhandling⟩ := g.refusing hrefusing
  rw [hhandling]
  exact id

/-- While the reader is sending a message, a handler at its end has closed the channel. -/
theorem closed_of_inHand (g : b.Staged) {m : M} (hinHand : b.processor.inHand? = some m)
    (hlast : b.processor.handler.isLast) : b.processor.channel.closed = true :=
  (g.last hlast).resolve_right fun hended => (Processor.phase_of_inHand hinHand).2 hended.2

/-- The message of the reader is sent or refused. -/
theorem goOn (g : b.Staged) {m : M} (hinHand : b.processor.inHand? = some m) {p : Processor M}
    {isSent isPermitted : Bool} (hfree : isPermitted = false) (hreader : p.reader = b.processor.reader)
    (hhandler : p.handler = b.processor.handler) (hclosed : p.channel.closed = b.processor.channel.closed) :
    ({ b with processor := p.goOn isSent, isPermitted } : Inbox M).Staged where
  untaken _ := g.untaken (Processor.phase_of_inHand hinHand).1
  gathered hgathered := g.gathered (hreader ▸ Processor.hasGathered_of_goOn hgathered)
  permitted hpermitted := by cases hfree.symm.trans hpermitted
  refusing hrefusing := by
    rw [Processor.handler_goOn, hhandler]
    exact g.refusing hrefusing
  barred hshut := by
    rw [Processor.channel_goOn, hclosed] at hshut
    rw [Processor.handler_goOn, hhandler]
    exact g.barred hshut
  last hlast := by
    rw [Processor.handler_goOn, hhandler] at hlast
    rw [Processor.channel_goOn, hclosed]
    exact .inl (g.closed_of_inHand hinHand hlast)

/-- The processor does something that moves no message. -/
theorem passed (g : b.Staged) {inner : Processor.Event M} {answer : Processor.Reply} {processor : Processor M}
    (hwhole : inner.isSplit = false) (hbusy : b.isRefusing = true → inner ≠ .handleReturns .continue)
    (e : Processor.Effect b.processor inner answer processor) (a : Processor.Aside b.processor processor) :
    ({ b with processor } : Inbox M).Staged where
  untaken hnot := g.untaken fun hleaving => hnot (a.leaving hleaving)
  gathered hgathered := g.gathered (a.hasGathered hgathered)
  permitted hpermitted := by
    rw [Processor.inHand?_eq, a.held, ← Processor.inHand?_eq]
    exact g.permitted hpermitted
  refusing hrefusing := by
    obtain ⟨m, hhandling⟩ := g.refusing hrefusing
    exact ⟨m, e.handling_stays hwhole (hbusy hrefusing) hhandling⟩
  barred hclosed := by
    rw [a.channel] at hclosed
    exact (g.barred hclosed).imp_right fun hlast => e.isLast hlast
  last hlast := by
    rw [a.channel]
    rcases a.isLast hlast with hbefore | ⟨hnone, hended⟩
    · exact (g.last hbefore).imp_right fun hrest => ⟨hrest.1, a.ended hrest.2⟩
    · exact .inr ⟨hnone, a.ended hended⟩

end Staged

/-- Every event keeps the phases in step with the channels. -/
theorem Effect.staged (e : Effect b event reply b') (g : b.Staged) : b'.Staged := by
  cases e with
  | refused => exact { g with }
  | admitted => exact { g with }
  | aside => exact { g with }
  | pushed => exact { g with }
  | @read message input hreading hreceive =>
    refine { g with untaken := fun _ => g.untaken ?_, gathered := nofun, permitted := fun _ => nofun, last := ?_ }
    · rw [hreading]
      nofun
    · intro hlast
      refine .inl ((g.last hlast).resolve_right fun hrest => ?_)
      cases hreading.symm.trans hrest.2
  | shut => exact { g with gathered := fun _ => rfl }
  | took hleaving hclosed hreceive =>
    refine { g with untaken := fun hnot => absurd hleaving hnot, gathered := fun _ => ?_ }
    exact (Channel.closed_of_receive hreceive).trans hclosed
  | gathered hleaving hclosed =>
    have hidle : b.processor.inHand? = none := Processor.inHand?_eq_none (by rw [hleaving]; rfl)
    refine ⟨fun _ => rfl, fun _ => hclosed, fun hpermitted => absurd hidle (g.permitted hpermitted), ?_, ?_, ?_⟩
    · rw [Processor.handler_takeUp]
      exact g.refusing
    · rw [Processor.handler_takeUp, Processor.channel_takeUp]
      exact g.barred
    · rw [Processor.handler_takeUp, Processor.channel_takeUp]
      refine fun hlast => .inl ((g.last hlast).resolve_right fun hrest => ?_)
      cases hleaving.symm.trans hrest.2
  | permitted _ hinHand =>
    refine { g with permitted := fun _ => ?_ }
    rw [hinHand]
    nofun
  | denied hfree hinHand => exact g.goOn hinHand hfree rfl rfl rfl
  | handed _ hinHand => exact g.goOn hinHand rfl rfl rfl rfl
  | received hreceiving hreceive =>
    have hopen := g.open_of_receiving hreceiving
    refine { g with refusing := fun hrefusing => ?_, barred := fun hclosed => ?_, last := False.elim }
    · obtain ⟨m, hhandling⟩ := g.refusing hrefusing
      cases hreceiving.symm.trans hhandling
    · rw [Channel.closed_of_receive hreceive, hopen] at hclosed
      cases hclosed
  | stopping _ hhandling => exact { g with refusing := fun _ => ⟨_, hhandling⟩, barred := fun _ => .inl rfl }
  | barred hrefusing => exact { g with barred := fun _ => .inl hrefusing, last := fun _ => .inl rfl }
  | discarded hrefusing hclosed hreceive =>
    refine { g with barred := fun _ => .inl hrefusing, last := fun _ => .inl ?_ }
    exact (Channel.closed_of_receive hreceive).trans hclosed
  | emptied hrefusing hclosed =>
    exact { g with refusing := nofun, barred := fun _ => .inr trivial, last := fun _ => .inl hclosed }
  | passed _ hwhole hbusy e a => exact g.passed hwhole hbusy e a

/-! ### Accesses between which nothing comes -/

theorem step_hand_of_free (hfree : b.isPermitted = false) : b.step .hand = none := by
  simp only [step, hfree]

/-- A permit and a push between which nothing comes offer the message. -/
theorem send_undisturbed {m : M} (hfree : b.isPermitted = false) (hinHand : b.processor.inHand? = some m) :
    Schedule.after step b [.ask, .hand] = { b with
      processor := match b.processor.channel.offer m with
        | (.accepted, channel) => ({ b.processor with channel } : Processor M).goOn true
        | (.full, _) => b.processor
        | (.closed, _) => ({ b.processor with dropped := b.processor.dropped + 1 } : Processor M).goOn false } := by
  rcases hoffer : b.processor.channel.offer m with ⟨answer, channel⟩
  cases Channel.offer_spec hoffer with
  | accepted =>
    have hask : b.step .ask = some (.quiet, { b with isPermitted := true }) := by
      simp only [step, hfree, hinHand, hoffer]
    have hhand : ({ b with isPermitted := true } : Inbox M).step .hand = some (.quiet, { b with
        processor := ({ b.processor with
          channel.queue := b.processor.channel.queue.push m } : Processor M).goOn true
        isPermitted := false }) := by
      simp only [step, hinHand]
    simp only [Schedule.after, hask, hhand, hfree]
  | full =>
    have hask : b.step .ask = none := by simp only [step, hfree, hinHand, hoffer]
    simp only [Schedule.after, hask, step_hand_of_free hfree]
  | closed =>
    let refused : Inbox M := { b with
      processor := ({ b.processor with dropped := b.processor.dropped + 1 } : Processor M).goOn false }
    have hask : b.step .ask = some (.quiet, refused) := by simp only [step, hfree, hinHand, hoffer, refused]
    have hhand : refused.step .hand = none := step_hand_of_free hfree
    simp only [Schedule.after, hask, hhand, refused]

/-- A read and the send of what it returned, if nothing comes between, are the read of a processor. -/
theorem read_undisturbed {m : M} {input : Channel M} (hfree : b.isPermitted = false)
    (hreading : b.processor.reader = .reading) (hreceive : b.input.receive = some (m, input)) :
    Schedule.after step b [.read, .ask, .hand] = { b with input, processor := b.processor.sendRead m } := by
  let counted : Inbox M :=
    { b with input, processor := { b.processor with read := b.processor.read + 1, reader := .sending m } }
  have hread : b.step .read = some (.quiet, counted) := by simp only [step, hreading, hreceive, counted]
  have hsend : Schedule.after step counted [.ask, .hand] = _ := send_undisturbed hfree rfl
  rw [Schedule.after, hread]
  refine hsend.trans ?_
  rw [Processor.sendRead]
  simp only [counted]
  rcases b.processor.channel.offer m with ⟨answer, channel⟩
  cases answer with
  | accepted => rfl
  | full => rfl
  | closed => rfl

/-- Events that change nothing change nothing when they come again and again. -/
theorem after_replicate {events : List (Event M)} (hsame : Schedule.after step b events = b) (n : Nat) :
    Schedule.after step b (List.replicate n events).flatten = b := by
  induction n with
  | zero => rfl
  | succ n ih => rw [List.replicate_succ, List.flatten_cons, Schedule.after_append, hsame, ih]

/-- The sends of several messages, if nothing comes between, forward them. -/
theorem takeUp_undisturbed (hfree : b.isPermitted = false) (ms : List M) :
    Schedule.after step { b with processor := b.processor.takeUp ms } (List.replicate ms.length [.ask, .hand]).flatten =
      { b with processor := b.processor.forward ms } := by
  induction ms generalizing b with
  | nil => rfl
  | cons m rest ih =>
    let counted : Inbox M := { b with processor := b.processor.takeUp (m :: rest) }
    have hsend : Schedule.after step counted [.ask, .hand] = _ := send_undisturbed hfree rfl
    rw [List.length_cons, List.replicate_succ, List.flatten_cons, Schedule.after_append, Processor.forward]
    show Schedule.after step (Schedule.after step counted [.ask, .hand]) _ = _
    rcases hoffer : b.processor.channel.offer m with ⟨answer, channel⟩
    have hcounted : counted.processor.channel.offer m = (answer, channel) := hoffer
    rw [hcounted] at hsend
    cases answer with
    | accepted =>
      have hnext : Schedule.after step counted [.ask, .hand] = { b with
          processor := ({ b.processor with read := b.processor.read + 1, channel } : Processor M).takeUp rest } := by
        rw [hsend]
        cases rest <;> rfl
      rw [hnext]
      exact ih (b := { b with processor := { b.processor with read := b.processor.read + 1, channel } }) hfree
    | full =>
      have hsame : Schedule.after step counted [.ask, .hand] = counted := hsend
      rw [hsame]
      exact after_replicate hsame _
    | closed =>
      let p : Processor M := { b.processor with read := b.processor.read + 1, dropped := b.processor.dropped + 1 }
      have hnext : Schedule.after step counted [.ask, .hand] = { b with processor := p.takeUp rest } := by
        rw [hsend]
        cases rest <;> rfl
      rw [hnext]
      exact ih (b := { b with processor := p }) hfree

/-- The reader that finds its closed channel empty, if nothing comes between its sends, gathers what is left as a
processor does. -/
theorem forward_undisturbed (hfree : b.isPermitted = false) (hleaving : b.processor.reader = .leaving)
    (hclosed : b.input.closed = true) (hnone : b.input.receive = none) :
    Schedule.after step b (.take :: (List.replicate b.taken.length [.ask, .hand]).flatten) =
      { b with processor := b.processor.forward b.taken, taken := [] } := by
  have htake : b.step .take = some (.quiet, { b with processor := b.processor.takeUp b.taken, taken := [] }) := by
    simp only [step, hleaving, hclosed, hnone, if_true]
  rw [Schedule.after, htake]
  exact takeUp_undisturbed (b := { b with taken := [] }) hfree b.taken

/-- The handler that has closed its channel drops one message after the other. -/
theorem discard_undisturbed (hrefusing : b.isRefusing = true) (hclosed : b.processor.channel.closed = true) (n : Nat)
    (hlength : b.processor.channel.messages.length = n) :
    Schedule.after step b (List.replicate (n + 1) .discard) = { b with
      processor := { b.processor with
        channel := b.processor.channel.abandon, dropped := b.processor.dropped + n, handler := .finishing }
      isRefusing := false } := by
  induction n generalizing b with
  | zero =>
    have hnil : b.processor.channel.messages = [] := List.length_eq_zero_iff.mp hlength
    have hnone := b.processor.channel.receive_eq_none.mpr hnil
    have hstep : b.step .discard = some (.quiet, { b with processor.handler := .finishing, isRefusing := false }) := by
      simp only [step, hrefusing, hclosed, hnone, and_self, if_true]
    have habandon : b.processor.channel.abandon = b.processor.channel := by
      rw [Channel.abandon, ← Fifo.eq_empty hnil, ← hclosed]
    rw [List.replicate_one, Schedule.after, hstep, habandon]
    rfl
  | succ n ih =>
    cases hreceive : b.processor.channel.receive with
    | none =>
      rw [b.processor.channel.receive_eq_none.mp hreceive] at hlength
      cases hlength
    | some next =>
      obtain ⟨m, channel⟩ := next
      have hstep : b.step .discard = some (.quiet, { b with
          processor := { b.processor with channel, dropped := b.processor.dropped + 1 } }) := by
        simp only [step, hrefusing, hclosed, hreceive, and_self, if_true]
      have hmessages := Channel.messages_of_receive hreceive
      rw [hmessages, List.length_cons] at hlength
      rw [List.replicate_succ, Schedule.after, hstep]
      have hrest := ih (b := { b with processor := { b.processor with channel, dropped := b.processor.dropped + 1 } })
        hrefusing ((Channel.closed_of_receive hreceive).trans hclosed) (Nat.succ.inj hlength)
      refine hrest.trans ?_
      obtain ⟨queue, rfl⟩ := Channel.receive_spec hreceive
      simp only [Channel.abandon, Nat.add_assoc, Nat.add_comm 1]

/-- A handler that asks to stop and empties its channel, if nothing comes between, refuses as a processor does. -/
theorem refuse_undisturbed {m : M} (hfree : b.isRefusing = false) (hhandling : b.processor.handler = .handling m)
    (hopen : b.processor.channel.closed = false) :
    Schedule.after step b (.processor (.handleReturns .stop) :: .bar ::
      List.replicate (b.processor.channel.messages.length + 1) .discard) =
        { b with processor := b.processor.refuse } := by
  let told : Inbox M := { b with processor := b.processor.tellStop, isRefusing := true }
  have htell : b.step (.processor (.handleReturns .stop)) = some (.quiet, told) := by
    simp only [step, hfree, hhandling, Bool.false_eq_true, if_false, told]
  have hbar : told.step .bar = some (.quiet, { told with processor.channel := told.processor.channel.close }) := by
    simp only [step, told, Processor.tellStop, hopen, and_self, if_true]
  rw [Schedule.after, htell]
  show Schedule.after step told (.bar :: _) = _
  rw [Schedule.after, hbar]
  have hdiscard := discard_undisturbed (b := { told with processor.channel := told.processor.channel.close }) rfl rfl
  refine (hdiscard _ rfl).trans ?_
  rw [← hfree]
  rfl

end Inbox

end Sluice
