import Sluice.Proofs.Worker.Effect

/-!
# What is under way in a processor

A message is under way from the read that returns it until the handler receives it: it is in the channel, or
the reader holds it until there is room. `Processor.underway` lists these messages in the order in which the
handler will receive them.

While nobody has closed the channel, and only a handler that asks to stop does, an event moves messages along
in one of six ways or leaves them where they are. `Passage` lists these ways with what they do to the
handler, and `step_passage` says that every event is one of them.
-/

namespace Sluice

namespace Processor

variable {M : Type} {p p' : Processor M} {event : Event M} {reply : Reply}

/-- The messages that the reader holds until there is room for them. -/
def ReaderPhase.held : ReaderPhase M → List M
  | .sending message => [message]
  | .forwarding message rest => message :: rest
  | _ => []

/-- The messages that were read and are not received yet, in the order in which they will be. -/
def underway (p : Processor M) : List M := p.channel.messages ++ p.reader.held

theorem underway_eq (hheld : p.reader.held = []) : p.underway = p.channel.messages := by
  rw [underway, hheld, List.append_nil]

/-- Nothing is under way once the reader has ended and the channel is empty. -/
theorem underway_eq_nil (hended : p.readerEnded = true) (hnone : p.channel.messages = []) :
    p.underway = [] := by
  rw [underway, hnone, readerEnded_iff.mp hended]
  rfl

theorem step_readReturns (hreading : p.reader = .reading) (m : M) :
    p.step (.readReturns (some m)) = some (.quiet, p.sendRead m) := by
  simp only [step, hreading]

/-- A handler that received is handling a message or has come to its end. -/
theorem handler_of_receive (hstep : p.step .receive = some (reply, p')) :
    (∃ m, p'.handler = .handling m) ∨ p'.handler = .finishing := by
  simp only [step] at hstep
  split at hstep
  · split at hstep
    · cases hstep
      exact .inl ⟨_, rfl⟩
    · split at hstep
      · cases hstep
        exact .inr rfl
      · cases hstep
  · cases hstep

/-! ### The ways of moving along -/

/-- Whether an event may move messages along or change what the handler is doing. -/
def Event.moves : Event M → Bool
  | .readReturns (some _) => true
  | .takePending _ => true
  | .receive => true
  | .handleReturns _ => true
  | .handlerFinishes => true
  | _ => false

/-- Whether the handler asks to stop. -/
def Event.stops : Event M → Bool
  | .handleReturns .stop => true
  | _ => false

theorem Event.stops_of_moves (hmoves : event.moves = false) : event.stops = false := by
  cases event with
  | handleReturns outcome => cases hmoves
  | _ => rfl

/-- What an event does to the messages under way and to the handler, as long as the channel is open. -/
inductive Passage (p : Processor M) : Event M → Processor M → Prop
  | read {m : M} {p' : Processor M} :
      p.reader = .reading → p'.underway = p.underway ++ [m] → p'.handler = p.handler →
      Passage p (.readReturns (some m)) p'
  | gathered {ms : List M} {p' : Processor M} :
      p.reader = .leaving → p'.underway = p.underway ++ ms → p'.handler = p.handler →
      Passage p (.takePending ms) p'
  | received {m : M} {p' : Processor M} :
      p.handler = .receiving → p'.handler = .handling m → p.underway = m :: p'.underway →
      Passage p .receive p'
  | exhausted {p' : Processor M} :
      p.handler = .receiving → p'.handler = .finishing → p.underway = [] → p'.underway = [] →
      Passage p .receive p'
  | handled {m : M} {p' : Processor M} :
      p.handler = .handling m → p'.handler = .receiving → p'.underway = p.underway →
      Passage p (.handleReturns .continue) p'
  | finished {p' : Processor M} :
      p.handler = .finishing → p'.handler = .ended → p'.underway = p.underway →
      Passage p .handlerFinishes p'
  | still {event : Event M} {p' : Processor M} :
      event.moves = false → p'.underway = p.underway → p'.handler = p.handler → Passage p event p'

/-- The same three parts make the same messages under way, the same handler and the same channel. -/
theorem passage_of_same (hmoves : event.moves = false) (hopen : p.channel.closed = false)
    (hchannel : p'.channel = p.channel) (hheld : p'.reader.held = p.reader.held)
    (hhandler : p'.handler = p.handler) : p'.channel.closed = false ∧ Passage p event p' :=
  ⟨hchannel ▸ hopen, .still hmoves (by rw [underway, underway, hchannel, hheld]) hhandler⟩

theorem passage_of_stopIfForsaken (hmoves : event.moves = false) (hopen : p.channel.closed = false)
    (hchannel : p'.channel = p.channel) (hheld : p'.reader.held = p.reader.held)
    (hhandler : p'.handler = p.handler) :
    p'.stopIfForsaken.channel.closed = false ∧ Passage p event p'.stopIfForsaken := by
  rcases p'.stopIfForsaken_eq with h | h
  · rw [h]
    exact passage_of_same hmoves hopen hchannel hheld hhandler
  · rw [h]
    exact passage_of_same hmoves hopen hchannel hheld hhandler

/-! ### What the reader sends -/

theorem sendRead_passage (hopen : p.channel.closed = false) (hreading : p.reader = .reading) (m : M) :
    (p.sendRead m).channel.closed = false ∧ (p.sendRead m).underway = p.underway ++ [m] ∧
      (p.sendRead m).handler = p.handler := by
  have hbefore : p.underway = p.channel.messages := underway_eq (by rw [hreading]; rfl)
  rw [sendRead, hbefore]
  rcases hoffer : p.channel.offer m with ⟨answer, channel⟩
  cases answer with
  | accepted =>
    refine ⟨(Channel.closed_of_offer hoffer).trans hopen, ?_, rfl⟩
    exact (underway_eq rfl).trans (Channel.messages_of_offer hoffer)
  | full => exact ⟨hopen, rfl, rfl⟩
  | closed => exact absurd hoffer (Channel.open_of_offer hopen)

/-- What the reader forwards follows what is in the channel. -/
theorem forward_passage (hopen : p.channel.closed = false) (ms : List M) :
    (p.forward ms).channel.closed = false ∧ (p.forward ms).underway = p.channel.messages ++ ms ∧
      (p.forward ms).handler = p.handler := by
  induction ms generalizing p with
  | nil => exact ⟨hopen, rfl, rfl⟩
  | cons m rest ih =>
    rw [forward]
    rcases hoffer : p.channel.offer m with ⟨answer, channel⟩
    cases answer with
    | accepted =>
      obtain ⟨hclosed, hunderway, hhandler⟩ := ih
        (p := { p with read := p.read + 1, channel }) ((Channel.closed_of_offer hoffer).trans hopen)
      refine ⟨hclosed, hunderway.trans ?_, hhandler⟩
      show channel.messages ++ rest = _
      rw [Channel.messages_of_offer hoffer, List.append_assoc, List.singleton_append]
    | full => exact ⟨hopen, rfl, rfl⟩
    | closed => exact absurd hoffer (Channel.open_of_offer hopen)

/-- A message that the reader holds goes into the channel before those that follow it. -/
theorem underway_of_sent {m : M} {channel : Channel M} (hsending : p.reader = .sending m)
    (hoffer : p.channel.offer m = (.accepted, channel)) : p.underway = channel.messages := by
  rw [underway, hsending, Channel.messages_of_offer hoffer]
  rfl

theorem underway_of_forwarded {m : M} {rest : List M} {channel : Channel M}
    (hforwarding : p.reader = .forwarding m rest)
    (hoffer : p.channel.offer m = (.accepted, channel)) : p.underway = channel.messages ++ rest := by
  rw [underway, hforwarding, Channel.messages_of_offer hoffer, List.append_assoc]
  rfl

/-! ### Every event -/

/-- As long as the channel is open and the handler does not ask to stop, the channel stays open and the
messages move along in one of the ways listed. -/
theorem Effect.passage (hopen : p.channel.closed = false) (hgo : event.stops = false) (e : Effect p event reply p') :
    p'.channel.closed = false ∧ Passage p event p' := by
  cases e with
  | ignored hcall =>
    rcases hcall with ⟨rfl, -⟩ | ⟨rfl, -⟩
    · exact passage_of_same rfl hopen rfl rfl rfl
    · exact passage_of_same rfl hopen rfl rfl rfl
  | joined => exact passage_of_stopIfForsaken rfl hopen rfl rfl rfl
  | cancelled => exact passage_of_stopIfForsaken rfl hopen rfl rfl rfl
  | released => exact passage_of_stopIfForsaken rfl hopen rfl rfl rfl
  | begun hlooking => exact passage_of_same rfl hopen rfl (by rw [hlooking]; rfl) rfl
  | held hlooking => exact passage_of_same rfl hopen rfl (by rw [hlooking]; rfl) rfl
  | left hlooking => exact passage_of_same rfl hopen rfl (by rw [hlooking]; rfl) rfl
  | unpaused hpaused => exact passage_of_same rfl hopen rfl (by rw [hpaused]; rfl) rfl
  | @read m hreading =>
    obtain ⟨hclosed, hunderway, hhandler⟩ := sendRead_passage hopen hreading m
    exact ⟨hclosed, .read hreading hunderway hhandler⟩
  | exhausted hreading => exact passage_of_same rfl hopen rfl (by rw [hreading]; rfl) rfl
  | readCancelled hreading => exact passage_of_same rfl hopen rfl (by rw [hreading]; rfl) rfl
  | sent hsending hoffer =>
    exact ⟨(Channel.closed_of_offer hoffer).trans hopen,
      .still rfl ((underway_eq rfl).trans (underway_of_sent hsending hoffer).symm) rfl⟩
  | refused _ hoffer => exact absurd hoffer (Channel.open_of_offer hopen)
  | @forwarded m rest channel hforwarding hoffer =>
    obtain ⟨hclosed, hunderway, hhandler⟩ := forward_passage (p := { p with channel })
      ((Channel.closed_of_offer hoffer).trans hopen) rest
    exact ⟨hclosed, .still rfl (hunderway.trans (underway_of_forwarded hforwarding hoffer).symm) hhandler⟩
  | forwardRefused _ hoffer => exact absurd hoffer (Channel.open_of_offer hopen)
  | @gathered ms hleaving =>
    obtain ⟨hclosed, hunderway, hhandler⟩ := forward_passage hopen ms
    refine ⟨hclosed, .gathered hleaving (hunderway.trans ?_) hhandler⟩
    rw [underway_eq (by rw [hleaving]; rfl)]
  | readerFinished hfinishing => exact passage_of_same rfl hopen rfl (by rw [hfinishing]; rfl) rfl
  | received hreceiving hreceive =>
    refine ⟨(Channel.closed_of_receive hreceive).trans hopen, .received hreceiving rfl ?_⟩
    rw [underway, Channel.messages_of_receive hreceive]
    rfl
  | drained hreceiving hnone hended =>
    have hnil := underway_eq_nil (readerEnded_iff.mpr hended) hnone
    exact ⟨hopen, .exhausted hreceiving rfl hnil hnil⟩
  | handled hhandling => exact ⟨hopen, .handled hhandling rfl rfl⟩
  | stopped => cases hgo
  | handlerFinished hfinishing => exact ⟨hopen, .finished hfinishing rfl rfl⟩
  | _ => exact passage_of_same rfl hopen rfl rfl rfl

theorem step_passage (hopen : p.channel.closed = false) (hstep : p.step event = some (reply, p'))
    (hgo : event.stops = false) : p'.channel.closed = false ∧ Passage p event p' :=
  (step_effect hstep).passage hopen hgo

end Processor

end Sluice
