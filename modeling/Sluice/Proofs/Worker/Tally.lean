import Sluice.Proofs.Schedule
import Sluice.Proofs.Worker.Ending

/-!
# Every message that is read is handled or dropped

A history of a processor tells what its reads returned (`results`), what the reader had accepted without
reading it (`leftovers`), and what its handler was called with (`handedOn`). `read_accounted` says, for every
schedule, that the handler is called with the messages in the order in which they were read, from the first one
on, that no more messages are under way than the channel holds and one, that nothing is dropped before the
handler asks to stop, and that the three counters balance when both tasks have ended.

The invariant is `Accounted`. While the channel is open, what was read is what was handed on followed by what
is under way. Once the channel is closed nothing is handed on any more, and only the numbers are kept: whatever
is read is counted as dropped in the end. The messages that the reader holds are the one point where the counter
and the history differ, since all of them but the first are still to be counted as read.
-/

namespace Sluice

namespace Processor

variable {M : Type} {p p' : Processor M} {event : Event M} {reply : Reply}

/-! ### What a history tells -/

/-- An event that happened to a processor. -/
abbrev Happening (M : Type) : Type := Occurrence (Processor M) (Event M) Reply

/-- What happens to a new processor in a schedule. -/
def happenings (settings : ProcessorSettings) (events : List (Event M)) : List (Happening M) :=
  Schedule.occurrences step (ofSettings settings) events

/-- A new processor after a schedule. -/
def afterEvents (settings : ProcessorSettings) (events : List (Event M)) : Processor M :=
  Schedule.after step (ofSettings settings) events

/-- The message that a read returns. -/
def Event.result : Event M → List M
  | .readReturns m => m.toList
  | _ => []

/-- The messages that the reader had accepted and not read. -/
def Event.leftover : Event M → List M
  | .takePending ms => ms
  | _ => []

/-- The message that an event calls the handler with. -/
def handedBy (s : Happening M) : List M :=
  match s.event, s.after.handler with
  | .receive, .handling m => [m]
  | _, _ => []

/-- What the reads returned, in order. -/
def results (h : List (Happening M)) : List M := h.flatMap (·.event.result)

/-- What the reader had accepted and not read. -/
def leftovers (h : List (Happening M)) : List M := h.flatMap (·.event.leftover)

/-- All messages in the order in which they are read, first those that the reads returned. -/
def intake (h : List (Happening M)) : List M := results h ++ leftovers h

/-- What the handler was called with, in order. -/
def handedOn (h : List (Happening M)) : List M := h.flatMap handedBy

section

variable (h : List (Happening M)) (s : Happening M)

theorem results_snoc : results (h ++ [s]) = results h ++ s.event.result := by
  simp only [results, List.flatMap_append, List.flatMap_singleton]

theorem leftovers_snoc : leftovers (h ++ [s]) = leftovers h ++ s.event.leftover := by
  simp only [leftovers, List.flatMap_append, List.flatMap_singleton]

theorem handedOn_snoc : handedOn (h ++ [s]) = handedOn h ++ handedBy s := by
  simp only [handedOn, List.flatMap_append, List.flatMap_singleton]

/-- A message comes in last, provided that no read returns one after the leftovers are taken. -/
theorem intake_snoc (hlast : s.event.result = [] ∨ leftovers h = []) :
    intake (h ++ [s]) = intake h ++ (s.event.result ++ s.event.leftover) := by
  rw [intake, intake, results_snoc, leftovers_snoc]
  rcases hlast with hnone | hnone
  · rw [hnone, List.append_nil, List.nil_append, List.append_assoc]
  · rw [hnone, List.append_nil, List.nil_append, List.append_assoc]

end

/-! ### What the reader does -/

/-- What the reader does to the messages under way and to the counters when it has read some messages. -/
structure Reads (p : Processor M) (new : List M) (p' : Processor M) : Prop where
  handled : p'.handled = p.handled
  handler : p'.handler = p.handler
  capacity : p'.channel.capacity = p.channel.capacity
  closed : p'.channel.closed = p.channel.closed
  length_le : p.channel.messages.length ≤ p.channel.capacity →
    p'.channel.messages.length ≤ p.channel.capacity
  /-- Of the messages that the reader holds, only the first one is counted. -/
  read : p'.read + p'.reader.held.tail.length = p.read + p.reader.held.tail.length + new.length
  balance : p'.dropped + p'.underway.length = p.dropped + p.underway.length + new.length
  flowing : p.channel.closed = false → p'.underway = p.underway ++ new
  refused : p.channel.closed = true → p'.channel.messages = p.channel.messages

namespace Reads

/-- The reader goes from one phase to another, and it holds the same messages. -/
theorem of_phase {phase : ReaderPhase M} (hheld : phase.held = p.reader.held) :
    Reads p [] { p with reader := phase } where
  handled := rfl
  handler := rfl
  capacity := rfl
  closed := rfl
  length_le := id
  read := by
    show p.read + phase.held.tail.length = _
    rw [hheld]
    rfl
  balance := by
    show p.dropped + (p.channel.messages ++ phase.held).length = _
    rw [hheld]
    rfl
  flowing _ := by
    show p.channel.messages ++ phase.held = _
    rw [hheld, List.append_nil]
    rfl
  refused _ := rfl

/-- Two steps of the reader. -/
theorem trans {p'' : Processor M} {first second : List M} (k : Reads p first p')
    (k' : Reads p' second p'') : Reads p (first ++ second) p'' where
  handled := k'.handled.trans k.handled
  handler := k'.handler.trans k.handler
  capacity := k'.capacity.trans k.capacity
  closed := k'.closed.trans k.closed
  length_le hle := by
    have hle' := k'.length_le
    rw [k.capacity] at hle'
    exact hle' (k.length_le hle)
  read := by
    have hread := k.read
    have hread' := k'.read
    rw [List.length_append]
    omega
  balance := by
    have hbalance := k.balance
    have hbalance' := k'.balance
    rw [List.length_append]
    omega
  flowing hopen := by
    rw [k'.flowing (k.closed.trans hopen), k.flowing hopen, List.append_assoc]
  refused hclosed := (k'.refused (k.closed.trans hclosed)).trans (k.refused hclosed)

/-- A message goes into the channel. -/
theorem of_accepted {m : M} {channel : Channel M} (hheld : p.reader.held = [])
    (hoffer : p.channel.offer m = (.accepted, channel)) :
    Reads p [m] { p with read := p.read + 1, channel } := by
  obtain ⟨hopen, hroom, hcapacity⟩ := Channel.room_of_offer hoffer
  have hmessages := Channel.messages_of_offer hoffer
  have hunderway : ({ p with read := p.read + 1, channel } : Processor M).underway =
      p.underway ++ [m] := by
    rw [underway_eq hheld, underway_eq (p := { p with read := p.read + 1, channel }) hheld, hmessages]
  constructor
  · rfl
  · rfl
  · exact hcapacity
  · exact Channel.closed_of_offer hoffer
  · intro _
    show channel.messages.length ≤ _
    rw [hmessages, List.length_append, List.length_singleton]
    omega
  · show p.read + 1 + p.reader.held.tail.length = p.read + p.reader.held.tail.length + 1
    omega
  · rw [hunderway, List.length_append]
    rfl
  · exact fun _ => hunderway
  · intro hclosed
    cases hopen.symm.trans hclosed

/-- Nobody will receive a message, and it is dropped. -/
theorem of_closed {m : M} {channel : Channel M} (hoffer : p.channel.offer m = (.closed, channel)) :
    Reads p [m] { p with read := p.read + 1, dropped := p.dropped + 1 } where
  handled := rfl
  handler := rfl
  capacity := rfl
  closed := rfl
  length_le := id
  read := by
    show p.read + 1 + p.reader.held.tail.length = p.read + p.reader.held.tail.length + 1
    omega
  balance := by
    show p.dropped + 1 + p.underway.length = p.dropped + p.underway.length + 1
    omega
  flowing hopen := absurd hoffer (Channel.open_of_offer hopen)
  refused _ := rfl

/-- There is no room, and the reader holds messages of which it counts the first one. -/
theorem of_full {m : M} {rest : List M} {phase : ReaderPhase M} (hheld : p.reader.held = [])
    (hphase : phase.held = m :: rest) :
    Reads p (m :: rest) { p with read := p.read + 1, reader := phase } := by
  have hunderway : ({ p with read := p.read + 1, reader := phase } : Processor M).underway =
      p.underway ++ m :: rest := by
    show p.channel.messages ++ phase.held = _
    rw [underway_eq hheld, hphase]
  constructor
  · rfl
  · rfl
  · rfl
  · rfl
  · exact id
  · show p.read + 1 + phase.held.tail.length = p.read + p.reader.held.tail.length + _
    rw [hheld, hphase]
    simp only [List.tail_cons, List.tail_nil, List.length_nil, List.length_cons]
    omega
  · show p.dropped + _ = _
    rw [hunderway, List.length_append]
    omega
  · exact fun _ => hunderway
  · exact fun _ => rfl

theorem sendRead (hreading : p.reader = .reading) (m : M) : Reads p [m] (p.sendRead m) := by
  have hheld : p.reader.held = [] := by rw [hreading]; rfl
  rw [Processor.sendRead]
  rcases hoffer : p.channel.offer m with ⟨answer, channel⟩
  cases answer with
  | accepted => exact (of_accepted hheld hoffer).trans (of_phase hheld.symm)
  | full => exact of_full hheld rfl
  | closed => exact (of_closed hoffer).trans (of_phase hheld.symm)

/-- The reader sends one message after the other until there is no room. -/
theorem forward (hheld : p.reader.held = []) (ms : List M) : Reads p ms (p.forward ms) := by
  induction ms generalizing p with
  | nil => exact of_phase hheld.symm
  | cons m rest ih =>
    rw [Processor.forward]
    rcases hoffer : p.channel.offer m with ⟨answer, channel⟩
    cases answer with
    | accepted => exact (of_accepted hheld hoffer).trans (ih hheld)
    | full => exact of_full hheld rfl
    | closed => exact (of_closed hoffer).trans (ih hheld)

end Reads

/-- What is forwarded does not depend on the phase that the reader comes from. -/
theorem forward_of_phase (p : Processor M) (phase : ReaderPhase M) (ms : List M) :
    ({ p with reader := phase } : Processor M).forward ms = p.forward ms := by
  induction ms generalizing p with
  | nil => rfl
  | cons m rest ih =>
    rw [forward, forward]
    rcases p.channel.offer m with ⟨answer, channel⟩
    cases answer with
    | accepted => exact ih { p with read := p.read + 1, channel }
    | full => rfl
    | closed => exact ih { p with read := p.read + 1, dropped := p.dropped + 1 }

namespace Reads

/-- The reader holds messages and the first of them goes into the channel. Then it sends the others. -/
theorem resume_accepted {m : M} {rest : List M} {channel : Channel M} (hheld : p.reader.held = m :: rest)
    (hoffer : p.channel.offer m = (.accepted, channel))
    (k : Reads { p with channel, reader := .leaving } rest p') : Reads p [] p' := by
  obtain ⟨hopen, hroom, hcapacity⟩ := Channel.room_of_offer hoffer
  have hmessages := Channel.messages_of_offer hoffer
  have hclosed := Channel.closed_of_offer hoffer
  have hunderway : p.underway = p.channel.messages ++ m :: rest := by rw [underway, hheld]
  have hbefore : ({ p with channel, reader := .leaving } : Processor M).underway =
      p.channel.messages ++ [m] := (underway_eq rfl).trans hmessages
  constructor
  · exact k.handled
  · exact k.handler
  · exact k.capacity.trans hcapacity
  · exact k.closed.trans hclosed
  · intro _
    have hle : channel.messages.length ≤ channel.capacity → p'.channel.messages.length ≤ channel.capacity :=
      k.length_le
    rw [hcapacity, hmessages, List.length_append, List.length_singleton] at hle
    exact hle hroom
  · have hread : p'.read + p'.reader.held.tail.length = p.read + 0 + rest.length := k.read
    rw [hread, hheld]
    rfl
  · have hbalance := k.balance
    rw [hbefore, List.length_append, List.length_singleton] at hbalance
    rw [hunderway, List.length_append, List.length_cons, List.length_nil]
    simp only at hbalance
    omega
  · intro _
    have hflowing := k.flowing (hclosed.trans hopen)
    rw [hflowing, hbefore, hunderway, List.append_nil, List.append_assoc, List.singleton_append]
  · intro hshut
    cases hopen.symm.trans hshut

/-- The reader holds messages and nobody will receive the first of them. Then it sends the others. -/
theorem resume_refused {m : M} {rest : List M} {channel : Channel M} (hheld : p.reader.held = m :: rest)
    (hoffer : p.channel.offer m = (.closed, channel))
    (k : Reads { p with dropped := p.dropped + 1, reader := .leaving } rest p') : Reads p [] p' where
  handled := k.handled
  handler := k.handler
  capacity := k.capacity
  closed := k.closed
  length_le := k.length_le
  read := by
    have hread : p'.read + p'.reader.held.tail.length = p.read + 0 + rest.length := k.read
    rw [hread, hheld]
    rfl
  balance := by
    have hbefore : ({ p with dropped := p.dropped + 1, reader := .leaving } : Processor M).underway =
        p.channel.messages := underway_eq rfl
    have hbalance := k.balance
    rw [hbefore] at hbalance
    rw [underway, underway, hheld, List.length_append, List.length_append, List.length_cons,
      List.length_nil]
    rw [underway, List.length_append] at hbalance
    simp only at hbalance
    omega
  flowing hopen := absurd hoffer (Channel.open_of_offer hopen)
  refused := k.refused

end Reads

/-! ### The invariant -/

/-- Every message of a history is handed on, dropped or under way, and they are handed on in order. -/
structure Accounted (capacity : Nat) (h : List (Happening M)) (p : Processor M) : Prop where
  capacity_eq : p.channel.capacity = capacity
  length_le : p.channel.messages.length ≤ capacity
  read : (intake h).length = p.read + p.reader.held.tail.length
  handled : (handedOn h).length = p.handled
  balance : (intake h).length = p.handled + p.dropped + p.underway.length
  order : handedOn h <+: intake h
  flowing : p.channel.closed = false → intake h = handedOn h ++ p.underway
  /-- Only a handler that asks to stop closes the channel, and it is the last thing that it does. -/
  cut : p.channel.closed = true →
    p.channel.messages = [] ∧ p.handler.isLast ∧ ∃ s ∈ h, s.event.stops = true
  gone : p.handler.isLast → p.channel.messages = [] ∧ (p.channel.closed = true ∨ p.reader = .ended)
  ungathered : p.reader.hasGathered = false → leftovers h = []

namespace Accounted

variable {h : List (Happening M)} {capacity : Nat}

theorem start (settings : ProcessorSettings) :
    Accounted settings.capacity [] (ofSettings settings : Processor M) where
  capacity_eq := rfl
  length_le := Nat.zero_le _
  read := rfl
  handled := rfl
  balance := rfl
  order := List.prefix_rfl
  flowing _ := rfl
  cut hclosed := nomatch hclosed
  gone hlast := hlast.elim
  ungathered _ := rfl

/-- Nothing is dropped as long as the channel is open. -/
theorem dropped_eq_zero (a : Accounted capacity h p) (hopen : p.channel.closed = false) :
    p.dropped = 0 := by
  have hbalance := a.balance
  have hhandled := a.handled
  rw [a.flowing hopen, List.length_append] at hbalance
  omega

/-- A handler that is not at its end keeps the channel open. -/
theorem open_of_handler (a : Accounted capacity h p) (hnot : ¬ p.handler.isLast) :
    p.channel.closed = false := by
  rw [Bool.eq_false_iff]
  intro hclosed
  exact hnot (a.cut hclosed).2.1

/-- A handler that has not asked to stop keeps the channel open. -/
theorem open_of_going (a : Accounted capacity h p) (hgo : ∀ s ∈ h, s.event.stops = false) :
    p.channel.closed = false := by
  rw [Bool.eq_false_iff]
  intro hclosed
  obtain ⟨-, -, s, hs, hstops⟩ := a.cut hclosed
  rw [hgo s hs] at hstops
  cases hstops

/-- When both tasks have ended, nothing is under way. -/
theorem underway_of_ended (a : Accounted capacity h p) (hreader : p.reader = .ended)
    (hhandler : p.handler = .ended) : p.underway = [] := by
  rw [underway, (a.gone (HandlerPhase.isLast_of_ended hhandler)).1, hreader]
  rfl

/-- When the reader has ended, it has counted all messages. -/
theorem read_of_ended (a : Accounted capacity h p) (hreader : p.reader = .ended) :
    p.read = (intake h).length := by
  rw [a.read, hreader]
  rfl

/-- When both tasks have ended, each message was handled or dropped. -/
theorem read_eq (a : Accounted capacity h p) (hreader : p.reader = .ended) (hhandler : p.handler = .ended) :
    p.read = p.handled + p.dropped := by
  rw [a.read_of_ended hreader, a.balance, a.underway_of_ended hreader hhandler]
  rfl

/-- The handler is called with the first messages. -/
theorem handedOn_eq_take (a : Accounted capacity h p) : handedOn h = (intake h).take p.handled := by
  rw [← a.handled]
  exact List.prefix_iff_eq_take.mp a.order

/-- A processor in which at most the handler moves, without receiving anything. -/
theorem of_still (a : Accounted capacity h p) (hresult : event.result = []) (hleftover : event.leftover = [])
    (hhanded : handedBy ⟨p, event, reply, p'⟩ = []) (hchannel : p'.channel = p.channel)
    (hreader : p'.reader = p.reader) (hstats : p'.stats = p.stats)
    (hlast : p.handler.isLast → p'.handler.isLast)
    (hgone : p'.handler.isLast → p.handler.isLast ∨ p.channel.messages = [] ∧ p.reader = .ended) :
    Accounted capacity (h ++ [⟨p, event, reply, p'⟩]) p' := by
  have hintake : intake (h ++ [⟨p, event, reply, p'⟩]) = intake h := by
    rw [intake_snoc _ _ (.inl hresult), hresult, hleftover, List.append_nil, List.append_nil]
  have hhandedOn : handedOn (h ++ [⟨p, event, reply, p'⟩]) = handedOn h := by
    rw [handedOn_snoc, hhanded, List.append_nil]
  have hleftovers : leftovers (h ++ [⟨p, event, reply, p'⟩]) = leftovers h := by
    rw [leftovers_snoc, hleftover, List.append_nil]
  have hunderway : p'.underway = p.underway := by rw [underway, underway, hchannel, hreader]
  obtain ⟨hread, hhandled, hdropped⟩ := ProcessorStats.mk.inj hstats
  constructor
  · rw [hchannel]
    exact a.capacity_eq
  · rw [hchannel]
    exact a.length_le
  · rw [hintake, hread, hreader]
    exact a.read
  · rw [hhandedOn, hhandled]
    exact a.handled
  · rw [hintake, hhandled, hdropped, hunderway]
    exact a.balance
  · rw [hhandedOn, hintake]
    exact a.order
  · rw [hchannel, hintake, hhandedOn, hunderway]
    exact a.flowing
  · rw [hchannel]
    intro hclosed
    obtain ⟨hnone, hend, s, hs, hstops⟩ := a.cut hclosed
    exact ⟨hnone, hlast hend, s, List.mem_append_left _ hs, hstops⟩
  · rw [hchannel, hreader]
    intro hend
    rcases hgone hend with hbefore | ⟨hnone, hended⟩
    · exact a.gone hbefore
    · exact ⟨hnone, .inr hended⟩
  · rw [hreader, hleftovers]
    exact a.ungathered

/-- A reader that had not ended does something. -/
theorem of_reads (a : Accounted capacity h p) (hreader : p.reader ≠ .ended)
    (k : Reads p (event.result ++ event.leftover) p') (hhanded : handedBy ⟨p, event, reply, p'⟩ = [])
    (hresult : event.result = [] ∨ p.reader.hasGathered = false)
    (hgathered : p'.reader.hasGathered = false → p.reader.hasGathered = false ∧ event.leftover = []) :
    Accounted capacity (h ++ [⟨p, event, reply, p'⟩]) p' := by
  have hintake : intake (h ++ [⟨p, event, reply, p'⟩]) =
      intake h ++ (event.result ++ event.leftover) := intake_snoc _ _ (hresult.imp id a.ungathered)
  have hhandedOn : handedOn (h ++ [⟨p, event, reply, p'⟩]) = handedOn h := by
    rw [handedOn_snoc, hhanded, List.append_nil]
  have hread := a.read
  have hread' := k.read
  have hbalance := a.balance
  have hbalance' := k.balance
  have hcapacity := a.capacity_eq
  constructor
  · exact k.capacity.trans hcapacity
  · rw [← hcapacity]
    refine k.length_le ?_
    rw [hcapacity]
    exact a.length_le
  · rw [hintake, List.length_append]
    omega
  · rw [hhandedOn, k.handled]
    exact a.handled
  · rw [hintake, List.length_append, k.handled]
    omega
  · rw [hhandedOn, hintake]
    exact a.order.trans (List.prefix_append _ _)
  · intro hopen
    rw [k.closed] at hopen
    rw [hintake, hhandedOn, k.flowing hopen, a.flowing hopen, List.append_assoc]
  · intro hclosed
    rw [k.closed] at hclosed
    obtain ⟨hnone, hend, s, hs, hstops⟩ := a.cut hclosed
    rw [k.refused hclosed, k.handler]
    exact ⟨hnone, hend, s, List.mem_append_left _ hs, hstops⟩
  · intro hend
    rw [k.handler] at hend
    obtain ⟨hnone, hwhy⟩ := a.gone hend
    -- The reader is at work, so the handler has come to its end by closing the channel.
    have hclosed : p.channel.closed = true := hwhy.resolve_right hreader
    rw [k.refused hclosed, k.closed]
    exact ⟨hnone, .inl hclosed⟩
  · intro hnot
    obtain ⟨hbefore, hleftover⟩ := hgathered hnot
    rw [leftovers_snoc, a.ungathered hbefore]
    exact hleftover

/-- The handler receives the message that has been under way for longest. -/
theorem received (a : Accounted capacity h p) {m : M} {channel : Channel M} (hreceiving : p.handler = .receiving)
    (hreceive : p.channel.receive = some (m, channel)) :
    Accounted capacity
      (h ++ [⟨p, .receive, .quiet, { p with channel, handled := p.handled + 1, handler := .handling m }⟩])
      { p with channel, handled := p.handled + 1, handler := .handling m } := by
  have hopen : p.channel.closed = false := a.open_of_handler (by rw [hreceiving]; exact id)
  have hmessages := Channel.messages_of_receive hreceive
  have hlength := a.length_le
  have hunderway : p.underway = m :: (channel.messages ++ p.reader.held) := by
    rw [underway, hmessages, List.cons_append]
  have hflowing := a.flowing hopen
  have hbalance := a.balance
  rw [hunderway, List.length_cons] at hbalance
  rw [hunderway] at hflowing
  rw [hmessages, List.length_cons] at hlength
  have hintake : ∀ s : Happening M, s.event = .receive → intake (h ++ [s]) = intake h := by
    intro s hs
    have hnone : s.event.result = [] := by rw [hs]; rfl
    have hnone' : s.event.leftover = [] := by rw [hs]; rfl
    rw [intake_snoc _ _ (.inl hnone), hnone, hnone', List.append_nil, List.append_nil]
  constructor
  · exact (Channel.capacity_of_receive hreceive).trans a.capacity_eq
  · show channel.messages.length ≤ capacity
    omega
  · rw [hintake _ rfl]
    exact a.read
  · rw [handedOn_snoc, List.length_append, a.handled]
    rfl
  · rw [hintake _ rfl]
    show _ = p.handled + 1 + p.dropped + (channel.messages ++ p.reader.held).length
    omega
  · rw [hintake _ rfl, handedOn_snoc, hflowing]
    exact ⟨channel.messages ++ p.reader.held, List.append_assoc _ _ _⟩
  · intro _
    rw [hintake _ rfl, handedOn_snoc, hflowing, List.append_assoc]
    rfl
  · intro hclosed
    have hbefore : p.channel.closed = true := (Channel.closed_of_receive hreceive).symm.trans hclosed
    cases hopen.symm.trans hbefore
  · exact fun hlast => hlast.elim
  · intro hnot
    rw [leftovers_snoc, a.ungathered hnot]
    rfl

/-- The handler asks to stop. What is in the channel is dropped, and nothing else will get there. -/
theorem stopped (a : Accounted capacity h p) :
    Accounted capacity (h ++ [⟨p, .handleReturns .stop, .quiet, p.refuse⟩]) p.refuse := by
  have hintake : intake (h ++ [⟨p, .handleReturns .stop, .quiet, p.refuse⟩]) = intake h := by
    rw [intake_snoc _ _ (.inl rfl)]
    exact List.append_nil _
  have hhandedOn : handedOn (h ++ [⟨p, .handleReturns .stop, .quiet, p.refuse⟩]) = handedOn h := by
    rw [handedOn_snoc]
    exact List.append_nil _
  have hbalance := a.balance
  rw [underway, List.length_append] at hbalance
  constructor
  · exact a.capacity_eq
  · exact Nat.zero_le _
  · rw [hintake]
    exact a.read
  · rw [hhandedOn]
    exact a.handled
  · rw [hintake]
    show _ = p.handled + (p.dropped + p.channel.messages.length) + p.reader.held.length
    omega
  · rw [hhandedOn, hintake]
    exact a.order
  · intro hopen
    cases hopen
  · exact fun _ => ⟨rfl, trivial, _, List.mem_append_right _ List.mem_cons_self, rfl⟩
  · exact fun _ => ⟨rfl, .inl rfl⟩
  · intro hnot
    rw [leftovers_snoc, a.ungathered hnot]
    rfl

/-- A call begins, goes on or is given up. -/
theorem of_call (a : Accounted capacity h p) (hresult : event.result = []) (hleftover : event.leftover = [])
    (hhanded : handedBy ⟨p, event, reply, p'⟩ = []) (hchannel : p'.channel = p.channel)
    (hreader : p'.reader = p.reader) (hstats : p'.stats = p.stats) (hhandler : p'.handler = p.handler) :
    Accounted capacity (h ++ [⟨p, event, reply, p'⟩]) p' :=
  a.of_still hresult hleftover hhanded hchannel hreader hstats (fun hlast => hhandler ▸ hlast)
    (fun hlast => .inl (hhandler ▸ hlast))

/-- The same as `of_call`, for a call with which the last handle may go. -/
theorem of_parting (a : Accounted capacity h p) (hresult : event.result = []) (hleftover : event.leftover = [])
    (hhanded : ∀ p', handedBy ⟨p, event, reply, p'⟩ = []) (hchannel : p'.channel = p.channel)
    (hreader : p'.reader = p.reader) (hstats : p'.stats = p.stats) (hhandler : p'.handler = p.handler) :
    Accounted capacity (h ++ [⟨p, event, reply, p'.stopIfForsaken⟩]) p'.stopIfForsaken := by
  rcases p'.stopIfForsaken_eq with hsame | hstopped
  · rw [hsame]
    exact a.of_call hresult hleftover (hhanded _) hchannel hreader hstats hhandler
  · rw [hstopped]
    exact a.of_call hresult hleftover (hhanded _) hchannel hreader hstats hhandler

/-- The reader goes from one phase to another, and it has neither gathered nor held anything before. -/
theorem of_phase (a : Accounted capacity h p) {phase phase' : ReaderPhase M} (hphase : p.reader = phase)
    (hgathered : phase.hasGathered = false) (hresult : event.result = []) (hleftover : event.leftover = [])
    (hhanded : ∀ p', handedBy ⟨p, event, reply, p'⟩ = []) (hheld : phase'.held = phase.held) :
    Accounted capacity (h ++ [⟨p, event, reply, { p with reader := phase' }⟩]) { p with reader := phase' } := by
  have hreader : p.reader ≠ .ended := by
    rw [hphase]
    intro hended
    rw [hended] at hgathered
    cases hgathered
  refine a.of_reads hreader ?_ (hhanded _) (.inl hresult) fun _ => ⟨?_, hleftover⟩
  · rw [hresult, hleftover]
    refine Reads.of_phase ?_
    rw [hphase]
    exact hheld
  · rw [hphase]
    exact hgathered

/-- The reader goes on with the messages that it holds. -/
theorem sendResumes (a : Accounted capacity h p) (e : Effect p .sendResumes reply p') :
    Accounted capacity (h ++ [⟨p, .sendResumes, reply, p'⟩]) p' := by
  cases e with
  | ignored hwhy => rcases hwhy with ⟨hwhy, -⟩ | ⟨hwhy, -⟩ <;> cases hwhy
  | @sent m channel hsending hoffer =>
    have hheld : p.reader.held = [m] := by
      rw [hsending]
      rfl
    refine a.of_reads (by rw [hsending]; exact nofun) ?_ rfl (.inl rfl) fun _ => ⟨by rw [hsending]; rfl, rfl⟩
    exact Reads.resume_accepted hheld hoffer (Reads.of_phase rfl)
  | @refused m channel hsending hoffer =>
    have hheld : p.reader.held = [m] := by
      rw [hsending]
      rfl
    refine a.of_reads (by rw [hsending]; exact nofun) ?_ rfl (.inl rfl) fun _ => ⟨by rw [hsending]; rfl, rfl⟩
    exact Reads.resume_refused hheld hoffer (Reads.of_phase rfl)
  | @forwarded m rest channel hforwarding hoffer =>
    have hheld : p.reader.held = m :: rest := by
      rw [hforwarding]
      rfl
    refine a.of_reads (by rw [hforwarding]; exact nofun) ?_ rfl (.inl rfl) fun hnot => ?_
    · refine Reads.resume_accepted hheld hoffer ?_
      rw [← forward_of_phase _ .leaving]
      exact Reads.forward rfl rest
    · rw [forward_hasGathered] at hnot
      cases hnot
  | @forwardRefused m rest channel hforwarding hoffer =>
    have hheld : p.reader.held = m :: rest := by
      rw [hforwarding]
      rfl
    refine a.of_reads (by rw [hforwarding]; exact nofun) ?_ rfl (.inl rfl) fun hnot => ?_
    · refine Reads.resume_refused hheld hoffer ?_
      rw [← forward_of_phase _ .leaving]
      exact Reads.forward rfl rest
    · rw [forward_hasGathered] at hnot
      cases hnot

/-- Every event keeps the account. -/
theorem step (a : Accounted capacity h p) (hstep : p.step event = some (reply, p')) :
    Accounted capacity (h ++ [⟨p, event, reply, p'⟩]) p' := by
  cases step_effect hstep with
  | paused => exact a.of_call rfl rfl rfl rfl rfl rfl rfl
  | resumed => exact a.of_call rfl rfl rfl rfl rfl rfl rfl
  | ignored hwhy =>
    rcases hwhy with ⟨rfl, -⟩ | ⟨rfl, -⟩
    · exact a.of_call rfl rfl rfl rfl rfl rfl rfl
    · exact a.of_call rfl rfl rfl rfl rfl rfl rfl
  | stopping => exact a.of_call rfl rfl rfl rfl rfl rfl rfl
  | joining => exact a.of_call rfl rfl rfl rfl rfl rfl rfl
  | joined => exact a.of_parting rfl rfl (fun _ => rfl) rfl rfl rfl rfl
  | awaited => exact a.of_call rfl rfl rfl rfl rfl rfl rfl
  | cancelled => exact a.of_parting rfl rfl (fun _ => rfl) rfl rfl rfl rfl
  | copied => exact a.of_call rfl rfl rfl rfl rfl rfl rfl
  | released => exact a.of_parting rfl rfl (fun _ => rfl) rfl rfl rfl rfl
  | begun hlooking => exact a.of_phase hlooking rfl rfl rfl (fun _ => rfl) rfl
  | held hlooking => exact a.of_phase hlooking rfl rfl rfl (fun _ => rfl) rfl
  | left hlooking => exact a.of_phase hlooking rfl rfl rfl (fun _ => rfl) rfl
  | unpaused hpaused => exact a.of_phase hpaused rfl rfl rfl (fun _ => rfl) rfl
  | exhausted hreading => exact a.of_phase hreading rfl rfl rfl (fun _ => rfl) rfl
  | readCancelled hreading => exact a.of_phase hreading rfl rfl rfl (fun _ => rfl) rfl
  | @read m hreading =>
    have hbefore : p.reader.hasGathered = false := by
      rw [hreading]
      rfl
    exact a.of_reads (by rw [hreading]; exact nofun) (Reads.sendRead hreading m) rfl (.inr hbefore)
      fun _ => ⟨hbefore, rfl⟩
  | sent hsending hoffer => exact a.sendResumes (.sent hsending hoffer)
  | refused hsending hoffer => exact a.sendResumes (.refused hsending hoffer)
  | forwarded hforwarding hoffer => exact a.sendResumes (.forwarded hforwarding hoffer)
  | forwardRefused hforwarding hoffer => exact a.sendResumes (.forwardRefused hforwarding hoffer)
  | @gathered ms hleaving =>
    refine a.of_reads (by rw [hleaving]; exact nofun) (Reads.forward (by rw [hleaving]; rfl) ms) rfl
      (.inl rfl) fun hnot => ?_
    rw [forward_hasGathered] at hnot
    cases hnot
  | readerFinished hfinishing =>
    refine a.of_reads (by rw [hfinishing]; exact nofun) (Reads.of_phase (by rw [hfinishing]; rfl)) rfl
      (.inl rfl) fun hnot => ?_
    cases hnot
  | received hreceiving hreceive => exact a.received hreceiving hreceive
  | drained hreceiving hnone hended =>
    exact a.of_still rfl rfl rfl rfl rfl rfl (fun _ => trivial) fun _ => .inr ⟨hnone, hended⟩
  | handled hhandling =>
    refine a.of_still rfl rfl rfl rfl rfl rfl (fun hlast => ?_) fun hlast => hlast.elim
    rw [hhandling] at hlast
    exact hlast.elim
  | stopped => exact a.stopped
  | handlerFinished hfinishing =>
    refine a.of_still rfl rfl rfl rfl rfl rfl (fun _ => trivial) fun _ => .inl ?_
    rw [hfinishing]
    trivial

end Accounted

/-- Every schedule keeps the account. -/
theorem accounted (settings : ProcessorSettings) (events : List (Event M)) :
    Accounted settings.capacity (happenings settings events) (afterEvents settings events) := by
  refine Schedule.induction (Accounted.start settings) ?_ events
  intro h p event reply p' a hstep
  exact a.step hstep

/-! ### Conservation -/

/-- In every state the messages that were read and neither handled nor dropped number at most the capacity and
one, and the handler was called with the first messages in reading order. Nothing is dropped unless the handler
asks to stop. When both tasks have ended, every message was read, and each was handled or dropped. -/
theorem read_accounted (settings : ProcessorSettings) (events : List (Event M)) :
    let h := happenings settings events
    let p := afterEvents settings events
    p.handled + p.dropped ≤ p.read ∧ p.read ≤ p.handled + p.dropped + (settings.capacity + 1) ∧
      handedOn h = (intake h).take p.handled ∧
      ((∀ s ∈ h, s.event.stops = false) → p.dropped = 0) ∧
      (p.reader = .ended ∧ p.handler = .ended →
        p.read = p.handled + p.dropped ∧ p.read = (intake h).length) := by
  intro h p
  have a : Accounted settings.capacity h p := accounted settings events
  have hread := a.read
  have hbalance := a.balance
  have hlength := a.length_le
  have htail := p.reader.held.length_tail
  rw [underway, List.length_append] at hbalance
  refine ⟨by omega, by omega, a.handedOn_eq_take, fun hgo => ?_, fun hended => ?_⟩
  · exact a.dropped_eq_zero (a.open_of_going hgo)
  · obtain ⟨hreader, hhandler⟩ := hended
    exact ⟨a.read_eq hreader hhandler, a.read_of_ended hreader⟩

/-- The handler asks to stop while one message is in the channel, the reader holds another and a third one is
still to be gathered. -/
example :
    (afterEvents { capacity := 1 } [.look, .readReturns (some 10), .receive, .look, .readReturns (some 11),
      .look, .readReturns (some 12), .handleReturns .stop, .sendResumes, .takePending [13], .readerFinishes,
      .handlerFinishes]).stats = ⟨4, 1, 3⟩ := by
  decide

end Processor

end Sluice
