import Sluice.Proofs.Worker.Tally

/-!
# What is over when a call that waits for the end returns

Any number of calls wait for the end of a processor, and any of them may be given up. Only the first one of the
line waits for the tasks, one after the other, and a task whose end it has seen is not waited for again. So the
invariant is that a task that nobody need wait for has ended (`Awaited`). It does not matter who has seen its end.

What the two tasks do is told by a history as a list of acts (`readerActs`, `handlerActs`). A task calls, always one
call after the other, and then closes: the reader first gathers what it had accepted. What a task has done since its
last call follows from where it waits (`ReaderPhase.since`, `HandlerPhase.since`), and an event adds to it or ends
the call (`Act.Extends`). `ended_when_joined` puts this together at the event with which a call returns, and adds
that nothing of it changes afterwards.
-/

namespace Sluice

namespace Processor

variable {M : Type} {p p' : Processor M} {event : Event M} {reply : Reply}

/-! ### What is settled once and for all -/

theorem stats_stopIfForsaken (p : Processor M) : p.stopIfForsaken.stats = p.stats := by
  rcases p.stopIfForsaken_eq with h | h
  · rw [h]
  · rw [h]
    rfl

theorem unjoined_stopIfForsaken (p : Processor M) : p.stopIfForsaken.unjoined = p.unjoined := by
  rcases p.stopIfForsaken_eq with h | h
  · rw [h]
  · rw [h]

theorem control_stopIfForsaken (hstopped : p.control = .stopped) : p.stopIfForsaken.control = .stopped := by
  rcases p.stopIfForsaken_eq with h | h
  · rw [h]
    exact hstopped
  · rw [h]

theorem sendRead_keeps (p : Processor M) (m : M) :
    (p.sendRead m).control = p.control ∧ (p.sendRead m).unjoined = p.unjoined := by
  rw [sendRead]
  split <;> exact ⟨rfl, rfl⟩

theorem forward_keeps (p : Processor M) (ms : List M) :
    (p.forward ms).control = p.control ∧ (p.forward ms).unjoined = p.unjoined := by
  induction ms generalizing p with
  | nil => exact ⟨rfl, rfl⟩
  | cons m rest ih =>
    rw [forward]
    split
    · exact ih _
    · exact ⟨rfl, rfl⟩
    · exact ih _

/-- Nothing makes a processor go on that has been stopped. -/
theorem Effect.control_stopped (e : Effect p event reply p') (hstopped : p.control = .stopped) :
    p'.control = .stopped := by
  cases e with
  | paused _ hrunning => cases hrunning.symm.trans hstopped
  | resumed _ hpaused => cases hpaused.symm.trans hstopped
  | stopping => rfl
  | joined => exact control_stopIfForsaken hstopped
  | cancelled => exact control_stopIfForsaken hstopped
  | released => exact control_stopIfForsaken hstopped
  | read => exact (sendRead_keeps _ _).1.trans hstopped
  | forwarded => exact (forward_keeps _ _).1.trans hstopped
  | forwardRefused => exact (forward_keeps _ _).1.trans hstopped
  | gathered => exact (forward_keeps _ _).1.trans hstopped
  | stopped => rfl
  | _ => exact hstopped

/-- A reader that has ended stays so. -/
theorem Effect.reader_ended (e : Effect p event reply p') (hended : p.reader = .ended) :
    p'.reader = .ended := by
  cases e with
  | joined => exact (reader_stopIfForsaken _).trans hended
  | cancelled => exact (reader_stopIfForsaken _).trans hended
  | released => exact (reader_stopIfForsaken _).trans hended
  | begun hreader => cases hreader.symm.trans hended
  | held hreader => cases hreader.symm.trans hended
  | left hreader => cases hreader.symm.trans hended
  | unpaused hreader => cases hreader.symm.trans hended
  | read hreader => cases hreader.symm.trans hended
  | exhausted hreader => cases hreader.symm.trans hended
  | readCancelled hreader => cases hreader.symm.trans hended
  | sent hreader => cases hreader.symm.trans hended
  | refused hreader => cases hreader.symm.trans hended
  | forwarded hreader => cases hreader.symm.trans hended
  | forwardRefused hreader => cases hreader.symm.trans hended
  | gathered hreader => cases hreader.symm.trans hended
  | readerFinished => rfl
  | _ => exact hended

/-- A handler that has ended stays so. -/
theorem Effect.handler_ended (e : Effect p event reply p') (hended : p.handler = .ended) :
    p'.handler = .ended := by
  cases e with
  | joined => exact (handler_stopIfForsaken _).trans hended
  | cancelled => exact (handler_stopIfForsaken _).trans hended
  | released => exact (handler_stopIfForsaken _).trans hended
  | read => exact (handler_sendRead _ _).trans hended
  | forwarded => exact (handler_forward _ _).trans hended
  | forwardRefused => exact (handler_forward _ _).trans hended
  | gathered => exact (handler_forward _ _).trans hended
  | received hhandler => cases hhandler.symm.trans hended
  | drained hhandler => cases hhandler.symm.trans hended
  | handled hhandler => cases hhandler.symm.trans hended
  | stopped hhandler => cases hhandler.symm.trans hended
  | handlerFinished => rfl
  | _ => exact hended

/-- When both tasks have ended, nothing is counted any more. -/
theorem Effect.stats_of_ended (e : Effect p event reply p') (hreader : p.reader = .ended)
    (hhandler : p.handler = .ended) : p'.stats = p.stats := by
  cases e with
  | joined => exact stats_stopIfForsaken _
  | cancelled => exact stats_stopIfForsaken _
  | released => exact stats_stopIfForsaken _
  | read hreading => cases hreading.symm.trans hreader
  | refused hsending => cases hsending.symm.trans hreader
  | forwarded hforwarding => cases hforwarding.symm.trans hreader
  | forwardRefused hforwarding => cases hforwarding.symm.trans hreader
  | gathered hleaving => cases hleaving.symm.trans hreader
  | received hreceiving => cases hreceiving.symm.trans hhandler
  | stopped hhandling => cases hhandling.symm.trans hhandler
  | _ => rfl

/-! ### The tasks that are waited for -/

/-- A task that nobody need wait for any more has ended. -/
def Awaited (p : Processor M) : Prop := ∀ w, w ∉ p.unjoined → p.hasEnded w = true

theorem Effect.hasEnded (e : Effect p event reply p') {w : Worker} (hended : p.hasEnded w = true) :
    p'.hasEnded w = true := by
  rw [hasEnded_iff] at hended ⊢
  exact ⟨fun hw => e.reader_ended (hended.1 hw), fun hw => e.handler_ended (hended.2 hw)⟩

/-- Only a task that has ended is no longer waited for. -/
theorem Effect.unjoined (e : Effect p event reply p') :
    p'.unjoined = p.unjoined ∨ ∃ w, p.unjoined = w :: p'.unjoined ∧ p.hasEnded w = true := by
  cases e with
  | awaited _ hunjoined hended => exact .inr ⟨_, hunjoined, hended⟩
  | joined => exact .inl (unjoined_stopIfForsaken _)
  | cancelled => exact .inl (unjoined_stopIfForsaken _)
  | released => exact .inl (unjoined_stopIfForsaken _)
  | read => exact .inl (sendRead_keeps _ _).2
  | forwarded => exact .inl (forward_keeps _ _).2
  | forwardRefused => exact .inl (forward_keeps _ _).2
  | gathered => exact .inl (forward_keeps _ _).2
  | _ => exact .inl rfl

namespace Awaited

theorem ofSettings (s : ProcessorSettings) : Awaited (Processor.ofSettings s : Processor M) :=
  (Tidy.ofSettings s).awaited

theorem effect (a : Awaited p) (e : Effect p event reply p') : Awaited p' := by
  intro w hw
  refine e.hasEnded ?_
  rcases e.unjoined with hsame | ⟨worker, hunjoined, hended⟩
  · exact a w (hsame ▸ hw)
  · by_cases hworker : w = worker
    · exact hworker ▸ hended
    · refine a w ?_
      rw [hunjoined]
      exact List.not_mem_cons_of_ne_of_not_mem hworker hw

theorem ended (a : Awaited p) (hnone : p.unjoined = []) : p.reader = .ended ∧ p.handler = .ended := by
  have hall : ∀ w, p.hasEnded w = true := fun w => a w (hnone ▸ List.not_mem_nil)
  exact ⟨(hasEnded_iff.mp (hall .reader)).1 rfl, (hasEnded_iff.mp (hall .handler)).2 rfl⟩

end Awaited

/-! ### What the tasks do -/

/-- What a task does. Its calls are the reads of the reader and the handling of messages by the handler. -/
inductive Act where
  | callBegins
  | callEnds
  /-- The messages are taken that the reader had accepted and not read. -/
  | gathers
  | closingBegins
  | closingEnds
  deriving DecidableEq, Repr

/-- A number of calls, one after the other. -/
def Act.calls (n : Nat) : List Act := (List.replicate n [.callBegins, .callEnds]).flatten

/-- With some acts more, what a task has done since its last call makes up calls and what follows the last of
them. -/
def Act.Extends (since acts since' : List Act) : Prop := ∃ n, since ++ acts = calls n ++ since'

theorem Act.calls_add (m n : Nat) : calls (m + n) = calls m ++ calls n := by
  rw [calls, ← List.replicate_append_replicate, List.flatten_append]
  rfl

namespace Act.Extends

variable {since acts since' all : List Act}

theorem refl (since : List Act) : Extends since [] since := ⟨0, List.append_nil since⟩

/-- The acts go on, and no call ends. -/
theorem of_append (h : since ++ acts = since') : Extends since acts since' := ⟨0, h⟩

/-- The call ends. -/
theorem of_call (h : since ++ acts = [.callBegins, .callEnds] ++ since') : Extends since acts since' := ⟨1, h⟩

theorem calls (x : Extends since acts since') (h : ∃ n, all = Act.calls n ++ since) :
    ∃ n, all ++ acts = Act.calls n ++ since' := by
  obtain ⟨m, rfl⟩ := h
  obtain ⟨n, h⟩ := x
  refine ⟨m + n, ?_⟩
  rw [List.append_assoc, h, calls_add, List.append_assoc]

/-- A task that is past its last call and whose state does not change has nothing more to do. -/
theorem eq_nil {first : Act} {rest : List Act} (x : Extends (first :: rest) acts (first :: rest))
    (hfirst : first ≠ .callBegins) : acts = [] := by
  obtain ⟨n, h⟩ := x
  cases n with
  | zero => exact List.append_right_eq_self.mp h
  | succ n =>
    rw [Nat.add_comm, calls_add] at h
    exact absurd (List.cons.inj h).1 hfirst

end Act.Extends

/-- What the reader has done since its last read, by where it waits. -/
def ReaderPhase.since : ReaderPhase M → List Act
  | .reading => [.callBegins]
  | .forwarding _ _ => [.gathers]
  | .finishing => [.gathers, .closingBegins]
  | .ended => [.gathers, .closingBegins, .closingEnds]
  | _ => []

/-- What the handler has done since it last handled a message, by where it waits. -/
def HandlerPhase.since : HandlerPhase M → List Act
  | .receiving => []
  | .handling _ => [.callBegins]
  | .finishing => [.closingBegins]
  | .ended => [.closingBegins, .closingEnds]

/-- What the reader does in an event. -/
def readerActsOf (s : Happening M) : List Act :=
  match s.event, s.after.reader with
  | .look, .reading => [.callBegins]
  | .readReturns _, _ => [.callEnds]
  | .readCancelled, _ => [.callEnds]
  | .takePending _, .finishing => [.gathers, .closingBegins]
  | .takePending _, _ => [.gathers]
  | .sendResumes, .finishing => [.closingBegins]
  | .readerFinishes, _ => [.closingEnds]
  | _, _ => []

/-- What the handler does in an event. -/
def handlerActsOf (s : Happening M) : List Act :=
  match s.event, s.after.handler with
  | .receive, .handling _ => [.callBegins]
  | .receive, .finishing => [.closingBegins]
  | .handleReturns .continue, _ => [.callEnds]
  | .handleReturns .stop, _ => [.callEnds, .closingBegins]
  | .handlerFinishes, _ => [.closingEnds]
  | _, _ => []

/-- What the reader has done. -/
def readerActs (h : List (Happening M)) : List Act := h.flatMap readerActsOf

/-- What the handler has done. -/
def handlerActs (h : List (Happening M)) : List Act := h.flatMap handlerActsOf

theorem readerActs_snoc (h : List (Happening M)) (s : Happening M) :
    readerActs (h ++ [s]) = readerActs h ++ readerActsOf s := by
  simp only [readerActs, List.flatMap_append, List.flatMap_singleton]

theorem handlerActs_snoc (h : List (Happening M)) (s : Happening M) :
    handlerActs (h ++ [s]) = handlerActs h ++ handlerActsOf s := by
  simp only [handlerActs, List.flatMap_append, List.flatMap_singleton]

/-- A reader that forwards is at its closing work afterwards, or there is no room for some message. -/
theorem forward_reader (p : Processor M) (ms : List M) :
    (p.forward ms).reader = .finishing ∨ ∃ m rest, (p.forward ms).reader = .forwarding m rest := by
  induction ms generalizing p with
  | nil => exact .inl rfl
  | cons m rest ih =>
    rw [forward]
    split
    · exact ih _
    · exact .inr ⟨m, rest, rfl⟩
    · exact ih _

theorem sendRead_since (p : Processor M) (m : M) : (p.sendRead m).reader.since = [] := by
  rw [sendRead]
  split <;> rfl

theorem Effect.readerActs (e : Effect p event reply p') :
    Act.Extends p.reader.since (readerActsOf ⟨p, event, reply, p'⟩) p'.reader.since := by
  -- The reader goes on to forward messages.
  have forwarding : ∀ {q : Processor M} {m : M} {rest ms : List M}, p.reader = .forwarding m rest →
      Act.Extends p.reader.since (readerActsOf ⟨p, .sendResumes, reply, q.forward ms⟩)
        (q.forward ms).reader.since := by
    intro q m rest ms hreader
    rw [hreader]
    rcases q.forward_reader ms with h | ⟨m', rest', h⟩
    · simp only [readerActsOf, h]
      exact .of_append rfl
    · simp only [readerActsOf, h]
      exact .refl _
  have aside : ∀ {q : Processor M}, q.reader = p.reader →
      Act.Extends p.reader.since [] q.stopIfForsaken.reader.since := by
    intro q hreader
    rw [reader_stopIfForsaken, hreader]
    exact .refl _
  cases e with
  | ignored hwhy =>
    rcases hwhy with ⟨rfl, -⟩ | ⟨rfl, -⟩
    · exact .refl _
    · exact .refl _
  | joined => exact aside rfl
  | cancelled => exact aside rfl
  | released => exact aside rfl
  | begun hreader =>
    rw [hreader]
    exact .of_append rfl
  | held hreader =>
    rw [hreader]
    exact .refl _
  | left hreader =>
    rw [hreader]
    exact .refl _
  | unpaused hreader =>
    rw [hreader]
    exact .refl _
  | read hreader =>
    rw [hreader]
    exact .of_call (by rw [sendRead_since]; rfl)
  | exhausted hreader =>
    rw [hreader]
    exact .of_call rfl
  | readCancelled hreader =>
    rw [hreader]
    exact .of_call rfl
  | sent hreader =>
    rw [hreader]
    exact .refl _
  | refused hreader =>
    rw [hreader]
    exact .refl _
  | forwarded hreader => exact forwarding hreader
  | forwardRefused hreader => exact forwarding hreader
  | @gathered ms hreader =>
    rw [hreader]
    rcases p.forward_reader ms with h | ⟨m', rest', h⟩
    · simp only [readerActsOf, h]
      exact .of_append rfl
    · simp only [readerActsOf, h]
      exact .of_append rfl
  | readerFinished hreader =>
    rw [hreader]
    exact .of_append rfl
  | _ => exact .refl _

theorem Effect.handlerActs (e : Effect p event reply p') :
    Act.Extends p.handler.since (handlerActsOf ⟨p, event, reply, p'⟩) p'.handler.since := by
  have aside : ∀ {q : Processor M}, q.handler = p.handler →
      Act.Extends p.handler.since [] q.handler.since := by
    intro q hhandler
    rw [hhandler]
    exact .refl _
  cases e with
  | ignored hwhy =>
    rcases hwhy with ⟨rfl, -⟩ | ⟨rfl, -⟩
    · exact .refl _
    · exact .refl _
  | joined => exact aside (handler_stopIfForsaken _)
  | cancelled => exact aside (handler_stopIfForsaken _)
  | released => exact aside (handler_stopIfForsaken _)
  | read => exact aside (handler_sendRead _ _)
  | forwarded => exact aside (handler_forward _ _)
  | forwardRefused => exact aside (handler_forward _ _)
  | gathered => exact aside (handler_forward _ _)
  | received hhandler =>
    rw [hhandler]
    exact .of_append rfl
  | drained hhandler =>
    rw [hhandler]
    exact .of_append rfl
  | handled hhandler =>
    rw [hhandler]
    exact .of_call rfl
  | stopped hhandler =>
    rw [hhandler]
    exact .of_call rfl
  | handlerFinished hhandler =>
    rw [hhandler]
    exact .of_append rfl
  | _ => exact .refl _

/-! ### The end -/

/-- A task that has ended does nothing more. -/
theorem Effect.acts_of_ended (e : Effect p event reply p') (hreader : p.reader = .ended)
    (hhandler : p.handler = .ended) :
    readerActsOf ⟨p, event, reply, p'⟩ = [] ∧ handlerActsOf ⟨p, event, reply, p'⟩ = [] := by
  have hreaderActs := e.readerActs
  have hhandlerActs := e.handlerActs
  rw [hreader, e.reader_ended hreader] at hreaderActs
  rw [hhandler, e.handler_ended hhandler] at hhandlerActs
  exact ⟨hreaderActs.eq_nil nofun, hhandlerActs.eq_nil nofun⟩

/-- What a history and the processor after it keep to: a task that nobody waits for has ended, and both tasks do
their calls one after the other and close at the end. -/
structure Regular (h : List (Happening M)) (p : Processor M) : Prop where
  awaited : Awaited p
  reader : ∃ n, readerActs h = Act.calls n ++ p.reader.since
  handler : ∃ n, handlerActs h = Act.calls n ++ p.handler.since

theorem Regular.effect {h : List (Happening M)} (r : Regular h p) (e : Effect p event reply p') :
    Regular (h ++ [⟨p, event, reply, p'⟩]) p' where
  awaited := r.awaited.effect e
  reader := by
    rw [readerActs_snoc]
    exact e.readerActs.calls r.reader
  handler := by
    rw [handlerActs_snoc]
    exact e.handlerActs.calls r.handler

theorem regular (settings : ProcessorSettings) (events : List (Event M)) :
    Regular (happenings settings events) (afterEvents settings events) := by
  refine Schedule.induction ⟨.ofSettings settings, ⟨0, rfl⟩, ⟨0, rfl⟩⟩ ?_ events
  intro h p event reply p' r hstep
  exact r.effect (step_effect hstep)

/-- Both tasks have ended, with some counters. -/
structure Over (stats : ProcessorStats) (p : Processor M) : Prop where
  reader : p.reader = .ended
  handler : p.handler = .ended
  stats_eq : p.stats = stats

theorem Over.effect {stats : ProcessorStats} (o : Over stats p) (e : Effect p event reply p') :
    Over stats p' :=
  ⟨e.reader_ended o.reader, e.handler_ended o.handler, (e.stats_of_ended o.reader o.handler).trans o.stats_eq⟩

/-- A call returns only when nobody need wait for a task any more, and it returns the counters. -/
theorem Effect.unjoined_of_joined {call : CallId} {stats : ProcessorStats}
    (e : Effect p event (.joined call stats) p') : p.unjoined = [] ∧ p.stats = stats := by
  cases e with
  | joined _ hunjoined => exact ⟨hunjoined, rfl⟩

/-- When a call that waits for the end returns, both tasks have ended. The reader has gathered what was left and
done its closing work once, after its last read, and the handler has done its closing work once, after the last
message that it handled. From then on neither task does anything, the processor is not running, and its counters
are those that the call returns. Apart from that, a processor that is stopped stays so. -/
theorem ended_when_joined (settings : ProcessorSettings) (events : List (Event M))
    {before after : List (Happening M)} {s : Happening M}
    (hsplit : happenings settings events = before ++ s :: after) :
    (s.before.control = .stopped → ∀ r ∈ s :: after, r.after.control = .stopped) ∧
    ∀ call stats, s.reply = .joined call stats →
      (s.before.reader = .ended ∧ s.before.handler = .ended) ∧
      (∃ n, readerActs before = Act.calls n ++ [.gathers, .closingBegins, .closingEnds]) ∧
      (∃ n, handlerActs before = Act.calls n ++ [.closingBegins, .closingEnds]) ∧
      ∀ r ∈ s :: after, readerActsOf r = [] ∧ handlerActsOf r = [] ∧
        r.before.isRunning = false ∧ r.before.stats = stats ∧
        r.after.isRunning = false ∧ r.after.stats = stats := by
  obtain ⟨first, rest, hbefore, hstate, hstep, hafter⟩ := Schedule.split hsplit
  have hrest : Schedule.occurrences step s.before (s.event :: rest) = s :: after := by
    rw [Schedule.occurrences, hstep]
    exact congrArg _ hafter
  refine ⟨fun hstopped r hr => ?_, fun call stats hreply => ?_⟩
  · obtain ⟨-, hall⟩ := Schedule.invariant (I := fun p : Processor M => p.control = .stopped) hstopped
      (fun p event reply p' h hstep => (step_effect hstep).control_stopped h) (s.event :: rest)
    obtain ⟨hr, hstep⟩ := hall r (hrest ▸ hr)
    exact (step_effect hstep).control_stopped hr
  · have hregular : Regular before s.before := by
      rw [← hbefore, ← hstate]
      exact regular settings first
    rw [hreply] at hstep
    obtain ⟨hnone, hstats⟩ := (step_effect hstep).unjoined_of_joined
    obtain ⟨hreader, hhandler⟩ := hregular.awaited.ended hnone
    have hreaderActs := hregular.reader
    have hhandlerActs := hregular.handler
    rw [hreader] at hreaderActs
    rw [hhandler] at hhandlerActs
    refine ⟨⟨hreader, hhandler⟩, hreaderActs, hhandlerActs, fun r hr => ?_⟩
    obtain ⟨-, hall⟩ := Schedule.invariant (I := Over stats) ⟨hreader, hhandler, hstats⟩
      (fun p event reply p' o hstep => o.effect (step_effect hstep)) (s.event :: rest)
    obtain ⟨o, hstep⟩ := hall r (hrest ▸ hr)
    have o' := o.effect (step_effect hstep)
    obtain ⟨hreads, hhandles⟩ := (step_effect hstep).acts_of_ended o.reader o.handler
    exact ⟨hreads, hhandles, isRunning_eq_false_iff.mpr ⟨o.reader, o.handler⟩, o.stats_eq,
      isRunning_eq_false_iff.mpr ⟨o'.reader, o'.handler⟩, o'.stats_eq⟩

/-- A schedule in which a call waits for the end of a processor, another one stops it during a pause, the first is
given up and a third comes. -/
def lastCalls : List (Event Nat) :=
  [.look, .readReturns (some 10), .receive, .look, .join 1, .pause, .stop 2, .cancel 1, .readCancelled, .join 3,
    .takePending [11], .readerFinishes, .handleReturns .continue, .receive, .handleReturns .continue, .receive,
    .handlerFinishes, .advanceLine, .advanceLine, .advanceLine, .resume, .advanceLine]

theorem ended_when_joined_lastCalls :
    let h := happenings .small lastCalls
    ∃ before s after, h = before ++ s :: after ∧ s.before.control = .stopped ∧
      s.reply = .joined 2 ⟨2, 2, 0⟩ ∧ (s.before.reader = .ended ∧ s.before.handler = .ended) ∧
      (∃ n, readerActs before = Act.calls n ++ [.gathers, .closingBegins, .closingEnds]) ∧
      (∃ n, handlerActs before = Act.calls n ++ [.closingBegins, .closingEnds]) ∧
      (∀ r ∈ s :: after, r.after.control = .stopped) ∧
      ∀ r ∈ s :: after, readerActsOf r = [] ∧ handlerActsOf r = [] ∧
        r.before.isRunning = false ∧ r.before.stats = ⟨2, 2, 0⟩ ∧
        r.after.isRunning = false ∧ r.after.stats = ⟨2, 2, 0⟩ := by
  intro h
  have hjoined : ∃ s ∈ h, s.before.control = .stopped ∧ (s.reply matches .joined 2 ⟨2, 2, 0⟩) = true := by
    decide +kernel
  obtain ⟨s, hs, hstopped, hmatch⟩ := hjoined
  obtain ⟨before, after, hsplit⟩ := List.append_of_mem hs
  have hreply : s.reply = .joined 2 ⟨2, 2, 0⟩ := by
    split at hmatch
    · assumption
    · cases hmatch
  obtain ⟨hcontrol, hjoined⟩ := ended_when_joined .small lastCalls hsplit
  obtain ⟨hended, hreader, hhandler, hafter⟩ := hjoined 2 ⟨2, 2, 0⟩ hreply
  exact ⟨before, s, after, hsplit, hstopped, hreply, hended, hreader, hhandler, hcontrol hstopped, hafter⟩

end Processor

end Sluice
