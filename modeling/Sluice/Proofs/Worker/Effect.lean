import Sluice.Proofs.Worker.Channel
import Sluice.Worker.Processor

/-!
# What an event can do to a processor

`Effect` lists, once and for all, the ways in which an event changes a processor, with its answer and with what
is known when it happens. `step_effect` says that every event that can happen has one of these effects. What
follows about a processor is read off the effects.

A first fact of this kind: the reader begins a read only with a look at the control (`Effect.reading`).
-/

namespace Sluice

namespace Processor

variable {M : Type} {p p' : Processor M} {event : Event M} {reply : Reply}

/-! ### The end of a task -/

theorem readerEnded_iff : p.readerEnded = true ↔ p.reader = .ended := by
  rw [readerEnded]
  cases p.reader with
  | ended => exact iff_of_true rfl rfl
  | _ => simp

theorem handlerEnded_iff : p.handlerEnded = true ↔ p.handler = .ended := by
  rw [handlerEnded]
  cases p.handler with
  | ended => exact iff_of_true rfl rfl
  | _ => simp

theorem isRunning_eq_false_iff : p.isRunning = false ↔ p.reader = .ended ∧ p.handler = .ended := by
  rw [isRunning, Bool.or_eq_false_iff, Bool.not_eq_false', Bool.not_eq_false', readerEnded_iff,
    handlerEnded_iff]

theorem hasEnded_iff {w : Worker} :
    p.hasEnded w = true ↔ (w = .reader → p.reader = .ended) ∧ (w = .handler → p.handler = .ended) := by
  cases w with
  | reader => simp [hasEnded, readerEnded_iff]
  | handler => simp [hasEnded, handlerEnded_iff]

theorem stopIfForsaken_eq (p : Processor M) :
    p.stopIfForsaken = p ∨ p.stopIfForsaken = { p with control := .stopped } := by
  rw [stopIfForsaken]
  split
  · exact .inr rfl
  · exact .inl rfl

/-! ### The effects -/

/-- The changes that an event can make, with its answer. -/
inductive Effect (p : Processor M) : Event M → Reply → Processor M → Prop
  | paused : p.handles ≠ 0 → p.control = .running → Effect p .pause .quiet { p with control := .paused }
  | resumed : p.handles ≠ 0 → p.control = .paused → Effect p .resume .quiet { p with control := .running }
  /-- A pause of a processor that is not running, or a resumption of one that is not paused. -/
  | ignored {event : Event M} :
      event = .pause ∧ p.control ≠ .running ∨ event = .resume ∧ p.control ≠ .paused →
      Effect p event .quiet p
  | stopping {call : CallId} :
      p.handles ≠ 0 →
      Effect p (.stop call) .quiet { p with control := .stopped, line := p.line ++ [call] }
  | joining {call : CallId} :
      p.handles ≠ 0 → Effect p (.join call) .quiet { p with line := p.line ++ [call] }
  | joined {call : CallId} {rest : List CallId} :
      p.line = call :: rest → p.unjoined = [] →
      Effect p .advanceLine (.joined call p.stats) ({ p with line := rest } : Processor M).stopIfForsaken
  | awaited {call : CallId} {rest : List CallId} {worker : Worker} {others : List Worker} :
      p.line = call :: rest → p.unjoined = worker :: others → p.hasEnded worker = true →
      Effect p .advanceLine .quiet { p with unjoined := others }
  | cancelled {call : CallId} :
      Effect p (.cancel call) .quiet
        ({ p with line := p.line.filter (· != call) } : Processor M).stopIfForsaken
  | copied : p.handles ≠ 0 → Effect p .copyHandle .quiet { p with handles := p.handles + 1 }
  | released :
      p.handles ≠ 0 →
      Effect p .dropHandle .quiet ({ p with handles := p.handles - 1 } : Processor M).stopIfForsaken
  | begun : p.reader = .looking → p.control = .running → Effect p .look .quiet { p with reader := .reading }
  | held : p.reader = .looking → p.control = .paused → Effect p .look .quiet { p with reader := .paused }
  | left : p.reader = .looking → p.control = .stopped → Effect p .look .quiet { p with reader := .leaving }
  | unpaused :
      p.reader = .paused → p.control ≠ .paused → Effect p .unpause .quiet { p with reader := .looking }
  | read {m : M} : p.reader = .reading → Effect p (.readReturns (some m)) .quiet (p.sendRead m)
  | exhausted : p.reader = .reading → Effect p (.readReturns none) .quiet { p with reader := .leaving }
  | readCancelled :
      p.reader = .reading → p.control = .stopped →
      Effect p .readCancelled .quiet { p with reader := .leaving }
  | sent {m : M} {channel : Channel M} :
      p.reader = .sending m → p.channel.offer m = (.accepted, channel) →
      Effect p .sendResumes .quiet { p with channel, reader := .looking }
  | refused {m : M} {channel : Channel M} :
      p.reader = .sending m → p.channel.offer m = (.closed, channel) →
      Effect p .sendResumes .quiet { p with dropped := p.dropped + 1, reader := .leaving }
  | forwarded {m : M} {rest : List M} {channel : Channel M} :
      p.reader = .forwarding m rest → p.channel.offer m = (.accepted, channel) →
      Effect p .sendResumes .quiet (({ p with channel } : Processor M).forward rest)
  | forwardRefused {m : M} {rest : List M} {channel : Channel M} :
      p.reader = .forwarding m rest → p.channel.offer m = (.closed, channel) →
      Effect p .sendResumes .quiet (({ p with dropped := p.dropped + 1 } : Processor M).forward rest)
  | gathered {ms : List M} : p.reader = .leaving → Effect p (.takePending ms) .quiet (p.forward ms)
  | readerFinished : p.reader = .finishing → Effect p .readerFinishes .quiet { p with reader := .ended }
  | received {m : M} {channel : Channel M} :
      p.handler = .receiving → p.channel.receive = some (m, channel) →
      Effect p .receive .quiet { p with channel, handled := p.handled + 1, handler := .handling m }
  | drained :
      p.handler = .receiving → p.channel.messages = [] → p.reader = .ended →
      Effect p .receive .quiet { p with handler := .finishing }
  | handled {m : M} :
      p.handler = .handling m → Effect p (.handleReturns .continue) .quiet { p with handler := .receiving }
  | stopped {m : M} : p.handler = .handling m → Effect p (.handleReturns .stop) .quiet p.refuse
  | handlerFinished :
      p.handler = .finishing → Effect p .handlerFinishes .quiet { p with handler := .ended }

/-! ### Every event has one of the effects -/

/-! A call begins or goes on. -/

theorem pause_effect (hstep : p.step .pause = some (reply, p')) : Effect p .pause reply p' := by
  obtain ⟨hhandles, heq⟩ := Option.ite_none_left_eq_some.mp hstep
  cases heq
  split
  · next hrunning => exact .paused hhandles hrunning
  · next hrunning => exact .ignored (.inl ⟨rfl, hrunning⟩)

theorem resume_effect (hstep : p.step .resume = some (reply, p')) : Effect p .resume reply p' := by
  obtain ⟨hhandles, heq⟩ := Option.ite_none_left_eq_some.mp hstep
  cases heq
  split
  · next hpaused => exact .resumed hhandles hpaused
  · next hpaused => exact .ignored (.inr ⟨rfl, hpaused⟩)

theorem advanceLine_effect (hstep : p.advanceLine = some (reply, p')) :
    Effect p .advanceLine reply p' := by
  rw [advanceLine] at hstep
  split at hstep
  · cases hstep
  · next call rest hline =>
    split at hstep
    · next hunjoined =>
      cases hstep
      exact .joined hline hunjoined
    · next worker others hunjoined =>
      split at hstep
      · next hended =>
        cases hstep
        exact .awaited hline hunjoined hended
      · cases hstep

/-! The reader moves. -/

theorem look_effect (hstep : p.step .look = some (reply, p')) : Effect p .look reply p' := by
  simp only [step] at hstep
  split at hstep
  · next hlooking =>
    cases hstep
    rw [look]
    split
    · next hrunning => exact .begun hlooking hrunning
    · next hpaused => exact .held hlooking hpaused
    · next hstopped => exact .left hlooking hstopped
  · cases hstep

theorem unpause_effect (hstep : p.step .unpause = some (reply, p')) : Effect p .unpause reply p' := by
  simp only [step] at hstep
  split at hstep
  · next hpaused =>
    obtain ⟨hcontrol, heq⟩ := Option.ite_none_left_eq_some.mp hstep
    cases heq
    exact .unpaused hpaused hcontrol
  · cases hstep

theorem readReturns_effect {message : Option M} (hstep : p.step (.readReturns message) = some (reply, p')) :
    Effect p (.readReturns message) reply p' := by
  simp only [step] at hstep
  split at hstep
  · next hreading =>
    cases message with
    | some m =>
      cases hstep
      exact .read hreading
    | none =>
      cases hstep
      exact .exhausted hreading
  · cases hstep

theorem readCancelled_effect (hstep : p.step .readCancelled = some (reply, p')) :
    Effect p .readCancelled reply p' := by
  simp only [step] at hstep
  split at hstep
  · next hreading =>
    obtain ⟨hstopped, heq⟩ := Option.ite_none_right_eq_some.mp hstep
    cases heq
    exact .readCancelled hreading hstopped
  · cases hstep

theorem sendResumes_effect (hstep : p.step .sendResumes = some (reply, p')) :
    Effect p .sendResumes reply p' := by
  simp only [step] at hstep
  split at hstep
  · next m hsending =>
    split at hstep
    · next channel hoffer =>
      cases hstep
      exact .sent hsending hoffer
    · cases hstep
    · next channel hoffer =>
      cases hstep
      exact .refused hsending hoffer
  · next m rest hforwarding =>
    split at hstep
    · next channel hoffer =>
      cases hstep
      exact .forwarded hforwarding hoffer
    · cases hstep
    · next channel hoffer =>
      cases hstep
      exact .forwardRefused hforwarding hoffer
  · cases hstep

theorem takePending_effect {ms : List M} (hstep : p.step (.takePending ms) = some (reply, p')) :
    Effect p (.takePending ms) reply p' := by
  simp only [step] at hstep
  split at hstep
  · next hleaving =>
    cases hstep
    exact .gathered hleaving
  · cases hstep

theorem readerFinishes_effect (hstep : p.step .readerFinishes = some (reply, p')) :
    Effect p .readerFinishes reply p' := by
  simp only [step] at hstep
  split at hstep
  · next hfinishing =>
    cases hstep
    exact .readerFinished hfinishing
  · cases hstep

/-! The handler moves. -/

theorem receive_effect (hstep : p.step .receive = some (reply, p')) : Effect p .receive reply p' := by
  simp only [step] at hstep
  split at hstep
  · next hreceiving =>
    split at hstep
    · next m channel hreceive =>
      cases hstep
      exact .received hreceiving hreceive
    · next hnone =>
      split at hstep
      · next hended =>
        cases hstep
        exact .drained hreceiving (p.channel.receive_eq_none.mp hnone) (readerEnded_iff.mp hended)
      · cases hstep
  · cases hstep

theorem handleReturns_effect {outcome : HandleOutcome}
    (hstep : p.step (.handleReturns outcome) = some (reply, p')) : Effect p (.handleReturns outcome) reply p' := by
  simp only [step] at hstep
  split at hstep
  · next m hhandling =>
    cases outcome with
    | «continue» =>
      cases hstep
      exact .handled hhandling
    | stop =>
      cases hstep
      exact .stopped hhandling
  · cases hstep

theorem handlerFinishes_effect (hstep : p.step .handlerFinishes = some (reply, p')) :
    Effect p .handlerFinishes reply p' := by
  simp only [step] at hstep
  split at hstep
  · next hfinishing =>
    cases hstep
    exact .handlerFinished hfinishing
  · cases hstep

/-- Every event that can happen has one of the effects. -/
theorem step_effect (hstep : p.step event = some (reply, p')) : Effect p event reply p' := by
  cases event with
  | pause => exact pause_effect hstep
  | resume => exact resume_effect hstep
  | stop call =>
    obtain ⟨hhandles, heq⟩ := Option.ite_none_left_eq_some.mp hstep
    cases heq
    exact .stopping hhandles
  | join call =>
    obtain ⟨hhandles, heq⟩ := Option.ite_none_left_eq_some.mp hstep
    cases heq
    exact .joining hhandles
  | advanceLine => exact advanceLine_effect hstep
  | cancel call =>
    cases hstep
    exact .cancelled
  | copyHandle =>
    obtain ⟨hhandles, heq⟩ := Option.ite_none_left_eq_some.mp hstep
    cases heq
    exact .copied hhandles
  | dropHandle =>
    obtain ⟨hhandles, heq⟩ := Option.ite_none_left_eq_some.mp hstep
    cases heq
    exact .released hhandles
  | look => exact look_effect hstep
  | unpause => exact unpause_effect hstep
  | readReturns => exact readReturns_effect hstep
  | readCancelled => exact readCancelled_effect hstep
  | sendResumes => exact sendResumes_effect hstep
  | takePending => exact takePending_effect hstep
  | readerFinishes => exact readerFinishes_effect hstep
  | receive => exact receive_effect hstep
  | handleReturns => exact handleReturns_effect hstep
  | handlerFinishes => exact handlerFinishes_effect hstep

/-! ### Where the reader is -/

/-- Whether the reader has taken the messages that it had accepted and not read. -/
def ReaderPhase.hasGathered : ReaderPhase M → Bool
  | .forwarding _ _ => true
  | .finishing => true
  | .ended => true
  | _ => false

theorem forward_hasGathered (p : Processor M) (ms : List M) : (p.forward ms).reader.hasGathered = true := by
  induction ms generalizing p with
  | nil => rfl
  | cons m rest ih =>
    rw [forward]
    rcases p.channel.offer m with ⟨answer, channel⟩
    cases answer with
    | accepted => exact ih _
    | full => rfl
    | closed => exact ih _

theorem reader_stopIfForsaken (p : Processor M) : p.stopIfForsaken.reader = p.reader := by
  rcases p.stopIfForsaken_eq with h | h
  · rw [h]
  · rw [h]

theorem channel_stopIfForsaken (p : Processor M) : p.stopIfForsaken.channel = p.channel := by
  rcases p.stopIfForsaken_eq with h | h
  · rw [h]
  · rw [h]

/-- A reader begins a read only when it has looked at the control. -/
theorem Effect.reading (e : Effect p event reply p') (hlook : event ≠ .look)
    (hreading : p'.reader = .reading) : p.reader = .reading := by
  -- A reader that has gathered what was left does not read.
  have gathered : ∀ {q : Processor M} {ms : List M}, (q.forward ms).reader = .reading →
      p.reader = .reading := by
    intro q ms hreading
    have hgathered := forward_hasGathered q ms
    rw [hreading] at hgathered
    cases hgathered
  cases e with
  | joined =>
    rw [reader_stopIfForsaken] at hreading
    exact hreading
  | cancelled =>
    rw [reader_stopIfForsaken] at hreading
    exact hreading
  | released =>
    rw [reader_stopIfForsaken] at hreading
    exact hreading
  | begun => exact absurd rfl hlook
  | held => exact absurd rfl hlook
  | left => exact absurd rfl hlook
  | read hbefore => exact hbefore
  | exhausted hbefore => exact hbefore
  | readCancelled hbefore => exact hbefore
  | forwarded => exact gathered hreading
  | forwardRefused => exact gathered hreading
  | gathered => exact gathered hreading
  | unpaused => cases hreading
  | sent => cases hreading
  | refused => cases hreading
  | readerFinished => cases hreading
  | _ => exact hreading

end Processor

end Sluice
