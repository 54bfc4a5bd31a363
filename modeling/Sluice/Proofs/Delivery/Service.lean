import Sluice.Proofs.Delivery.Shutdown
import Sluice.Proofs.Fair.Backlog

/-!
# Deliverers in service

A deliverer does not come to its end by itself. As long as someone has a handle, and nobody pauses or stops it or gives
a call up, its reader goes on looking for resources and its handler does not come to its end; so it accepts what is
submitted. `Serving` is this state, and `Effect.serving` says that it is kept by every event that is `isCalm`: by all
moves of the tasks, by sinks that accept, and by the passing of time.

Calm events register and remove nothing either, so they only draw on the queue (`Turn.drawn`), and a sink that is at
work on a resource keeps it until it answers (`Turn.keepsVisit`).
-/

namespace Sluice

namespace Processor

variable {M : Type} {p p' : Processor M} {event : Event M} {reply : Reply} {capacity : Nat}

/-! ### The processor -/

/-- The reader has not stopped reading. -/
def ReaderPhase.goesOn : ReaderPhase M → Prop
  | .looking => True
  | .reading => True
  | .sending _ => True
  | _ => False

/-- A processor that someone has a handle of, that is neither paused nor stopped, and whose end nobody waits for. -/
structure Serving (p : Processor M) : Prop where
  handles : p.handles ≠ 0
  control : p.control = .running
  line : p.line = []
  reader : p.reader.goesOn

/-- What the tasks do, when the reader finds more messages and the handler does not ask to stop. -/
def Event.isService : Event M → Bool
  | .advanceLine => true
  | .look => true
  | .readReturns (some _) => true
  | .readCancelled => true
  | .sendResumes => true
  | .takePending _ => true
  | .readerFinishes => true
  | .receive => true
  | .handleReturns .continue => true
  | .handlerFinishes => true
  | _ => false

namespace Serving

theorem ofSettings (s : ProcessorSettings) : Serving (Processor.ofSettings s : Processor M) :=
  ⟨Nat.one_ne_zero, rfl, rfl, trivial⟩

/-- The handler comes to its end after the reader. -/
theorem not_isLast (s : Serving p) (t : Tidy capacity p) : ¬ p.handler.isLast := by
  intro hlast
  have hgoes := s.reader
  rw [(t.drained hlast).1] at hgoes
  exact hgoes

/-- The reader is somewhere else. -/
theorem readerMoves (s : Serving p) (hhandles : p'.handles = p.handles) (hcontrol : p'.control = p.control)
    (hline : p'.line = p.line) (hreader : p'.reader.goesOn) : Serving p' :=
  ⟨hhandles ▸ s.handles, hcontrol.trans s.control, hline.trans s.line, hreader⟩

theorem sendRead (s : Serving p) (t : Tidy capacity p) (m : M) : Serving (p.sendRead m) := by
  rw [Processor.sendRead]
  rcases hoffer : p.channel.offer m with ⟨answer, channel⟩
  cases answer with
  | accepted => exact s.readerMoves rfl rfl rfl trivial
  | full => exact s.readerMoves rfl rfl rfl trivial
  | closed => exact absurd hoffer (Channel.open_of_offer t.fits.unclosed)

/-- The tasks keep a processor in service. -/
theorem step (s : Serving p) (t : Tidy capacity p) (hservice : event.isService = true)
    (hstep : p.step event = some (reply, p')) : Serving p' := by
  have hgoes := s.reader
  cases event with
  | advanceLine =>
    rw [Processor.step, advanceLine, s.line] at hstep
    cases hstep
  | look =>
    simp only [Processor.step] at hstep
    split at hstep
    · cases hstep
      rw [look, s.control]
      exact s.readerMoves rfl s.control.symm rfl trivial
    · cases hstep
  | readReturns message =>
    cases message with
    | none => cases hservice
    | some m =>
      simp only [Processor.step] at hstep
      split at hstep
      · cases hstep
        exact s.sendRead t m
      · cases hstep
  | readCancelled =>
    simp only [Processor.step, s.control] at hstep
    split at hstep <;> cases hstep
  | sendResumes =>
    simp only [Processor.step] at hstep
    split at hstep
    · split at hstep
      · cases hstep
        exact s.readerMoves rfl rfl rfl trivial
      · cases hstep
      · next hoffer => exact absurd hoffer (Channel.open_of_offer t.fits.unclosed)
    · next hforwarding =>
      rw [hforwarding] at hgoes
      exact hgoes.elim
    · cases hstep
  | takePending pending =>
    simp only [Processor.step] at hstep
    split at hstep
    · next hleaving =>
      rw [hleaving] at hgoes
      exact hgoes.elim
    · cases hstep
  | readerFinishes =>
    simp only [Processor.step] at hstep
    split at hstep
    · next hfinishing =>
      rw [hfinishing] at hgoes
      exact hgoes.elim
    · cases hstep
  | receive =>
    simp only [Processor.step] at hstep
    split at hstep
    · split at hstep
      · cases hstep
        exact s.readerMoves rfl rfl rfl hgoes
      · split at hstep
        · cases hstep
          exact s.readerMoves rfl rfl rfl hgoes
        · cases hstep
    · cases hstep
  | handleReturns outcome =>
    cases outcome with
    | stop => cases hservice
    | «continue» =>
      simp only [Processor.step] at hstep
      split at hstep
      · cases hstep
        exact s.readerMoves rfl rfl rfl hgoes
      · cases hstep
  | handlerFinishes =>
    simp only [Processor.step] at hstep
    split at hstep
    · cases hstep
      exact s.readerMoves rfl rfl rfl hgoes
    · cases hstep
  | _ => cases hservice

end Serving

end Processor

open Processor (Tidy)

namespace Deliverer

variable {ρ : Type} {d d' : Deliverer ρ} {capacity : Nat}

/-! ### The deliverer -/

/-- A deliverer that accepts what is submitted, and that nothing brings to its end. -/
structure Serving (d : Deliverer ρ) : Prop where
  running : d.stopped = false
  processor : d.processor.Serving

/-- An event that registers, submits and removes nothing, that gives nobody and nothing up, and in which no sink turns
out to be closed. -/
def Event.isCalm : Event ρ → Bool
  | .measure => true
  | .advanceLine => true
  | .elapse _ => true
  | .look => true
  | .ask => true
  | .limitPasses => true
  | .noticeWake => true
  | .readCancelled => true
  | .sendResumes => true
  | .readerLeaves => true
  | .readerFinishes => true
  | .receive => true
  | .enter _ => true
  | .deliverReturns .accepted => true
  | .dismissReturns .handler => true
  | .dismissNext _ => true
  | .handlerFinishes => true
  | _ => false

/-- An event in which a sink answers to a resource. -/
def Event.isAnswer : Event ρ → Bool
  | .deliverReturns _ => true
  | _ => false

/-- The tasks are calm, and do not answer for the sinks. -/
theorem calm_of_mem_moves {event : Event ρ} (h : event ∈ d.moves) :
    event.isCalm = true ∧ event.isAnswer = false := by
  simp only [moves, callMoves, handlerMoves, readerMoves, List.mem_append, List.mem_cons, List.mem_map,
    List.not_mem_nil, or_false] at h
  rcases h with ((rfl | ⟨v, -, rfl⟩) | (rfl | rfl | rfl) | ⟨sink, -, rfl⟩) |
    (rfl | rfl | rfl | rfl | rfl | rfl | rfl | rfl) <;> exact ⟨rfl, rfl⟩

namespace Serving

theorem ofSettings (settings : DelivererSettings) : Serving (Deliverer.ofSettings settings : Deliverer ρ) :=
  ⟨rfl, .ofSettings ⟨settings.capacity⟩⟩

theorem hasHandle (s : Serving d) : d.hasHandle = true := bne_iff_ne.mpr s.processor.handles

/-- The processor goes on, and nothing stops the deliverer. -/
theorem of_processor (s : Serving d) (hstopped : d'.stopped = d.stopped) (hprocessor : d'.processor.Serving) :
    Serving d' :=
  ⟨hstopped.trans s.running, hprocessor⟩

theorem of_same (s : Serving d) (d' : Deliverer ρ) (hstopped : d'.stopped = d.stopped)
    (hprocessor : d'.processor = d.processor) : Serving d' :=
  s.of_processor hstopped (hprocessor ▸ s.processor)

theorem wake (s : Serving d) : Serving d.wake := by
  obtain ⟨search, permit, h⟩ := d.wake_eq
  rw [h]
  exact s.of_same _ rfl rfl

theorem park (s : Serving d) (search : Search) : Serving (d.park search) := by
  obtain ⟨search', permit, h⟩ := d.park_eq search
  rw [h]
  exact s.of_same _ rfl rfl

theorem work {event : Processor.Event (Delivery ρ)} (s : Serving d) (t : Tidy capacity d.processor)
    (hservice : event.isService = true) (hwork : d.work event = some d') : Serving d' := by
  obtain ⟨reply, processor, hstep, rfl⟩ := work_eq_some.mp hwork
  exact s.of_processor rfl (s.processor.step t hservice hstep)

theorem proceed {event : Processor.Event (Delivery ρ)} (s : Serving d) (t : Tidy capacity d.processor)
    (hservice : event.isService = true) : Serving (d.proceed event) := by
  rcases d.proceed_eq event with ⟨reply, processor, hstep, h⟩ | ⟨-, h⟩
  · rw [h]
    exact s.of_processor rfl (s.processor.step t hservice hstep)
  · rw [h]
    exact s

theorem handled (s : Serving d) (t : Tidy capacity d.processor) : Serving d.handled := s.proceed t rfl

theorem asked (s : Serving d) (t : Tidy capacity d.processor) (a : Asked d d') : Serving d' := by
  cases a with
  | stopped hstopped => cases s.running.symm.trans hstopped
  | @idle queue => exact (s.of_same { d with queue } rfl rfl).park _
  | @throttled u size wait queue limiter => exact (s.of_same { d with queue, limiter } rfl rfl).park _
  | @missed u size queue queue' limiter =>
    exact (s.of_same { d with queue := queue', limiter } rfl rfl).park _
  | @taken u size queue queue' limiter delivery =>
    exact (s.of_same { d with queue := queue', limiter := limiter.record delivery.size d.clock } rfl rfl).proceed
      t rfl

end Serving

section

variable [Resource ρ] {h : List (Happening ρ)} {handed : List (Delivery ρ)} {event : Event ρ} {reply : Reply ρ}

/-- No calm event brings a deliverer in service to its end. -/
theorem Effect.serving (s : Serving d) (t : Tidy capacity d.processor) (hcalm : event.isCalm = true)
    (e : Effect d event reply d') : Serving d' := by
  cases e with
  | refused => exact s
  | measured => exact s.of_same _ rfl rfl
  | joined hstep => exact s.of_processor rfl (s.processor.step t rfl hstep)
  | waited hstep => exact s.of_processor rfl (s.processor.step t rfl hstep)
  | worked hworks hwork =>
    cases hworks with
    | cancel => cases hcalm
    | copyHandle => cases hcalm
    | dropHandle => cases hcalm
    | readCancelled => exact s.work t rfl hwork
    | sendResumes => exact s.work t rfl hwork
    | readerLeaves => exact s.work t rfl hwork
    | readerFinishes => exact s.work t rfl hwork
    | handlerFinishes => exact s.work t rfl hwork
  | elapsed => exact s.of_same _ rfl rfl
  | looked hwork => exact (s.of_same { d with search := .asking } rfl rfl).work t rfl hwork
  | asked _ _ hasked => exact s.asked t hasked
  | limitPassed => exact s.of_same _ rfl rfl
  | woken => exact s.of_same _ rfl rfl
  | setOut hwork => exact (s.work t rfl hwork).of_same _ rfl rfl
  | @late delivery d₁ hwork =>
    have t₁ : Tidy capacity d₁.processor := t.reaches (work_reaches rfl hwork)
    exact ((s.work t rfl hwork).of_same { d₁ with dropped := d.dropped + 1 } rfl rfl).handled t₁
  | @closing d₁ hwork hfinishing =>
    have t₁ : Tidy capacity d₁.processor := t.reaches (work_reaches rfl hwork)
    have hlast : d₁.processor.handler.isLast := Processor.HandlerPhase.isLast_iff.mpr (.inl hfinishing)
    exact absurd hlast ((s.work t rfl hwork).processor.not_isLast t₁)
  | entered => exact s.of_same _ rfl rfl
  | @accepted v delivery =>
    exact (s.of_same { d.endVisit .handler with
      deliveredResources := d.deliveredResources + 1
      deliveredBytes := Word.add d.deliveredBytes delivery.size } rfl rfl).handled t
  | dismissed => exact s.of_same _ rfl rfl
  | resumed => exact (s.of_same (d.endVisit .handler) rfl rfl).handled t
  | dismissing => exact s.of_same _ rfl rfl
  | _ => cases hcalm

omit [Resource ρ] in
/-- A target is registered with an empty backlog, and nothing else changes. -/
theorem Serving.addTarget {u : TargetId} {priority : Number.Single} (s : Serving d)
    (hadd : d.addTarget u priority = .ok d') : Serving d' := by
  obtain ⟨-, r, queue, -, rfl⟩ := addTarget_eq_ok hadd
  exact s.of_same _ rfl rfl

theorem Serving.submit {u : TargetId} {resource : ρ} (s : Serving d) (hsubmit : d.submit u resource = .ok d') :
    Serving d' := by
  obtain ⟨-, queue, -, rfl⟩ := submit_eq_ok hsubmit
  exact (s.of_same { d with queue } rfl rfl).wake

/-- A deliverer in service accepts a resource as long as less waits for its target than may wait. -/
theorem Serving.submit_of_pendingOf {u : TargetId} {n : Nat} (s : Serving d) (resource : ρ)
    (hu : d.pendingOf u = some n) (hroom : n < d.queue.settings.maxBacklog) : ∃ d', d.submit u resource = .ok d' := by
  obtain ⟨queue, hpush⟩ := FairQueue.push_of_pendingOf resource hu hroom
  refine ⟨({ d with queue } : Deliverer ρ).wake, ?_⟩
  rw [Deliverer.submit, s.running, hpush]
  rfl

/-! ### What calm events leave alone -/

/-- A calm event only draws on the queue. -/
theorem Turn.drawn (o : Orderly h handed d) (hcalm : event.isCalm = true) (e : Turn d event reply d') :
    FairQueue.Drawn d.queue d'.queue := by
  have hsound := o.supplies.sound
  have same : d'.queue = d.queue → FairQueue.Drawn d.queue d'.queue := fun hqueue => hqueue ▸ .refl d.queue
  cases e with
  | aside _ k => exact same k.queue
  | @peeked head queue d' _ hpeek k =>
    obtain rfl : d.queue.peek.2 = queue := congrArg Prod.snd hpeek
    exact k.queue ▸ .peek hsound
  | @taken head queue queue' delivery processor d' _ hpeek hpop _ _ _ k =>
    obtain rfl : d.queue.peek.2 = queue := congrArg Prod.snd hpeek
    have hpopped : FairQueue.Drawn d.queue.peek.2 queue' := .pop o.supplies.peek.sound hpop
    exact k.queue ▸ (FairQueue.Drawn.peek hsound).trans hpopped
  | setOut => exact same rfl
  | late _ _ _ _ _ k => exact same k.queue
  | closing => exact same rfl
  | entered => exact same rfl
  | accepted _ _ _ k => exact same k.queue
  | dismissed _ _ _ k => exact same k.queue
  | dismissing => exact same rfl
  | ended => exact same rfl
  | _ => cases hcalm

/-- A call that stops the deliverer leaves the queue alone. -/
theorem Turn.queue_of_stop {call : CallId} (e : Turn d (.stop call) reply d') : d'.queue = d.queue := by
  cases e with
  | aside _ k => exact k.queue

/-- A sink that has been called with a resource has it until it answers. -/
theorem Turn.keepsVisit {v : Visit ρ} {delivery : Delivery ρ} (o : Orderly h handed d)
    (hv : d.visitOf? .handler = some v) (herrand : v.errand = .deliver delivery) (hinside : v.inside = true)
    (hunanswered : event.isAnswer = false) (e : Turn d event reply d') :
    d'.visitOf? .handler = some v := by
  have hbusy : d.processor.handler ≠ .receiving := fun hreceiving => by
    cases (o.idle hreceiving).symm.trans hv
  cases e with
  | aside _ k => exact (k.visitOf? .handler).trans hv
  | enrolled => exact hv
  | reprioritised => exact hv
  | submitted _ _ k => exact (k.visitOf? .handler).trans hv
  | removed => exact hv
  | removing _ _ _ k =>
    exact (k.visitOf? .handler).trans ((visitOf?_visit_of_ne (Orderly.remover_ne _) _ _).trans hv)
  | abandoned _ k => exact (k.visitOf? .handler).trans ((visitOf?_endVisit_of_ne (Orderly.remover_ne _)).trans hv)
  | peeked _ _ k => exact (k.visitOf? .handler).trans hv
  | taken _ _ _ _ _ _ k => exact (k.visitOf? .handler).trans hv
  | setOut _ hreceiving => exact absurd hreceiving hbusy
  | late _ hreceiving => exact absurd hreceiving hbusy
  | closing _ hreceiving => exact absurd hreceiving hbusy
  | @entered visitor w hw hout =>
    cases visitor with
    | handler =>
      cases hw.symm.trans hv
      cases hout.symm.trans hinside
    | remover call => exact (visitOf?_letIn_of_ne (Orderly.remover_ne call)).trans hv
  | accepted => cases hunanswered
  | gone => cases hunanswered
  | orphaned => cases hunanswered
  | foundClosed => cases hunanswered
  | dismissed hw hdismiss =>
    cases hw.symm.trans hv
    cases hdismiss.symm.trans herrand
  | returned _ _ _ k => exact (k.visitOf? .handler).trans ((visitOf?_endVisit_of_ne (Orderly.remover_ne _)).trans hv)
  | dismissing _ hnone => cases hnone.symm.trans hv
  | ended _ hnone => cases hnone.symm.trans hv

omit [Resource ρ] in
/-- The counters of what is delivered change only when a sink accepts a resource. -/
theorem Balance.of_unanswered (b : Balance ⟨d, event, reply, d'⟩) (hunanswered : event.isAnswer = false) :
    d'.deliveredResources = d.deliveredResources ∧ d'.deliveredBytes = d.deliveredBytes := by
  have hnone : (⟨d, event, reply, d'⟩ : Happening ρ).fates.filter (·.1 == .accepted) = [] := by
    rw [List.filter_eq_nil_iff]
    intro fate hfate
    unfold Happening.fates at hfate
    split at hfate
    · next hevent =>
      rw [show event = .deliverReturns .accepted from hevent] at hunanswered
      cases hunanswered
    · obtain ⟨delivery, -, rfl⟩ := List.mem_map.mp hfate
      exact Bool.false_ne_true
    · obtain ⟨delivery, -, rfl⟩ := List.mem_map.mp hfate
      exact Bool.false_ne_true
    · cases hfate
  have hdelivered := b.delivered
  have hbytes := b.bytes
  rw [hnone] at hdelivered hbytes
  exact ⟨hdelivered, hbytes⟩

end

end Deliverer

end Sluice
