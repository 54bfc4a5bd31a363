import Sluice.Proofs.Delivery.Order
import Sluice.Proofs.Delivery.Record
import Sluice.Proofs.Worker.Ending

/-!
# The turns of a deliverer

Half of the effects of an event leave the queue, the sinks, the visits and the counters as they are, and leave
no trace in the record of the history (`Aside`, `Silent`). `Turn` takes these effects together, and says of
the other ones what they change, up to what the reader and the calls that wait do meanwhile. `Effect.turn` says
that every effect on an orderly deliverer is a turn.

What the processor does in an effect is a number of plain events (`Effect.reaches`), so the processor of a
deliverer is tidy in every run. What holds at the start and is kept by every turn holds of every run
(`turn_induction`). One such fact is how the handler parts (`Parting`): when it is at its end, the deliverer is
stopped and has no sinks, and only then there are sinks that are left to dismiss.
-/

namespace Sluice

open Processor (Tidy)

namespace Deliverer

variable {ρ : Type} {d d' d'' : Deliverer ρ}

/-! ### What the processor does -/

theorem work_reaches {event : Processor.Event (Delivery ρ)} (hplain : event.isPlain = true)
    (hwork : d.work event = some d') : d.processor.Reaches d'.processor := by
  obtain ⟨reply, processor, hstep, rfl⟩ := work_eq_some.mp hwork
  exact .of_step hplain hstep

theorem proceed_reaches {event : Processor.Event (Delivery ρ)} (hplain : event.isPlain = true) :
    d.processor.Reaches (d.proceed event).processor := by
  rcases d.proceed_eq event with ⟨reply, processor, hstep, h⟩ | ⟨-, h⟩
  · rw [h]
    exact .of_step hplain hstep
  · rw [h]
    exact .refl _

theorem handled_reaches (d : Deliverer ρ) : d.processor.Reaches d.handled.processor :=
  proceed_reaches rfl

theorem processor_wake (d : Deliverer ρ) : d.wake.processor = d.processor := by
  obtain ⟨search, permit, h⟩ := d.wake_eq
  rw [h]

theorem processor_park (d : Deliverer ρ) (search : Search) :
    (d.park search).processor = d.processor := by
  obtain ⟨search', permit, h⟩ := d.park_eq search
  rw [h]

theorem processor_tellStop (d : Deliverer ρ) : d.tellStop.processor = d.processor := by
  obtain ⟨search, permit, h⟩ := d.tellStop_eq
  rw [h]

theorem Works.isPlain {event : Event ρ} {work : Processor.Event (Delivery ρ)} (h : Works d event work) :
    work.isPlain = true := by
  cases h <;> rfl

theorem Asked.reaches (h : Asked d d') : d.processor.Reaches d'.processor := by
  cases h with
  | stopped => exact proceed_reaches rfl
  | idle =>
    rw [processor_park]
    exact .refl _
  | throttled =>
    rw [processor_park]
    exact .refl _
  | missed =>
    rw [processor_park]
    exact .refl _
  | @taken t size queue queue' limiter delivery =>
    exact proceed_reaches
      (d := { d with queue := queue', limiter := limiter.record delivery.size d.clock }) rfl

/-- A read in progress returns a resource, and that is under way then. -/
theorem proceed_readReturns (hopen : d.processor.channel.closed = false) (hreading : d.isReading = true)
    (delivery : Delivery ρ) :
    ∃ processor, d.proceed (.readReturns (some delivery)) = { d with processor } ∧
      processor.channel.closed = false ∧ processor.underway = d.processor.underway ++ [delivery] ∧
      processor.handler = d.processor.handler := by
  rcases d.proceed_eq (.readReturns (some delivery)) with ⟨reply, processor, hstep, hproceed⟩ | ⟨hnone, -⟩
  · obtain ⟨hopen', hpassage⟩ := Processor.step_passage hopen hstep rfl
    cases hpassage with
    | still hmoves => cases hmoves
    | read _ hunderway hhandler => exact ⟨processor, hproceed, hopen', hunderway, hhandler⟩
  · cases (Processor.step_readReturns (isReading_iff.mp hreading) delivery).symm.trans hnone

/-- In an effect, the processor goes through plain events. -/
theorem Effect.reaches [Resource ρ] {event : Event ρ} {reply : Reply ρ} (e : Effect d event reply d') :
    d.processor.Reaches d'.processor := by
  cases e with
  | refused => exact .refl _
  | enrolled => exact .refl _
  | reprioritised => exact .refl _
  | submitted =>
    rw [processor_wake]
    exact .refl _
  | limited =>
    rw [processor_wake]
    exact .refl _
  | measured => exact .refl _
  | unfound => exact .refl _
  | removed => exact .refl _
  | @removing call t r sink backlog queue =>
    exact proceed_reaches (d := { d with queue, sinks := d.sinks.erase t }) rfl
  | stopping _ hwork => exact d.processor_tellStop ▸ work_reaches rfl hwork
  | joined hstep => exact .of_step rfl hstep
  | waited hstep => exact .of_step rfl hstep
  | @abandoned call => exact proceed_reaches (d := d.endVisit (.remover call)) rfl
  | worked hworks hwork => exact work_reaches hworks.isPlain hwork
  | elapsed => exact .refl _
  | looked hwork => exact work_reaches (d := { d with search := .asking }) rfl hwork
  | asked _ _ hasked => exact hasked.reaches
  | limitPassed => exact .refl _
  | woken => exact .refl _
  | @setOut delivery d₁ hwork =>
    have hreaches : d.processor.Reaches d₁.processor := work_reaches rfl hwork
    exact hreaches
  | @late delivery d₁ hwork =>
    have hreaches : d.processor.Reaches d₁.processor := work_reaches rfl hwork
    exact hreaches.trans (handled_reaches { d₁ with dropped := d.dropped + 1 })
  | @closing d₁ hwork =>
    have hreaches : d.processor.Reaches d₁.processor := work_reaches rfl hwork
    exact hreaches
  | entered => exact .refl _
  | @accepted v delivery =>
    exact handled_reaches { d.endVisit .handler with
      deliveredResources := d.deliveredResources + 1
      deliveredBytes := Word.add d.deliveredBytes delivery.size }
  | gone => exact handled_reaches { d.endVisit .handler with dropped := d.dropped + 1 }
  | @orphaned v delivery backlog queue =>
    exact handled_reaches { d.endVisit .handler with
      queue
      sinks := d.sinks.erase delivery.target
      closedTargets := d.closedTargets + 1
      dropped := d.dropped + 1 + backlog.length }
  | foundClosed => exact .refl _
  | dismissed => exact .refl _
  | resumed => exact handled_reaches (d.endVisit .handler)
  | @returned call => exact proceed_reaches (d := d.endVisit (.remover call)) rfl
  | dismissing => exact .refl _

/-! ### What happens on the side -/

/-- The second processor has the same messages under way as the first, and its handler is at its end if and
only if that of the first is. -/
structure Stays (p p' : Processor (Delivery ρ)) : Prop where
  unclosed : p'.channel.closed = false
  underway : p'.underway = p.underway
  finishing : p'.handler = .finishing ↔ p.handler = .finishing
  ended : p'.handler = .ended ↔ p.handler = .ended

namespace Stays

variable {p p' : Processor (Delivery ρ)} {event : Processor.Event (Delivery ρ)} {reply : Processor.Reply}

theorem of_same (hopen : p'.channel.closed = false) (hunderway : p'.underway = p.underway)
    (hhandler : p'.handler = p.handler) : Stays p p' :=
  ⟨hopen, hunderway, by rw [hhandler], by rw [hhandler]⟩

/-- An event that moves no message. -/
theorem still (hopen : p.channel.closed = false) (hmoves : event.moves = false)
    (hstep : p.step event = some (reply, p')) : Stays p p' := by
  obtain ⟨hopen', hpassage⟩ :=
    Processor.step_passage hopen hstep (Processor.Event.stops_of_moves hmoves)
  cases hpassage with
  | still _ hunderway hhandler => exact of_same hopen' hunderway hhandler
  | _ => cases hmoves

/-- The reader leaves and holds nothing back. -/
theorem readerLeaves (hopen : p.channel.closed = false)
    (hstep : p.step (.takePending []) = some (reply, p')) : Stays p p' := by
  obtain ⟨hopen', hpassage⟩ := Processor.step_passage hopen hstep rfl
  cases hpassage with
  | gathered _ hunderway hhandler =>
    exact of_same hopen' (hunderway.trans (List.append_nil _)) hhandler
  | still hmoves => cases hmoves

/-- The handler is done with a message. -/
theorem handled (hopen : p.channel.closed = false)
    (hstep : p.step (.handleReturns .continue) = some (reply, p')) : Stays p p' := by
  obtain ⟨hopen', hpassage⟩ := Processor.step_passage hopen hstep rfl
  cases hpassage with
  | still hmoves => cases hmoves
  | handled hhandling hreceiving hunderway =>
    refine ⟨hopen', hunderway, ?_, ?_⟩
    · rw [hhandling, hreceiving]
      exact iff_of_false nofun nofun
    · rw [hhandling, hreceiving]
      exact iff_of_false nofun nofun

end Stays

/-- The second deliverer differs from the first in what the reader and the waiting calls do, and in whether
the handler still handles a resource that is settled. -/
structure Aside (d d' : Deliverer ρ) : Prop where
  queue : d'.queue = d.queue
  sinks : d'.sinks = d.sinks
  visits : d'.visits = d.visits
  leaving : d'.leaving = d.leaving
  deliveredResources : d'.deliveredResources = d.deliveredResources
  deliveredBytes : d'.deliveredBytes = d.deliveredBytes
  dropped : d'.dropped = d.dropped
  stopped : d.stopped = true → d'.stopped = true
  processor : d.processor.channel.closed = false → Stays d.processor d'.processor

namespace Aside

/-- The clock, the limiter and what the reader waits for do not matter. -/
theorem of_same (d : Deliverer ρ) (limiter : Limiter) (search : Search) (permit : Bool) (now : Nat) :
    Aside d { d with limiter, search, permit, now } where
  queue := rfl
  sinks := rfl
  visits := rfl
  leaving := rfl
  deliveredResources := rfl
  deliveredBytes := rfl
  dropped := rfl
  stopped := id
  processor hopen := .of_same hopen rfl rfl

theorem refl (d : Deliverer ρ) : Aside d d := of_same d d.limiter d.search d.permit d.now

theorem trans (h : Aside d d') (h' : Aside d' d'') : Aside d d'' where
  queue := h'.queue.trans h.queue
  sinks := h'.sinks.trans h.sinks
  visits := h'.visits.trans h.visits
  leaving := h'.leaving.trans h.leaving
  deliveredResources := h'.deliveredResources.trans h.deliveredResources
  deliveredBytes := h'.deliveredBytes.trans h.deliveredBytes
  dropped := h'.dropped.trans h.dropped
  stopped := h'.stopped ∘ h.stopped
  processor hopen := by
    have s := h.processor hopen
    have s' := h'.processor s.unclosed
    exact ⟨s'.unclosed, s'.underway.trans s.underway, s'.finishing.trans s.finishing,
      s'.ended.trans s.ended⟩

theorem wake (d : Deliverer ρ) : Aside d d.wake := by
  obtain ⟨search, permit, h⟩ := d.wake_eq
  rw [h]
  exact of_same d d.limiter search permit d.now

theorem park (d : Deliverer ρ) (search : Search) : Aside d (d.park search) := by
  obtain ⟨search', permit, h⟩ := d.park_eq search
  rw [h]
  exact of_same d d.limiter search' permit d.now

theorem tellStop (d : Deliverer ρ) : Aside d d.tellStop := by
  obtain ⟨search, permit, h⟩ := d.tellStop_eq
  rw [h]
  exact { of_same d d.limiter search permit d.now with stopped := fun _ => rfl }

/-- An event of the processor that moves no message. -/
theorem step {event : Processor.Event (Delivery ρ)} {reply : Processor.Reply}
    {processor : Processor (Delivery ρ)} (hmoves : event.moves = false)
    (hstep : d.processor.step event = some (reply, processor)) : Aside d { d with processor } :=
  { refl d with processor := fun hopen => .still hopen hmoves hstep }

theorem work {event : Processor.Event (Delivery ρ)} (hmoves : event.moves = false)
    (hwork : d.work event = some d') : Aside d d' := by
  obtain ⟨reply, processor, hstep, rfl⟩ := work_eq_some.mp hwork
  exact step hmoves hstep

theorem proceed {event : Processor.Event (Delivery ρ)} (hmoves : event.moves = false) :
    Aside d (d.proceed event) := by
  rcases d.proceed_eq event with ⟨reply, processor, hstep, h⟩ | ⟨-, h⟩
  · rw [h]
    exact step hmoves hstep
  · rw [h]
    exact refl d

theorem readerLeaves (hwork : d.work (.takePending []) = some d') : Aside d d' := by
  obtain ⟨reply, processor, hstep, rfl⟩ := work_eq_some.mp hwork
  exact { refl d with processor := fun hopen => .readerLeaves hopen hstep }

/-- The handler is done with a resource. -/
theorem handled (d : Deliverer ρ) : Aside d d.handled := by
  rcases d.proceed_eq (.handleReturns .continue) with ⟨reply, processor, hstep, h⟩ | ⟨-, h⟩
  · rw [Deliverer.handled, h]
    exact { refl d with processor := fun hopen => .handled hopen hstep }
  · rw [Deliverer.handled, h]
    exact refl d

theorem visitOf? (h : Aside d d') (visitor : Visitor) : d'.visitOf? visitor = d.visitOf? visitor := by
  rw [Deliverer.visitOf?, Deliverer.visitOf?, h.visits]

theorem inHand (h : Aside d d') : d'.inHand = d.inHand := by
  rw [Deliverer.inHand, Deliverer.inHand, h.visitOf?]

end Aside

/-- An event that leaves no trace in the record. -/
structure Silent (s : Happening ρ) : Prop where
  registered : s.registered = [] := by rfl
  submitted : s.submitted = [] := by rfl
  delivered : ∀ sink, s.delivered sink = [] := by exact fun _ => rfl
  taken : s.taken = [] := by rfl
  withdrawn : s.withdrawn = [] := by rfl
  forfeited : s.forfeited = [] := by rfl
  fates : s.fates = [] := by rfl
  sightings : ∀ sink, s.sightings sink = [] := by exact fun _ => rfl
  drained : s.drained = [] := by rfl
  givenUp : s.givenUp = [] := by rfl

/-- Nothing is taken out when no more is under way than before. -/
theorem Happening.taken_eq_nil {s : Happening ρ}
    (h : s.after.processor.underway = s.before.processor.underway) : s.taken = [] := by
  unfold taken
  split
  · rw [h]
    exact List.drop_length
  · rfl

/-! ### The turns -/

/-- What an event does to an orderly deliverer. -/
inductive Turn [Resource ρ] (d : Deliverer ρ) : Event ρ → Reply ρ → Deliverer ρ → Prop
  | aside {event : Event ρ} {reply : Reply ρ} {d' : Deliverer ρ} :
      Silent ⟨d, event, reply, d'⟩ → Aside d d' → Turn d event reply d'
  | enrolled {t : TargetId} {priority : Number.Single} {r : Nat} {queue : FairQueue ρ} :
      d.stopped = false → d.queue.addTarget t priority = .ok (r, queue) →
      Turn d (.addTarget t priority) (.result (.ok ())) { d with queue, sinks := d.sinks.set t r }
  | reprioritised {t : TargetId} {priority : Number.Single} {queue : FairQueue ρ} :
      d.queue.setPriority t priority = .ok queue →
      Turn d (.setPriority t priority) (.result (.ok ())) { d with queue }
  | submitted {t : TargetId} {resource : ρ} {queue : FairQueue ρ} {d' : Deliverer ρ} :
      d.stopped = false → d.queue.push t resource = .ok queue → Aside { d with queue } d' →
      Turn d (.submit t resource) (.result (.ok ())) d'
  | removed {call : CallId} {t : TargetId} {r : Nat} {backlog : List ρ} {queue : FairQueue ρ} :
      d.queue.registrationOf t = some r → d.queue.removeTarget t = .ok (backlog, queue) →
      d.sinks.get? t = none →
      Turn d (.remove call t) (.removed call (.ok backlog))
        { d with queue, sinks := d.sinks.erase t }
  | removing {call : CallId} {t : TargetId} {r sink : Nat} {backlog : List ρ} {queue : FairQueue ρ}
      {d' : Deliverer ρ} :
      d.queue.registrationOf t = some r → d.queue.removeTarget t = .ok (backlog, queue) →
      d.sinks.get? t = some sink →
      Aside (({ d with queue, sinks := d.sinks.erase t } : Deliverer ρ).visit (.remover call) sink
        (.dismiss backlog)) d' →
      Turn d (.remove call t) .quiet d'
  | abandoned {call : CallId} {v : Visit ρ} {d' : Deliverer ρ} :
      d.visitOf? (.remover call) = some v → Aside (d.endVisit (.remover call)) d' →
      Turn d (.cancel call) .quiet d'
  /-- The reader finds nothing that it may take. -/
  | peeked {head : Option (TargetId × Nat)} {queue : FairQueue ρ} {d' : Deliverer ρ} :
      d.stopped = false → d.queue.peek = (head, queue) → Aside { d with queue } d' →
      Turn d .ask .quiet d'
  | taken {head : Option (TargetId × Nat)} {queue queue' : FairQueue ρ} {delivery : Delivery ρ}
      {processor : Processor (Delivery ρ)} {d' : Deliverer ρ} :
      d.stopped = false → d.queue.peek = (head, queue) → queue.pop = (some delivery, queue') →
      processor.channel.closed = false →
      processor.underway = d.processor.underway ++ [delivery] →
      processor.handler = d.processor.handler →
      Aside { d with queue := queue', processor } d' → Turn d .ask .quiet d'
  | setOut {delivery : Delivery ρ} {processor : Processor (Delivery ρ)} :
      processor.channel.closed = false →
      d.processor.handler = .receiving → processor.handler = .handling delivery →
      d.processor.underway = delivery :: processor.underway →
      d.sinks.get? delivery.target = some delivery.registration →
      Turn d .receive .quiet
        (({ d with processor } : Deliverer ρ).visit .handler delivery.registration (.deliver delivery))
  | late {delivery : Delivery ρ} {processor : Processor (Delivery ρ)} {d' : Deliverer ρ} :
      processor.channel.closed = false →
      d.processor.handler = .receiving → processor.handler = .handling delivery →
      d.processor.underway = delivery :: processor.underway →
      d.sinks.get? delivery.target ≠ some delivery.registration →
      Aside { d with processor, dropped := d.dropped + 1 } d' → Turn d .receive .quiet d'
  | closing {processor : Processor (Delivery ρ)} :
      processor.channel.closed = false →
      d.processor.handler = .receiving → processor.handler = .finishing →
      d.processor.underway = [] → processor.underway = [] →
      Turn d .receive .quiet
        { d with processor, stopped := true, leaving := d.sinks.values, sinks := .empty }
  | entered {visitor : Visitor} {v : Visit ρ} :
      d.visitOf? visitor = some v → v.inside = false →
      (d.visits.find? (·.sink == v.sink)).any (·.visitor != visitor) = false →
      Turn d (.enter visitor) .quiet (d.letIn visitor)
  | accepted {v : Visit ρ} {delivery : Delivery ρ} {d' : Deliverer ρ} :
      d.visitOf? .handler = some v → v.errand = .deliver delivery → v.inside = true →
      Aside { d.endVisit .handler with
        deliveredResources := d.deliveredResources + 1
        deliveredBytes := Word.add d.deliveredBytes delivery.size } d' →
      Turn d (.deliverReturns .accepted) .quiet d'
  | gone {v : Visit ρ} {delivery : Delivery ρ} {d' : Deliverer ρ} :
      d.visitOf? .handler = some v → v.errand = .deliver delivery → v.inside = true →
      d.queue.registrationOf delivery.target ≠ some delivery.registration →
      Aside { d.endVisit .handler with dropped := d.dropped + 1 } d' →
      Turn d (.deliverReturns .closed) .quiet d'
  | orphaned {v : Visit ρ} {delivery : Delivery ρ} {backlog : List ρ} {queue : FairQueue ρ}
      {d' : Deliverer ρ} :
      d.visitOf? .handler = some v → v.errand = .deliver delivery → v.inside = true →
      d.queue.registrationOf delivery.target = some delivery.registration →
      d.queue.removeTarget delivery.target = .ok (backlog, queue) →
      d.sinks.get? delivery.target = none →
      Aside { d.endVisit .handler with
        queue
        sinks := d.sinks.erase delivery.target
        closedTargets := d.closedTargets + 1
        dropped := d.dropped + 1 + backlog.length } d' →
      Turn d (.deliverReturns .closed) .quiet d'
  | foundClosed {v : Visit ρ} {delivery : Delivery ρ} {backlog : List ρ} {queue : FairQueue ρ}
      {sink : Nat} {d' : Deliverer ρ} :
      d.visitOf? .handler = some v → v.errand = .deliver delivery → v.inside = true →
      d.queue.registrationOf delivery.target = some delivery.registration →
      d.queue.removeTarget delivery.target = .ok (backlog, queue) →
      d.sinks.get? delivery.target = some sink →
      Aside (({ d.endVisit .handler with
        queue
        sinks := d.sinks.erase delivery.target
        closedTargets := d.closedTargets + 1
        dropped := d.dropped + 1 + backlog.length } : Deliverer ρ).visit .handler sink (.dismiss [])) d' →
      Turn d (.deliverReturns .closed) .quiet d'
  | dismissed {v : Visit ρ} {backlog : List ρ} {d' : Deliverer ρ} :
      d.visitOf? .handler = some v → v.errand = .dismiss backlog → v.inside = true →
      Aside (d.endVisit .handler) d' → Turn d (.dismissReturns .handler) .quiet d'
  | returned {call : CallId} {v : Visit ρ} {backlog : List ρ} {d' : Deliverer ρ} :
      d.visitOf? (.remover call) = some v → v.errand = .dismiss backlog → v.inside = true →
      Aside (d.endVisit (.remover call)) d' →
      Turn d (.dismissReturns (.remover call)) (.removed call (.ok backlog)) d'
  | dismissing {sink : Nat} :
      d.processor.handler = .finishing → d.visitOf? .handler = none → sink ∈ d.leaving →
      Turn d (.dismissNext sink) .quiet
        (({ d with leaving := d.leaving.erase sink } : Deliverer ρ).visit .handler sink (.dismiss []))
  | ended {processor : Processor (Delivery ρ)} :
      d.leaving = [] → d.visitOf? .handler = none → processor.channel.closed = false →
      d.processor.handler = .finishing → processor.handler = .ended →
      processor.underway = d.processor.underway →
      Turn d .handlerFinishes .quiet { d with processor }

section

variable [Resource ρ] {h : List (Happening ρ)} {handed : List (Delivery ρ)} {event : Event ρ}
  {reply : Reply ρ}

theorem turn_of_works {work : Processor.Event (Delivery ρ)} (o : Orderly h handed d)
    (hworks : Works d event work) (hwork : d.work work = some d') : Turn d event .quiet d' := by
  cases hworks with
  | @cancel call hnone =>
    refine .aside { sightings := fun sink => ?_, givenUp := ?_ } (.work rfl hwork)
    · show (d.visitOf? (.remover call)).toList.flatMap _ = []
      rw [hnone]
      rfl
    · show (if (d.visitOf? (.remover call)).isSome then [call] else []) = []
      rw [hnone]
      rfl
  | copyHandle => exact .aside {} (.work rfl hwork)
  | dropHandle => exact .aside {} (.work rfl hwork)
  | readCancelled => exact .aside {} (.work rfl hwork)
  | sendResumes => exact .aside {} (.work rfl hwork)
  | readerLeaves => exact .aside {} (.readerLeaves hwork)
  | readerFinishes => exact .aside {} (.work rfl hwork)
  | handlerFinishes hleaving hnone =>
    obtain ⟨reply, processor, hstep, rfl⟩ := work_eq_some.mp hwork
    obtain ⟨hopen, hpassage⟩ := Processor.step_passage o.unclosed hstep rfl
    cases hpassage with
    | still hmoves => cases hmoves
    | finished hfinishing hended hunderway =>
      exact .ended hleaving hnone hopen hfinishing hended hunderway

/-- What the reader does that looks for a resource. -/
theorem turn_of_asked (o : Orderly h handed d) (hreading : d.isReading = true) (hasked : Asked d d') :
    Turn d .ask .quiet d' := by
  cases hasked with
  | stopped =>
    have k : Aside d (d.proceed (.readReturns none)) := .proceed rfl
    exact .aside { taken := Happening.taken_eq_nil (k.processor o.unclosed).underway } k
  | idle hstopped hpeek => exact .peeked hstopped hpeek (.park _ _)
  | @throttled t size wait queue limiter hstopped hpeek =>
    have k : Aside { d with queue } { d with queue, limiter } := .of_same _ _ _ _ _
    exact .peeked hstopped hpeek (k.trans (.park _ _))
  | missed _ hpeek _ hpop =>
    -- A pop after a peek that shows a resource hands that one out.
    obtain ⟨delivery, queue'', hpop', -⟩ := o.supplies.sound.pop_of_peek hpeek
    cases hpop'.symm.trans hpop
  | @taken t size queue queue' limiter delivery hstopped hpeek _ hpop =>
    obtain ⟨processor, hproceed, hopen, hunderway, hhandler⟩ := proceed_readReturns
      (d := { d with queue := queue', limiter := limiter.record delivery.size d.clock }) o.unclosed
      hreading delivery
    rw [hproceed]
    exact .taken hstopped hpeek hpop hopen hunderway hhandler (.of_same _ _ _ _ _)

/-- Every effect on an orderly deliverer is a turn. -/
theorem Effect.turn (o : Orderly h handed d) (e : Effect d event reply d') : Turn d event reply d' := by
  cases e with
  | refused _ hrequest =>
    cases event with
    | addTarget => exact .aside {} (.refl d)
    | setPriority => exact .aside {} (.refl d)
    | submit => exact .aside {} (.refl d)
    | setLimit => exact .aside {} (.refl d)
    | _ => cases hrequest
  | enrolled _ hstopped hadd => exact .enrolled hstopped hadd
  | reprioritised _ hset => exact .reprioritised hset
  | submitted _ hstopped hpush => exact .submitted hstopped hpush (.wake _)
  | @limited limit limiter =>
    have k : Aside d { d with limiter } := .of_same _ _ _ _ _
    exact .aside {} (k.trans (.wake _))
  | measured => exact .aside {} (.of_same _ _ _ _ _)
  | unfound _ hnone =>
    exact .aside { withdrawn := FairQueue.backlogOf_of_not_registered hnone } (.refl d)
  | removed _ hr hremove hsink => exact .removed hr hremove hsink
  | @removing call t r sink backlog queue _ hr hremove hsink =>
    have k : Aside { d with queue, sinks := d.sinks.erase t }
        (({ d with queue, sinks := d.sinks.erase t } : Deliverer ρ).proceed .copyHandle) := .proceed rfl
    exact .removing hr hremove hsink { k with visits := congrArg (· ++ _) k.visits }
  | stopping _ hwork => exact .aside {} ((Aside.tellStop d).trans (.work rfl hwork))
  | joined hstep => exact .aside {} (.step rfl hstep)
  | waited hstep => exact .aside {} (.step rfl hstep)
  | abandoned hv => exact .abandoned hv (.proceed rfl)
  | worked hworks hwork => exact turn_of_works o hworks hwork
  | elapsed => exact .aside {} (.of_same _ _ _ _ _)
  | looked hwork =>
    have k : Aside d { d with search := .asking } := .of_same _ _ _ _ _
    exact .aside {} (k.trans (.work rfl hwork))
  | asked hreading _ hasked => exact turn_of_asked o hreading hasked
  | limitPassed => exact .aside {} (.of_same _ _ _ _ _)
  | woken => exact .aside {} (.of_same _ _ _ _ _)
  | setOut hwork hhandler hsink =>
    obtain ⟨processor, rfl, hopen, hhandling, hreceiving, hunderway⟩ := o.received hwork hhandler
    exact .setOut hopen hreceiving hhandling hunderway hsink
  | late hwork hhandler hsink =>
    obtain ⟨processor, rfl, hopen, hhandling, hreceiving, hunderway⟩ := o.received hwork hhandler
    exact .late hopen hreceiving hhandling hunderway hsink (.handled _)
  | closing hwork hhandler =>
    obtain ⟨reply, processor, hstep, rfl⟩ := work_eq_some.mp hwork
    obtain ⟨hopen, hpassage⟩ := Processor.step_passage o.unclosed hstep rfl
    cases hpassage with
    | still hmoves => cases hmoves
    | received _ hhandling => cases hhandling.symm.trans hhandler
    | exhausted hreceiving hfinishing hbefore hafter =>
      exact .closing hopen hreceiving hfinishing hbefore hafter
  | entered hv hinside hfirst => exact .entered hv hinside hfirst
  | accepted hv herrand hinside => exact .accepted hv herrand hinside (.handled _)
  | gone hv herrand hinside hr => exact .gone hv herrand hinside hr (.handled _)
  | orphaned hv herrand hinside hr hremove hsink =>
    exact .orphaned hv herrand hinside hr hremove hsink (.handled _)
  | foundClosed hv herrand hinside hr hremove hsink =>
    exact .foundClosed hv herrand hinside hr hremove hsink (.refl _)
  | dismissed hv herrand hinside => exact .dismissed hv herrand hinside (.refl _)
  | resumed hv herrand hinside => exact .dismissed hv herrand hinside (.handled _)
  | returned hv herrand hinside => exact .returned hv herrand hinside (.proceed rfl)
  | dismissing hfinishing hnone hmem => exact .dismissing hfinishing hnone hmem

/-! ### Runs -/

/-- The processor of a deliverer is tidy in every run. -/
theorem tidy_after (settings : DelivererSettings) (events : List (Event ρ)) :
    Tidy settings.capacity ((ofSettings settings : Deliverer ρ).after events).processor :=
  history_induction (P := fun _ d => Tidy settings.capacity d.processor)
    (.ofSettings ⟨settings.capacity⟩) (fun _ _ _ _ _ t e => t.reaches e.reaches) events

/-- What holds at the start and is kept by every effect on an orderly deliverer holds of every run. -/
theorem effect_induction {settings : DelivererSettings} {P : List (Happening ρ) → Deliverer ρ → Prop}
    (start : P [] (ofSettings settings))
    (next : ∀ h handed d event reply d', Orderly h handed d → Tidy settings.capacity d.processor →
      P h d → Effect d event reply d' → P (h ++ [⟨d, event, reply, d'⟩]) d')
    (events : List (Event ρ)) :
    P (happenings settings events) ((ofSettings settings).after events) := by
  have run : (∃ handed, Orderly (happenings settings events) handed
        ((ofSettings settings).after events)) ∧
      Tidy settings.capacity ((ofSettings settings : Deliverer ρ).after events).processor ∧
      P (happenings settings events) ((ofSettings settings).after events) := by
    refine history_induction (P := fun h d => (∃ handed, Orderly h handed d) ∧
      Tidy settings.capacity d.processor ∧ P h d)
      ⟨⟨[], .ofSettings settings⟩, .ofSettings ⟨settings.capacity⟩, start⟩ ?_ events
    rintro h d event reply d' ⟨⟨handed, o⟩, t, hd⟩ e
    exact ⟨o.effect e, t.reaches e.reaches, next h handed d event reply d' o t hd e⟩
  exact run.2.2

/-- What holds at the start and is kept by every turn of an orderly deliverer holds of every run. -/
theorem turn_induction {settings : DelivererSettings} {P : List (Happening ρ) → Deliverer ρ → Prop}
    (start : P [] (ofSettings settings))
    (next : ∀ h handed d event reply d', Orderly h handed d → Tidy settings.capacity d.processor →
      P h d → Turn d event reply d' → P (h ++ [⟨d, event, reply, d'⟩]) d')
    (events : List (Event ρ)) :
    P (happenings settings events) ((ofSettings settings).after events) := by
  refine effect_induction start ?_ events
  intro h handed d event reply d' o t hd e
  exact next h handed d event reply d' o t hd (e.turn o)

/-! ### The end of the handler -/

omit [Resource ρ] in
theorem Stays.isLast_iff {p p' : Processor (Delivery ρ)} (s : Stays p p') :
    p'.handler.isLast ↔ p.handler.isLast := by
  rw [Processor.HandlerPhase.isLast_iff, Processor.HandlerPhase.isLast_iff, s.finishing, s.ended]

/-- What is known of a deliverer by where its handler is. -/
structure Parting (d : Deliverer ρ) : Prop where
  stopped : d.processor.handler.isLast → d.stopped = true
  unregistered : d.processor.handler.isLast → ∀ t, d.sinks.get? t = none
  leaving : d.processor.handler ≠ .finishing → d.leaving = []
  alone : d.processor.handler = .ended → d.visitOf? .handler = none

namespace Parting

omit [Resource ρ]

theorem ofSettings (settings : DelivererSettings) :
    Parting (Deliverer.ofSettings settings : Deliverer ρ) where
  stopped h := h.elim
  unregistered h := h.elim
  leaving _ := rfl
  alone := nofun

theorem aside (k : Aside d d') (hopen : d.processor.channel.closed = false) (p : Parting d) :
    Parting d' where
  stopped hlast := k.stopped (p.stopped ((k.processor hopen).isLast_iff.mp hlast))
  unregistered hlast t := by
    rw [k.sinks]
    exact p.unregistered ((k.processor hopen).isLast_iff.mp hlast) t
  leaving hne := by
    rw [k.leaving]
    exact p.leaving (mt (k.processor hopen).finishing.mpr hne)
  alone hended := by
    rw [k.visitOf?]
    exact p.alone ((k.processor hopen).ended.mp hended)

theorem erase (p : Parting d) (queue : FairQueue ρ) (t : TargetId) :
    Parting { d with queue, sinks := d.sinks.erase t } :=
  { p with
    unregistered := fun hlast u => by
      rw [Roster.get?_erase]
      split
      · rfl
      · exact p.unregistered hlast u }

theorem visitRemover (p : Parting d) (call : CallId) (sink : Nat) (errand : Errand ρ) :
    Parting (d.visit (.remover call) sink errand) :=
  { p with
    alone := fun hended => by
      rw [visitOf?_visit_of_ne (Orderly.remover_ne call)]
      exact p.alone hended }

theorem endVisitRemover (p : Parting d) (call : CallId) : Parting (d.endVisit (.remover call)) :=
  { p with
    alone := fun hended => by
      rw [visitOf?_endVisit_of_ne (Orderly.remover_ne call)]
      exact p.alone hended }

theorem endVisit (p : Parting d) : Parting (d.endVisit .handler) :=
  { p with alone := fun _ => d.visitOf?_endVisit .handler }

/-- The handler goes on to something else than its end. -/
theorem goesOn (p : Parting d) {processor : Processor (Delivery ρ)} {delivery : Delivery ρ}
    (hreceiving : d.processor.handler = .receiving) (hhandling : processor.handler = .handling delivery) :
    Parting { d with processor } where
  stopped (hlast : processor.handler.isLast) := by
    rw [hhandling] at hlast
    exact hlast.elim
  unregistered (hlast : processor.handler.isLast) := by
    rw [hhandling] at hlast
    exact hlast.elim
  leaving _ := by
    refine p.leaving ?_
    rw [hreceiving]
    nofun
  alone (hended : processor.handler = .ended) := by
    rw [hhandling] at hended
    cases hended

end Parting

/-- A deliverer parts in the same way in every turn. -/
theorem Turn.parting (o : Orderly h handed d) (p : Parting d) (e : Turn d event reply d') :
    Parting d' := by
  have hopen := o.unclosed
  cases e with
  | aside _ k => exact .aside k hopen p
  | enrolled hstopped =>
    have hgoing : ¬ d.processor.handler.isLast := by
      intro hlast
      cases hstopped.symm.trans (p.stopped hlast)
    exact { p with unregistered := fun hlast => absurd hlast hgoing }
  | reprioritised => exact { p with }
  | submitted _ _ k => exact .aside k hopen { p with }
  | removed => exact p.erase _ _
  | removing _ _ _ k => exact .aside k hopen ((p.erase _ _).visitRemover _ _ _)
  | abandoned _ k => exact .aside k hopen (p.endVisitRemover _)
  | peeked _ _ k => exact .aside k hopen { p with }
  | @taken head queue queue' delivery processor d' _ _ _ hopen' _ hhandler k =>
    have p' : Parting { d with queue := queue', processor } := by
      constructor
      · rw [hhandler]
        exact p.stopped
      · rw [hhandler]
        exact p.unregistered
      · rw [hhandler]
        exact p.leaving
      · rw [hhandler]
        exact p.alone
    exact .aside k hopen' p'
  | setOut _ hreceiving hhandling =>
    have p' := p.goesOn hreceiving hhandling
    refine { p' with alone := fun hended => ?_ }
    cases hhandling.symm.trans hended
  | late hopen' hreceiving hhandling _ _ k =>
    have p' := p.goesOn hreceiving hhandling
    exact .aside k hopen' { p' with }
  | closing _ _ hfinishing =>
    exact ⟨fun _ => rfl, fun _ => Roster.get?_empty, fun hne => absurd hfinishing hne, fun hended =>
      nomatch hfinishing.symm.trans hended⟩
  | entered =>
    refine { p with alone := fun hended => ?_ }
    rw [visitOf?_letIn, p.alone hended, Option.map_none]
  | accepted _ _ _ k => exact .aside k hopen { p.endVisit with }
  | gone _ _ _ _ k => exact .aside k hopen { p.endVisit with }
  | @orphaned v delivery backlog queue d' _ _ _ _ _ _ k =>
    have p' := p.endVisit.erase queue delivery.target
    exact .aside k hopen { p' with }
  | @foundClosed v delivery backlog queue sink d' hv _ _ _ _ _ k =>
    have p' := p.endVisit.erase queue delivery.target
    refine .aside k hopen { p' with alone := fun hended => ?_ }
    cases (p.alone hended).symm.trans hv
  | dismissed _ _ _ k => exact .aside k hopen p.endVisit
  | returned _ _ _ k => exact .aside k hopen (p.endVisitRemover _)
  | dismissing hfinishing =>
    exact { p with
      leaving := fun hne => absurd hfinishing hne
      alone := fun hended => nomatch hfinishing.symm.trans hended }
  | ended hleaving hnone _ hfinishing =>
    have hlast : d.processor.handler.isLast := Processor.HandlerPhase.isLast_iff.mpr (.inl hfinishing)
    exact ⟨fun _ => p.stopped hlast, fun _ => p.unregistered hlast, fun _ => hleaving, fun _ => hnone⟩

theorem parting_after (settings : DelivererSettings) (events : List (Event ρ)) :
    Parting ((ofSettings settings : Deliverer ρ).after events) :=
  turn_induction (P := fun _ d => Parting d) (.ofSettings settings)
    (fun _ _ _ _ _ _ o _ p e => e.parting o p) events

end

end Deliverer

end Sluice
