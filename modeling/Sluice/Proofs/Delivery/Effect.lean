import Sluice.Delivery.Deliverer
import Sluice.Proofs.Worker.Passage

/-!
# What an event can do to a deliverer

`Effect` lists, once and for all, the ways in which an event changes a deliverer, with its answer and with
what is known when it happens. `step_effect` says that every event that can happen has one of these effects.
What a schedule keeps is proved from it, one case for each effect.
-/

namespace Sluice

namespace Deliverer

variable {ρ : Type} {d d' : Deliverer ρ}

/-! ### The parts of an event -/

theorem work_eq_some {event : Processor.Event (Delivery ρ)} :
    d.work event = some d' ↔
      ∃ reply processor, d.processor.step event = some (reply, processor) ∧
        d' = { d with processor } := by
  rw [work, Option.map_eq_some_iff]
  constructor
  · rintro ⟨⟨reply, processor⟩, hstep, rfl⟩
    exact ⟨reply, processor, hstep, rfl⟩
  · rintro ⟨reply, processor, hstep, rfl⟩
    exact ⟨(reply, processor), hstep, rfl⟩

/-- An event that is passed to the processor happens there, or nothing happens. -/
theorem proceed_eq (d : Deliverer ρ) (event : Processor.Event (Delivery ρ)) :
    (∃ reply processor, d.processor.step event = some (reply, processor) ∧
      d.proceed event = { d with processor }) ∨
    (d.processor.step event = none ∧ d.proceed event = d) := by
  rw [proceed]
  cases hwork : d.work event with
  | some d' => exact .inl (work_eq_some.mp hwork)
  | none => exact .inr ⟨Option.map_eq_none_iff.mp hwork, rfl⟩

theorem wake_eq (d : Deliverer ρ) : ∃ search permit, d.wake = { d with search, permit } := by
  rw [wake]
  split
  · exact ⟨_, _, rfl⟩
  · exact ⟨_, _, rfl⟩
  · exact ⟨_, _, rfl⟩

theorem park_eq (d : Deliverer ρ) (search : Search) :
    ∃ search' permit, d.park search = { d with search := search', permit } := by
  rw [park]
  split
  · exact ⟨_, _, rfl⟩
  · exact ⟨_, _, rfl⟩

theorem tellStop_eq (d : Deliverer ρ) :
    ∃ search permit, d.tellStop = { d with stopped := true, search, permit } := by
  rw [tellStop]
  split
  · next hstopped => exact ⟨d.search, d.permit, by rw [← hstopped]⟩
  · obtain ⟨search, permit, h⟩ := ({ d with stopped := true } : Deliverer ρ).wake_eq
    exact ⟨search, permit, h⟩

theorem isClosing_iff : d.isClosing = true ↔ d.processor.handler = .finishing := by
  rw [isClosing]
  cases d.processor.handler with
  | finishing => exact iff_of_true rfl rfl
  | _ => exact iff_of_false Bool.false_ne_true nofun

theorem isReading_iff : d.isReading = true ↔ d.processor.reader = .reading := by
  rw [isReading]
  cases d.processor.reader with
  | reading => exact iff_of_true rfl rfl
  | _ => exact iff_of_false Bool.false_ne_true nofun

/-! ### Visits -/

/-- A visit is found with its visitor. -/
theorem visitor_of_visitOf? {visitor : Visitor} {v : Visit ρ} (h : d.visitOf? visitor = some v) :
    v.visitor = visitor := by
  rw [visitOf?] at h
  simpa using List.find?_some h

/-- A visitor who has no visit yet has the one that is added for it. -/
theorem visitOf?_visit {visitor : Visitor} (hnone : d.visitOf? visitor = none) (sink : Nat)
    (errand : Errand ρ) :
    (d.visit visitor sink errand).visitOf? visitor = some { visitor, sink, errand } := by
  rw [visitOf?] at hnone
  rw [visitOf?, visit, List.find?_append, hnone, Option.none_or, List.find?_singleton,
    if_pos (beq_self_eq_true visitor)]

/-- A visit that is added is nobody else's. -/
theorem visitOf?_visit_of_ne {visitor other : Visitor} (hne : visitor ≠ other) (sink : Nat)
    (errand : Errand ρ) : (d.visit visitor sink errand).visitOf? other = d.visitOf? other := by
  rw [visitOf?, visitOf?, visit, List.find?_append, List.find?_singleton,
    if_neg (by simpa using hne), Option.or_none]

theorem visitOf?_endVisit (d : Deliverer ρ) (visitor : Visitor) :
    (d.endVisit visitor).visitOf? visitor = none := by
  rw [visitOf?, endVisit, List.find?_eq_none]
  intro v hv
  simpa using (List.mem_filter.mp hv).2

theorem visitOf?_endVisit_of_ne {visitor other : Visitor} (hne : visitor ≠ other) :
    (d.endVisit visitor).visitOf? other = d.visitOf? other := by
  rw [visitOf?, visitOf?, endVisit, List.find?_filter]
  congr 1
  funext v
  by_cases hother : v.visitor = other
  · simp [hother, Ne.symm hne]
  · simp [hother]

/-- The deliverer once a visitor has called its sink. -/
def letIn (d : Deliverer ρ) (visitor : Visitor) : Deliverer ρ :=
  { d with visits := d.visits.map fun v => if v.visitor = visitor then { v with inside := true } else v }

theorem visitOf?_letIn (d : Deliverer ρ) (visitor other : Visitor) :
    (d.letIn visitor).visitOf? other =
      (d.visitOf? other).map fun v =>
        if v.visitor = visitor then { v with inside := true } else v := by
  rw [visitOf?, visitOf?, letIn, List.find?_map]
  congr 2
  funext v
  rw [Function.comp_apply]
  split <;> rfl

theorem visitOf?_letIn_of_ne {visitor other : Visitor} (hne : visitor ≠ other) :
    (d.letIn visitor).visitOf? other = d.visitOf? other := by
  rw [visitOf?_letIn]
  cases hv : d.visitOf? other with
  | none => rfl
  | some v => rw [Option.map_some, if_neg (visitor_of_visitOf? hv ▸ Ne.symm hne)]

/-! ### The register -/

/-- What becomes of the request to unregister a target. -/
theorem unregister_eq (d : Deliverer ρ) (t : TargetId) (registration : Option Nat) :
    (∃ r backlog queue, d.queue.registrationOf t = some r ∧ (∀ s, registration = some s → s = r) ∧
      d.queue.removeTarget t = .ok (backlog, queue) ∧
      d.unregister t registration =
        .ok ((d.sinks.get? t, backlog), { d with queue, sinks := d.sinks.erase t })) ∨
    (d.queue.registrationOf t = none ∨ ∃ s, registration = some s ∧ d.queue.registrationOf t ≠ some s) ∧
      d.unregister t registration = .error (.targetNotFound t) := by
  rw [unregister, FairQueue.removeTarget, FairQueue.registrationOf]
  cases d.queue.targets.get? t with
  | none => exact .inr ⟨.inl rfl, rfl⟩
  | some entry =>
    cases registration with
    | none => exact .inl ⟨_, _, _, rfl, nofun, rfl, rfl⟩
    | some s =>
      by_cases hs : s = entry.registration
      · refine .inl ⟨_, _, _, rfl, fun _ h => (Option.some.inj h).symm.trans hs, rfl, ?_⟩
        simp [hs]
      · refine .inr ⟨.inr ⟨s, rfl, fun h => hs (Option.some.inj h).symm⟩, ?_⟩
        simp [hs]

/-- A sink that was found closed is dismissed if it is still registered under its number. -/
theorem close_eq (d : Deliverer ρ) (delivery : Delivery ρ) :
    (d.queue.registrationOf delivery.target ≠ some delivery.registration ∧
      d.close delivery = d.handled) ∨
    ∃ backlog queue, d.queue.registrationOf delivery.target = some delivery.registration ∧
      d.queue.removeTarget delivery.target = .ok (backlog, queue) ∧
      ((d.sinks.get? delivery.target = none ∧
        d.close delivery = ({ d with
          queue
          sinks := d.sinks.erase delivery.target
          closedTargets := d.closedTargets + 1
          dropped := d.dropped + backlog.length } : Deliverer ρ).handled) ∨
      ∃ sink, d.sinks.get? delivery.target = some sink ∧
        d.close delivery = ({ d with
          queue
          sinks := d.sinks.erase delivery.target
          closedTargets := d.closedTargets + 1
          dropped := d.dropped + backlog.length } : Deliverer ρ).visit .handler sink (.dismiss [])) := by
  rw [close]
  rcases d.unregister_eq delivery.target (some delivery.registration) with
    ⟨r, backlog, queue, hr, hsame, hremove, hunregister⟩ | ⟨hgone, hunregister⟩
  · rw [hunregister]
    obtain rfl := hsame _ rfl
    refine .inr ⟨backlog, queue, hr, hremove, ?_⟩
    cases hsink : d.sinks.get? delivery.target with
    | none => exact .inl ⟨rfl, rfl⟩
    | some sink => exact .inr ⟨sink, rfl, rfl⟩
  · rw [hunregister]
    refine .inl ⟨?_, rfl⟩
    rcases hgone with hnone | ⟨s, hs, hne⟩
    · exact fun h => nomatch hnone.symm.trans h
    · cases hs
      exact hne

/-! ### Requests -/

theorem map_eq_ok {α β : Type} {f : α → β} {result : Except DeliveryError α} {b : β}
    (h : result.map f = .ok b) : ∃ a, result = .ok a ∧ b = f a := by
  cases result with
  | ok a =>
    cases h
    exact ⟨a, rfl, rfl⟩
  | error e => cases h

theorem addTarget_eq_ok {t : TargetId} {priority : Number.Single} (h : d.addTarget t priority = .ok d') :
    d.stopped = false ∧ ∃ r queue, d.queue.addTarget t priority = .ok (r, queue) ∧
      d' = { d with queue, sinks := d.sinks.set t r } := by
  rw [addTarget] at h
  cases hstopped : d.stopped with
  | true =>
    rw [hstopped] at h
    cases h
  | false =>
    rw [hstopped] at h
    cases hadd : d.queue.addTarget t priority with
    | error e =>
      rw [hadd] at h
      cases h
    | ok added =>
      obtain ⟨r, queue⟩ := added
      rw [hadd] at h
      cases h
      exact ⟨rfl, r, queue, rfl, rfl⟩

theorem submit_eq_ok [Resource ρ] {t : TargetId} {resource : ρ} (h : d.submit t resource = .ok d') :
    d.stopped = false ∧ ∃ queue, d.queue.push t resource = .ok queue ∧
      d' = ({ d with queue } : Deliverer ρ).wake := by
  rw [submit] at h
  cases hstopped : d.stopped with
  | true =>
    rw [hstopped] at h
    cases h
  | false =>
    rw [hstopped] at h
    cases hpush : d.queue.push t resource with
    | error e =>
      rw [hpush] at h
      cases h
    | ok queue =>
      rw [hpush] at h
      cases h
      exact ⟨rfl, queue, rfl, rfl⟩

/-! ### The effects -/

/-- What a request makes of the deliverer, if the event is one. -/
def request? [Resource ρ] (d : Deliverer ρ) : Event ρ → Option (Except DeliveryError (Deliverer ρ))
  | .addTarget t priority => some (d.addTarget t priority)
  | .setPriority t priority =>
    some ((d.queue.setPriority t priority).map fun queue => { d with queue })
  | .submit t resource => some (d.submit t resource)
  | .setLimit limit =>
    some ((d.limiter.setLimit limit).map fun limiter => ({ d with limiter } : Deliverer ρ).wake)
  | _ => none

/-- The events that are passed to the processor and change nothing else. -/
inductive Works (d : Deliverer ρ) : Event ρ → Processor.Event (Delivery ρ) → Prop
  | cancel {call : CallId} : d.visitOf? (.remover call) = none → Works d (.cancel call) (.cancel call)
  | copyHandle : Works d .copyHandle .copyHandle
  | dropHandle : Works d .dropHandle .dropHandle
  | readCancelled : Works d .readCancelled .readCancelled
  | sendResumes : Works d .sendResumes .sendResumes
  | readerLeaves : Works d .readerLeaves (.takePending [])
  | readerFinishes : Works d .readerFinishes .readerFinishes
  | handlerFinishes :
      d.leaving = [] → d.visitOf? .handler = none → Works d .handlerFinishes .handlerFinishes

/-- What the reader does that looks for a resource. -/
inductive Asked (d : Deliverer ρ) : Deliverer ρ → Prop
  | stopped : d.stopped = true → Asked d (d.proceed (.readReturns none))
  | idle {queue : FairQueue ρ} :
      d.stopped = false → d.queue.peek = (none, queue) →
      Asked d (({ d with queue } : Deliverer ρ).park .idle)
  | throttled {t : TargetId} {size wait : Nat} {queue : FairQueue ρ} {limiter : Limiter} :
      d.stopped = false → d.queue.peek = (some (t, size), queue) →
      d.limiter.waitTime size d.clock = (wait, limiter) → 0 < wait →
      Asked d (({ d with queue, limiter } : Deliverer ρ).park (.limited (d.now + wait) false))
  | missed {t : TargetId} {size : Nat} {queue queue' : FairQueue ρ} {limiter : Limiter} :
      d.stopped = false → d.queue.peek = (some (t, size), queue) →
      d.limiter.waitTime size d.clock = (0, limiter) → queue.pop = (none, queue') →
      Asked d (({ d with queue := queue', limiter } : Deliverer ρ).park .idle)
  | taken {t : TargetId} {size : Nat} {queue queue' : FairQueue ρ} {limiter : Limiter}
      {delivery : Delivery ρ} :
      d.stopped = false → d.queue.peek = (some (t, size), queue) →
      d.limiter.waitTime size d.clock = (0, limiter) → queue.pop = (some delivery, queue') →
      Asked d (({ d with queue := queue', limiter := limiter.record delivery.size d.clock } :
        Deliverer ρ).proceed (.readReturns (some delivery)))

/-- The changes that an event can make, with its answer. -/
inductive Effect [Resource ρ] (d : Deliverer ρ) : Event ρ → Reply ρ → Deliverer ρ → Prop
  | refused {event : Event ρ} {error : DeliveryError} :
      d.hasHandle = true → d.request? event = some (.error error) →
      Effect d event (.result (.error error)) d
  | enrolled {t : TargetId} {priority : Number.Single} {r : Nat} {queue : FairQueue ρ} :
      d.hasHandle = true → d.stopped = false → d.queue.addTarget t priority = .ok (r, queue) →
      Effect d (.addTarget t priority) (.result (.ok ())) { d with queue, sinks := d.sinks.set t r }
  | reprioritised {t : TargetId} {priority : Number.Single} {queue : FairQueue ρ} :
      d.hasHandle = true → d.queue.setPriority t priority = .ok queue →
      Effect d (.setPriority t priority) (.result (.ok ())) { d with queue }
  | submitted {t : TargetId} {resource : ρ} {queue : FairQueue ρ} :
      d.hasHandle = true → d.stopped = false → d.queue.push t resource = .ok queue →
      Effect d (.submit t resource) (.result (.ok ())) ({ d with queue } : Deliverer ρ).wake
  | limited {limit : Option Nat} {limiter : Limiter} :
      d.hasHandle = true → d.limiter.setLimit limit = .ok limiter →
      Effect d (.setLimit limit) (.result (.ok ())) ({ d with limiter } : Deliverer ρ).wake
  | measured :
      d.hasHandle = true →
      Effect d .measure (.speed (d.limiter.speed d.clock).1)
        { d with limiter := (d.limiter.speed d.clock).2 }
  | unfound {call : CallId} {t : TargetId} :
      d.hasHandle = true → d.queue.registrationOf t = none →
      Effect d (.remove call t) (.removed call (.error (.targetNotFound t))) d
  /-- Someone else has set out to dismiss the sink. -/
  | removed {call : CallId} {t : TargetId} {r : Nat} {backlog : List ρ} {queue : FairQueue ρ} :
      d.hasHandle = true → d.queue.registrationOf t = some r →
      d.queue.removeTarget t = .ok (backlog, queue) → d.sinks.get? t = none →
      Effect d (.remove call t) (.removed call (.ok backlog))
        { d with queue, sinks := d.sinks.erase t }
  | removing {call : CallId} {t : TargetId} {r sink : Nat} {backlog : List ρ} {queue : FairQueue ρ} :
      d.hasHandle = true → d.queue.registrationOf t = some r →
      d.queue.removeTarget t = .ok (backlog, queue) → d.sinks.get? t = some sink →
      Effect d (.remove call t) .quiet
        ((({ d with queue, sinks := d.sinks.erase t } : Deliverer ρ).proceed .copyHandle).visit
          (.remover call) sink (.dismiss backlog))
  | stopping {call : CallId} {d' : Deliverer ρ} :
      d.hasHandle = true → d.tellStop.work (.join call) = some d' → Effect d (.stop call) .quiet d'
  | joined {call : CallId} {stats : ProcessorStats} {processor : Processor (Delivery ρ)} :
      d.processor.step .advanceLine = some (.joined call stats, processor) →
      Effect d .advanceLine (.stopped call d.stats) { d with processor }
  | waited {processor : Processor (Delivery ρ)} :
      d.processor.step .advanceLine = some (.quiet, processor) →
      Effect d .advanceLine .quiet { d with processor }
  | abandoned {call : CallId} {v : Visit ρ} :
      d.visitOf? (.remover call) = some v →
      Effect d (.cancel call) .quiet ((d.endVisit (.remover call)).proceed .dropHandle)
  | worked {event : Event ρ} {work : Processor.Event (Delivery ρ)} {d' : Deliverer ρ} :
      Works d event work → d.work work = some d' → Effect d event .quiet d'
  | elapsed {span : Nat} : Effect d (.elapse span) .quiet { d with now := d.now + span }
  | looked {d' : Deliverer ρ} :
      ({ d with search := .asking } : Deliverer ρ).work .look = some d' → Effect d .look .quiet d'
  | asked {d' : Deliverer ρ} :
      d.isReading = true → d.search = .asking → Asked d d' → Effect d .ask .quiet d'
  | limitPassed {deadline : Nat} {woken : Bool} :
      d.isReading = true → d.search = .limited deadline woken → deadline ≤ d.now →
      Effect d .limitPasses .quiet { d with search := .asking, permit := d.permit || woken }
  | woken {deadline : Nat} :
      d.isReading = true → d.search = .limited deadline true →
      Effect d .noticeWake .quiet { d with search := .asking }
  | setOut {delivery : Delivery ρ} {d' : Deliverer ρ} :
      d.work .receive = some d' → d'.processor.handler = .handling delivery →
      d.sinks.get? delivery.target = some delivery.registration →
      Effect d .receive .quiet (d'.visit .handler delivery.registration (.deliver delivery))
  /-- The registration that the resource was queued under is gone. -/
  | late {delivery : Delivery ρ} {d' : Deliverer ρ} :
      d.work .receive = some d' → d'.processor.handler = .handling delivery →
      d.sinks.get? delivery.target ≠ some delivery.registration →
      Effect d .receive .quiet ({ d' with dropped := d.dropped + 1 } : Deliverer ρ).handled
  | closing {d' : Deliverer ρ} :
      d.work .receive = some d' → d'.processor.handler = .finishing →
      Effect d .receive .quiet { d' with stopped := true, leaving := d.sinks.values, sinks := .empty }
  | entered {visitor : Visitor} {v : Visit ρ} :
      d.visitOf? visitor = some v → v.inside = false →
      (d.visits.find? (·.sink == v.sink)).any (·.visitor != visitor) = false →
      Effect d (.enter visitor) .quiet (d.letIn visitor)
  | accepted {v : Visit ρ} {delivery : Delivery ρ} :
      d.visitOf? .handler = some v → v.errand = .deliver delivery → v.inside = true →
      Effect d (.deliverReturns .accepted) .quiet
        ({ d.endVisit .handler with
          deliveredResources := d.deliveredResources + 1
          deliveredBytes := Word.add d.deliveredBytes delivery.size } : Deliverer ρ).handled
  /-- The sink is found closed after its registration has gone. -/
  | gone {v : Visit ρ} {delivery : Delivery ρ} :
      d.visitOf? .handler = some v → v.errand = .deliver delivery → v.inside = true →
      d.queue.registrationOf delivery.target ≠ some delivery.registration →
      Effect d (.deliverReturns .closed) .quiet
        ({ d.endVisit .handler with dropped := d.dropped + 1 } : Deliverer ρ).handled
  /-- The sink is found closed, and someone else has set out to dismiss it. -/
  | orphaned {v : Visit ρ} {delivery : Delivery ρ} {backlog : List ρ} {queue : FairQueue ρ} :
      d.visitOf? .handler = some v → v.errand = .deliver delivery → v.inside = true →
      d.queue.registrationOf delivery.target = some delivery.registration →
      d.queue.removeTarget delivery.target = .ok (backlog, queue) →
      d.sinks.get? delivery.target = none →
      Effect d (.deliverReturns .closed) .quiet
        ({ d.endVisit .handler with
          queue
          sinks := d.sinks.erase delivery.target
          closedTargets := d.closedTargets + 1
          dropped := d.dropped + 1 + backlog.length } : Deliverer ρ).handled
  | foundClosed {v : Visit ρ} {delivery : Delivery ρ} {backlog : List ρ} {queue : FairQueue ρ}
      {sink : Nat} :
      d.visitOf? .handler = some v → v.errand = .deliver delivery → v.inside = true →
      d.queue.registrationOf delivery.target = some delivery.registration →
      d.queue.removeTarget delivery.target = .ok (backlog, queue) →
      d.sinks.get? delivery.target = some sink →
      Effect d (.deliverReturns .closed) .quiet
        (({ d.endVisit .handler with
          queue
          sinks := d.sinks.erase delivery.target
          closedTargets := d.closedTargets + 1
          dropped := d.dropped + 1 + backlog.length } : Deliverer ρ).visit .handler sink (.dismiss []))
  /-- The handler at its end has dismissed a sink. -/
  | dismissed {v : Visit ρ} {backlog : List ρ} :
      d.visitOf? .handler = some v → v.errand = .dismiss backlog → v.inside = true →
      d.processor.handler = .finishing →
      Effect d (.dismissReturns .handler) .quiet (d.endVisit .handler)
  /-- The handler has dismissed a sink that was found closed. -/
  | resumed {v : Visit ρ} {backlog : List ρ} :
      d.visitOf? .handler = some v → v.errand = .dismiss backlog → v.inside = true →
      d.processor.handler ≠ .finishing →
      Effect d (.dismissReturns .handler) .quiet (d.endVisit .handler).handled
  | returned {call : CallId} {v : Visit ρ} {backlog : List ρ} :
      d.visitOf? (.remover call) = some v → v.errand = .dismiss backlog → v.inside = true →
      Effect d (.dismissReturns (.remover call)) (.removed call (.ok backlog))
        ((d.endVisit (.remover call)).proceed .dropHandle)
  | dismissing {sink : Nat} :
      d.processor.handler = .finishing → d.visitOf? .handler = none → sink ∈ d.leaving →
      Effect d (.dismissNext sink) .quiet
        (({ d with leaving := d.leaving.erase sink } : Deliverer ρ).visit .handler sink (.dismiss []))

/-! ### Every event has one of the effects -/

theorem ask_asked (d : Deliverer ρ) : Asked d d.ask := by
  rw [ask]
  split
  · next hstopped => exact .stopped hstopped
  · next hgoing =>
    have hstopped : d.stopped = false := by simpa using hgoing
    rcases hpeek : d.queue.peek with ⟨next, queue⟩
    cases next with
    | none => exact .idle hstopped hpeek
    | some head =>
      obtain ⟨t, size⟩ := head
      rcases hwait : d.limiter.waitTime size d.clock with ⟨wait, limiter⟩
      have hwait' : ({ d with queue } : Deliverer ρ).limiter.waitTime size
          ({ d with queue } : Deliverer ρ).clock = (wait, limiter) := hwait
      simp only [hwait']
      split
      · next hpos => exact .throttled hstopped hpeek hwait hpos
      · next hzero =>
        obtain rfl : wait = 0 := Nat.eq_zero_of_not_pos hzero
        rcases hpop : queue.pop with ⟨taken, queue'⟩
        cases taken with
        | none => exact .missed hstopped hpeek hwait hpop
        | some delivery => exact .taken hstopped hpeek hwait hpop

section

variable [Resource ρ] {event : Event ρ} {reply : Reply ρ}

/-- A request that succeeds changes the deliverer. -/
theorem granted_effect (hhandle : d.hasHandle = true) (hrequest : d.request? event = some (.ok d')) :
    Effect d event (.result (.ok ())) d' := by
  cases event with
  | addTarget t priority =>
    obtain ⟨hstopped, r, queue, hadd, rfl⟩ := addTarget_eq_ok (Option.some.inj hrequest)
    exact .enrolled hhandle hstopped hadd
  | setPriority t priority =>
    obtain ⟨queue, hset, rfl⟩ := map_eq_ok (Option.some.inj hrequest)
    exact .reprioritised hhandle hset
  | submit t resource =>
    obtain ⟨hstopped, queue, hpush, rfl⟩ := submit_eq_ok (Option.some.inj hrequest)
    exact .submitted hhandle hstopped hpush
  | setLimit limit =>
    obtain ⟨limiter, hset, rfl⟩ := map_eq_ok (Option.some.inj hrequest)
    exact .limited hhandle hset
  | _ => cases hrequest

/-- A request fails, or it is answered and changes the deliverer. -/
theorem request_effect {result : Except DeliveryError (Deliverer ρ)} (hrequest : d.request? event = some result)
    (hstep : (if d.hasHandle then some (d.answer result) else none) = some (reply, d')) :
    Effect d event reply d' := by
  obtain ⟨hhandle, hanswer⟩ := Option.ite_none_right_eq_some.mp hstep
  cases result with
  | ok d₁ =>
    cases hanswer
    exact granted_effect hhandle hrequest
  | error e =>
    cases hanswer
    exact .refused hhandle hrequest

theorem works_effect {work : Processor.Event (Delivery ρ)} (h : Works d event work)
    (hstep : (d.work work).map (Reply.quiet, ·) = some (reply, d')) : Effect d event reply d' := by
  obtain ⟨d₁, hwork, heq⟩ := Option.map_eq_some_iff.mp hstep
  cases heq
  exact .worked h hwork

/-! A call moves on. -/

theorem advanceLine_effect (hstep : d.step .advanceLine = some (reply, d')) : Effect d .advanceLine reply d' := by
  obtain ⟨⟨answer, processor⟩, hprocessor, heq⟩ := Option.map_eq_some_iff.mp hstep
  cases answer with
  | joined call stats =>
    cases heq
    exact .joined hprocessor
  | quiet =>
    cases heq
    exact .waited hprocessor

theorem cancel_effect {call : CallId} (hstep : d.step (.cancel call) = some (reply, d')) :
    Effect d (.cancel call) reply d' := by
  simp only [step] at hstep
  split at hstep
  · next hvisit =>
    cases hstep
    obtain ⟨v, hv⟩ := Option.isSome_iff_exists.mp hvisit
    exact .abandoned hv
  · next hvisit => exact works_effect (.cancel (by simpa using hvisit)) hstep

/-! The reader moves. -/

theorem ask_effect (hstep : d.step .ask = some (reply, d')) : Effect d .ask reply d' := by
  simp only [step] at hstep
  split at hstep
  · next hreading hsearch =>
    cases hstep
    exact .asked hreading hsearch d.ask_asked
  · cases hstep

theorem limitPasses_effect (hstep : d.step .limitPasses = some (reply, d')) : Effect d .limitPasses reply d' := by
  simp only [step] at hstep
  split at hstep
  · next deadline woken hreading hsearch =>
    obtain ⟨hpassed, heq⟩ := Option.ite_none_right_eq_some.mp hstep
    cases heq
    exact .limitPassed hreading hsearch hpassed
  · cases hstep

theorem noticeWake_effect (hstep : d.step .noticeWake = some (reply, d')) : Effect d .noticeWake reply d' := by
  simp only [step] at hstep
  split at hstep
  · next deadline hreading hsearch =>
    cases hstep
    exact .woken hreading hsearch
  · cases hstep

/-! The handler moves, or a call that dismisses a sink. -/

theorem receive_effect (hwork : d.work .receive = some d') :
    Effect d .receive .quiet d'.afterReceive := by
  obtain ⟨reply, processor, hstep, rfl⟩ := work_eq_some.mp hwork
  rw [afterReceive]
  rcases Processor.handler_of_receive hstep with ⟨delivery, hhandler⟩ | hhandler
  · simp only [hhandler]
    rw [handOver]
    split
    · next hsink => exact .setOut hwork hhandler hsink
    · next hsink => exact .late hwork hhandler hsink
  · simp only [hhandler]
    exact .closing hwork hhandler

theorem close_effect {v : Visit ρ} {delivery : Delivery ρ} (hv : d.visitOf? .handler = some v)
    (herrand : v.errand = .deliver delivery) (hinside : v.inside = true) :
    Effect d (.deliverReturns .closed) .quiet
      ((d.endVisit .handler).afterDelivery delivery .closed) := by
  rw [afterDelivery]
  rcases close_eq ({ d.endVisit .handler with dropped := d.dropped + 1 } : Deliverer ρ) delivery with
    ⟨hgone, hclose⟩ | ⟨backlog, queue, hr, hremove, ⟨hsink, hclose⟩ | ⟨sink, hsink, hclose⟩⟩
  · exact hclose ▸ .gone hv herrand hinside hgone
  · exact hclose ▸ .orphaned hv herrand hinside hr hremove hsink
  · exact hclose ▸ .foundClosed hv herrand hinside hr hremove hsink

theorem remove_effect (hhandle : d.hasHandle = true) (call : CallId) (t : TargetId) :
    Effect d (.remove call t) (d.remove call t).1 (d.remove call t).2 := by
  rw [remove]
  rcases d.unregister_eq t none with ⟨r, backlog, queue, hr, -, hremove, hunregister⟩ | ⟨hnone, hunregister⟩
  · rw [hunregister]
    cases hsink : d.sinks.get? t with
    | none => exact .removed hhandle hr hremove hsink
    | some sink => exact .removing hhandle hr hremove hsink
  · rw [hunregister]
    rcases hnone with hnone | ⟨s, hs, -⟩
    · exact .unfound hhandle hnone
    · cases hs

theorem dismissal_effect {visitor : Visitor} {v : Visit ρ} {backlog : List ρ}
    (hv : d.visitOf? visitor = some v) (herrand : v.errand = .dismiss backlog)
    (hinside : v.inside = true) :
    Effect d (.dismissReturns visitor) ((d.endVisit visitor).afterDismissal visitor backlog).1
      ((d.endVisit visitor).afterDismissal visitor backlog).2 := by
  cases visitor with
  | remover call => exact .returned hv herrand hinside
  | handler =>
    simp only [afterDismissal]
    split
    · next hclosing => exact .dismissed hv herrand hinside (isClosing_iff.mp hclosing)
    · next hclosing => exact .resumed hv herrand hinside (mt isClosing_iff.mpr hclosing)

theorem enter_effect {visitor : Visitor} (henter : d.enter visitor = some d') :
    Effect d (.enter visitor) .quiet d' := by
  rw [enter] at henter
  split at henter
  · cases henter
  · next v hv =>
    obtain ⟨hfirst, heq⟩ := Option.ite_none_left_eq_some.mp henter
    cases heq
    obtain ⟨hinside, hfree⟩ := Bool.or_eq_false_iff.mp (Bool.eq_false_iff.mpr hfirst)
    exact .entered hv hinside hfree

theorem deliverReturns_effect {outcome : DeliveryOutcome}
    (hstep : d.step (.deliverReturns outcome) = some (reply, d')) : Effect d (.deliverReturns outcome) reply d' := by
  simp only [step] at hstep
  split at hstep
  · next visitor sink delivery hv =>
    cases hstep
    cases outcome with
    | accepted => exact .accepted hv rfl rfl
    | closed => exact close_effect hv rfl rfl
  · cases hstep

theorem dismissReturns_effect {visitor : Visitor} (hstep : d.step (.dismissReturns visitor) = some (reply, d')) :
    Effect d (.dismissReturns visitor) reply d' := by
  simp only [step] at hstep
  split at hstep
  · next who sink backlog hv =>
    have heffect := dismissal_effect hv rfl rfl
    rw [Option.some.inj hstep] at heffect
    exact heffect
  · cases hstep

theorem dismissNext_effect {sink : Nat} (hstep : d.step (.dismissNext sink) = some (reply, d')) :
    Effect d (.dismissNext sink) reply d' := by
  obtain ⟨⟨hclosing, hnone, hmem⟩, heq⟩ := Option.ite_none_right_eq_some.mp hstep
  cases heq
  exact .dismissing (isClosing_iff.mp hclosing) (by simpa using hnone) hmem

theorem handlerFinishes_effect (hstep : d.step .handlerFinishes = some (reply, d')) :
    Effect d .handlerFinishes reply d' := by
  obtain ⟨⟨hleaving, hnone⟩, hwork⟩ := Option.ite_none_right_eq_some.mp hstep
  exact works_effect (.handlerFinishes hleaving (by simpa using hnone)) hwork

/-- Every event that can happen has one of the effects. -/
theorem step_effect (hstep : d.step event = some (reply, d')) : Effect d event reply d' := by
  cases event with
  | addTarget => exact request_effect rfl hstep
  | setPriority => exact request_effect rfl hstep
  | submit => exact request_effect rfl hstep
  | setLimit => exact request_effect rfl hstep
  | measure =>
    obtain ⟨hhandle, heq⟩ := Option.ite_none_right_eq_some.mp hstep
    cases heq
    exact .measured hhandle
  | remove call t =>
    obtain ⟨hhandle, heq⟩ := Option.ite_none_right_eq_some.mp hstep
    have heffect := remove_effect hhandle call t
    rw [Option.some.inj heq] at heffect
    exact heffect
  | stop call =>
    obtain ⟨hhandle, hjoin⟩ := Option.ite_none_right_eq_some.mp hstep
    obtain ⟨d₁, hwork, heq⟩ := Option.map_eq_some_iff.mp hjoin
    cases heq
    exact .stopping hhandle hwork
  | advanceLine => exact advanceLine_effect hstep
  | cancel => exact cancel_effect hstep
  | copyHandle => exact works_effect .copyHandle hstep
  | dropHandle => exact works_effect .dropHandle hstep
  | elapse span =>
    cases hstep
    exact .elapsed
  | look =>
    obtain ⟨d₁, hwork, heq⟩ := Option.map_eq_some_iff.mp hstep
    cases heq
    exact .looked hwork
  | ask => exact ask_effect hstep
  | limitPasses => exact limitPasses_effect hstep
  | noticeWake => exact noticeWake_effect hstep
  | readCancelled => exact works_effect .readCancelled hstep
  | sendResumes => exact works_effect .sendResumes hstep
  | readerLeaves => exact works_effect .readerLeaves hstep
  | readerFinishes => exact works_effect .readerFinishes hstep
  | receive =>
    obtain ⟨d₁, hwork, heq⟩ := Option.map_eq_some_iff.mp hstep
    cases heq
    exact receive_effect hwork
  | enter visitor =>
    obtain ⟨d₁, henter, heq⟩ := Option.map_eq_some_iff.mp hstep
    cases heq
    exact enter_effect henter
  | deliverReturns => exact deliverReturns_effect hstep
  | dismissReturns => exact dismissReturns_effect hstep
  | dismissNext => exact dismissNext_effect hstep
  | handlerFinishes => exact handlerFinishes_effect hstep

end

end Deliverer

end Sluice
