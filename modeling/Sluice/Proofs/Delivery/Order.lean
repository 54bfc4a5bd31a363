import Mathlib.Data.List.Nodup
import Sluice.Proofs.Delivery.History
import Sluice.Proofs.Fair.Supply

/-!
# Each sink gets what was accepted for it, in order

A resource passes from the fair queue through the reader, the channel and the handler to a sink, and its
target may be removed and registered again at any point between. `delivered_in_order` says that none of this
puts anything out of place: whatever the schedule, what a sink has been called with is a first part of what
was accepted for its target while the sink was registered, and nothing that was accepted under another
registration is in it.

The invariant is `Orderly`. Under the number of a registration, what the queue has handed out is, in order,
what its sink was called with, then what the handler is about to call it with, then what was dropped, then
what is under way to the handler. While the sink is registered nothing has been dropped. So once one resource
of a registration is dropped, the sink is not registered any more, and every later one is dropped too.
-/

namespace Sluice

open Fair (resourcesUnder resourcesUnder_append resourcesUnder_cons resourcesUnder_eq_nil)

namespace Deliverer

variable {ρ : Type}

/-! ### The invariant -/

/-- What the handler is about to call a sink with. -/
def awaited (d : Deliverer ρ) (sink : Nat) : List ρ :=
  match d.visitOf? .handler with
  | some v => if v.inside then [] else v.brings sink
  | none => []

/-- The state of a deliverer after a history in which the queue handed out some deliveries. -/
structure Orderly (h : List (Happening ρ)) (handed : List (Delivery ρ)) (d : Deliverer ρ) : Prop where
  supplies : d.queue.Supplies (registrations h) (fun r => submittedUnder r h) handed
  /-- What was accepted for a registered sink was accepted for the target of that registration. -/
  submitters : ∀ s ∈ submissions h, ∀ r, s.sink = some r → (s.target, r) ∈ registrations h
  /-- The sinks are those of the registrations, until all are about to be dismissed. -/
  registered : ∀ t, d.sinks.get? t = d.queue.registrationOf t ∨
    d.stopped = true ∧ d.sinks.get? t = none
  unclosed : d.processor.channel.closed = false
  flowing : ∀ delivery ∈ d.processor.underway,
    (delivery.target, delivery.registration) ∈ registrations h
  idle : d.processor.handler = .receiving → d.visitOf? .handler = none
  errands : ∀ v ∈ d.visits, ∀ delivery, v.errand = .deliver delivery →
    v.visitor = .handler ∧ v.sink = delivery.registration
  /-- What became of everything that was handed out under a number. -/
  course : ∀ r, ∃ lost,
    resourcesUnder r handed =
      deliveredTo r h ++ d.awaited r ++ lost ++ resourcesUnder r d.processor.underway ∧
    ((∃ t, d.sinks.get? t = some r) → lost = [])

/-- The second deliverer differs from the first in nothing that the order depends on. -/
structure Keeps (d d' : Deliverer ρ) : Prop where
  queue : d'.queue = d.queue
  sinks : d'.sinks = d.sinks
  visits : d'.visits = d.visits
  stopped : d.stopped = true → d'.stopped = true
  processor : d.processor.channel.closed = false →
    d'.processor.channel.closed = false ∧ d'.processor.underway = d.processor.underway ∧
      (d'.processor.handler = .receiving → d.processor.handler = .receiving)

namespace Keeps

variable {d d' d'' : Deliverer ρ}

theorem trans (h : Keeps d d') (h' : Keeps d' d'') : Keeps d d'' where
  queue := h'.queue.trans h.queue
  sinks := h'.sinks.trans h.sinks
  visits := h'.visits.trans h.visits
  stopped := h'.stopped ∘ h.stopped
  processor hopen := by
    obtain ⟨hopen', hunderway, hhandler⟩ := h.processor hopen
    obtain ⟨hopen'', hunderway', hhandler'⟩ := h'.processor hopen'
    exact ⟨hopen'', hunderway'.trans hunderway, hhandler ∘ hhandler'⟩

/-- What the reader waits for, the clock, the limiter and the counters do not matter. -/
theorem of_same (hqueue : d'.queue = d.queue) (hsinks : d'.sinks = d.sinks)
    (hvisits : d'.visits = d.visits) (hstopped : d.stopped = true → d'.stopped = true)
    (hprocessor : d'.processor = d.processor) : Keeps d d' :=
  ⟨hqueue, hsinks, hvisits, hstopped, by rw [hprocessor]; exact fun hopen => ⟨hopen, rfl, id⟩⟩

theorem refl (d : Deliverer ρ) : Keeps d d := .of_same rfl rfl rfl id rfl

theorem wake (d : Deliverer ρ) : Keeps d d.wake := by
  obtain ⟨search, permit, h⟩ := d.wake_eq
  exact h ▸ .of_same rfl rfl rfl id rfl

theorem park (d : Deliverer ρ) (search : Search) : Keeps d (d.park search) := by
  obtain ⟨search', permit, h⟩ := d.park_eq search
  exact h ▸ .of_same rfl rfl rfl id rfl

theorem tellStop (d : Deliverer ρ) : Keeps d d.tellStop := by
  obtain ⟨search, permit, h⟩ := d.tellStop_eq
  exact h ▸ .of_same rfl rfl rfl (fun _ => rfl) rfl

/-- An event of the processor that moves no message. -/
theorem step {event : Processor.Event (Delivery ρ)} {reply : Processor.Reply}
    {processor : Processor (Delivery ρ)} (hmoves : event.moves = false)
    (hstep : d.processor.step event = some (reply, processor)) : Keeps d { d with processor } where
  queue := rfl
  sinks := rfl
  visits := rfl
  stopped := id
  processor hopen := by
    obtain ⟨hopen', hpassage⟩ :=
      Processor.step_passage hopen hstep (Processor.Event.stops_of_moves hmoves)
    cases hpassage with
    | still _ hunderway hhandler => exact ⟨hopen', hunderway, fun h => hhandler ▸ h⟩
    | _ => cases hmoves

theorem work {event : Processor.Event (Delivery ρ)} (hmoves : event.moves = false)
    (hwork : d.work event = some d') : Keeps d d' := by
  obtain ⟨reply, processor, hstep, rfl⟩ := work_eq_some.mp hwork
  exact step hmoves hstep

theorem proceed {event : Processor.Event (Delivery ρ)} (hmoves : event.moves = false) :
    Keeps d (d.proceed event) := by
  rcases d.proceed_eq event with ⟨reply, processor, hstep, h⟩ | ⟨-, h⟩
  · exact h ▸ step hmoves hstep
  · exact h.symm ▸ .refl d

/-- The handler has done its closing work. -/
theorem handlerFinishes (hwork : d.work .handlerFinishes = some d') : Keeps d d' := by
  obtain ⟨reply, processor, hstep, rfl⟩ := work_eq_some.mp hwork
  refine ⟨rfl, rfl, rfl, id, fun hopen => ?_⟩
  obtain ⟨hopen', hpassage⟩ := Processor.step_passage hopen hstep rfl
  cases hpassage with
  | finished _ hended hunderway => exact ⟨hopen', hunderway, fun h => nomatch hended.symm.trans h⟩
  | still hmoves => cases hmoves

/-- The reader leaves and holds nothing back. -/
theorem readerLeaves (hwork : d.work (.takePending []) = some d') : Keeps d d' := by
  obtain ⟨reply, processor, hstep, rfl⟩ := work_eq_some.mp hwork
  refine ⟨rfl, rfl, rfl, id, fun hopen => ?_⟩
  obtain ⟨hopen', hpassage⟩ := Processor.step_passage hopen hstep rfl
  cases hpassage with
  | gathered _ hunderway hhandler =>
    exact ⟨hopen', hunderway.trans (List.append_nil _), fun h => hhandler ▸ h⟩
  | still hmoves => cases hmoves

theorem worked {event : Event ρ} {work : Processor.Event (Delivery ρ)} (h : Works d event work)
    (hwork : d.work work = some d') : Keeps d d' := by
  cases h with
  | readerLeaves => exact readerLeaves hwork
  | handlerFinishes => exact handlerFinishes hwork
  | _ => exact .work rfl hwork

end Keeps

namespace Orderly

variable {h : List (Happening ρ)} {handed : List (Delivery ρ)} {d d' : Deliverer ρ}

theorem ofSettings (settings : DelivererSettings) :
    Orderly [] [] (Deliverer.ofSettings settings : Deliverer ρ) where
  supplies := FairQueue.Supplies.ofSettings settings.queue
  submitters := nofun
  registered _ := .inl rfl
  unclosed := rfl
  flowing := nofun
  idle _ := rfl
  errands := nofun
  course _ := ⟨[], rfl, fun _ => rfl⟩

/-! ### What the invariant tells -/

/-- A registered sink is that of the registration that the queue knows. -/
theorem registrationOf (o : Orderly h handed d) {t : TargetId} {r : Nat}
    (ht : d.sinks.get? t = some r) : d.queue.registrationOf t = some r := by
  rcases o.registered t with hsame | ⟨-, hnone⟩
  · exact hsame.symm.trans ht
  · exact nomatch hnone.symm.trans ht

/-- What is handed out under a number was queued for the one target with that number. -/
theorem target_of_sink (o : Orderly h handed d) {t u : TargetId} {r : Nat}
    (ht : d.sinks.get? t = some r) (hu : (u, r) ∈ registrations h) : t = u :=
  o.supplies.target_unique (o.supplies.mem_numbers (o.registrationOf ht)) hu

/-- Until the deliverer is stopped, the sinks are those of the registrations. -/
theorem sinks_eq (o : Orderly h handed d) (hstopped : d.stopped = false) (t : TargetId) :
    d.sinks.get? t = d.queue.registrationOf t := by
  rcases o.registered t with hsame | ⟨htrue, -⟩
  · exact hsame
  · cases hstopped.symm.trans htrue

theorem visitor_of_delivers (o : Orderly h handed d) {v : Visit ρ} (hv : v ∈ d.visits)
    (hdelivers : v.delivers = true) : v.visitor = .handler := by
  obtain ⟨delivery, herrand⟩ := Visit.delivers_eq_true.mp hdelivers
  exact (o.errands v hv delivery herrand).1

/-- A call that removes a target visits a sink to dismiss it. -/
theorem dismisses (o : Orderly h handed d) {call : CallId} {v : Visit ρ}
    (hv : d.visitOf? (.remover call) = some v) : v.delivers = false := by
  rw [← Bool.not_eq_true]
  intro hdelivers
  have hhandler := o.visitor_of_delivers (List.mem_of_find?_eq_some hv) hdelivers
  cases (visitor_of_visitOf? hv).symm.trans hhandler

theorem awaited_eq_nil (hnone : d.visitOf? .handler = none) (r : Nat) : d.awaited r = [] := by
  rw [awaited, hnone]

/-- A resource is not awaited any more once the sink has been called with it. -/
theorem awaited_of_inside {v : Visit ρ} (hv : d.visitOf? .handler = some v) (hinside : v.inside = true)
    (r : Nat) : d.awaited r = [] := by
  rw [awaited, hv]
  exact if_pos hinside

/-- The handler visits nobody while it waits for a message. -/
theorem busy (o : Orderly h handed d) {v : Visit ρ} (hv : d.visitOf? .handler = some v) :
    d.processor.handler ≠ .receiving :=
  fun hreceiving => nomatch (o.idle hreceiving).symm.trans hv

/-! ### Changes that the order does not depend on -/

theorem keeps (o : Orderly h handed d) (k : Keeps d d') : Orderly h handed d' := by
  obtain ⟨hopen, hunderway, hhandler⟩ := k.processor o.unclosed
  have hvisit : ∀ visitor, d'.visitOf? visitor = d.visitOf? visitor := fun visitor => by
    rw [visitOf?, visitOf?, k.visits]
  have hawaited : d'.awaited = d.awaited := by
    funext sink
    rw [awaited, awaited, hvisit]
  exact {
    supplies := k.queue ▸ o.supplies
    submitters := o.submitters
    registered := fun t => by
      rw [k.sinks, k.queue]
      exact (o.registered t).imp_right fun hnone => ⟨k.stopped hnone.1, hnone.2⟩
    unclosed := hopen
    flowing := hunderway ▸ o.flowing
    idle := fun hreceiving => (hvisit _).trans (o.idle (hhandler hreceiving))
    errands := k.visits ▸ o.errands
    course := by
      rw [hawaited, hunderway, k.sinks]
      exact o.course }

/-- The queue is rearranged, without a change to its past and its numbers. -/
theorem requeue (o : Orderly h handed d) {queue : FairQueue ρ}
    (hsupplies : queue.Supplies (registrations h) (fun r => submittedUnder r h) handed)
    (hnumbers : queue.registrationOf = d.queue.registrationOf) :
    Orderly h handed { d with queue } :=
  { o with
    supplies := hsupplies
    registered := fun t => by
      show d.sinks.get? t = queue.registrationOf t ∨ _
      rw [hnumbers]
      exact o.registered t }

/-- The visits change, but not what the handler is about to call a sink with. -/
theorem revisit (o : Orderly h handed d) {visits : List (Visit ρ)}
    (hidle : d.processor.handler = .receiving → ({ d with visits } : Deliverer ρ).visitOf? .handler = none)
    (herrands : ∀ v ∈ visits, ∀ delivery, v.errand = .deliver delivery →
      v.visitor = .handler ∧ v.sink = delivery.registration)
    (hawaited : ∀ r, ({ d with visits } : Deliverer ρ).awaited r = d.awaited r) :
    Orderly h handed { d with visits } :=
  { o with
    idle := hidle
    errands := herrands
    course := fun r => hawaited r ▸ o.course r }

/-- An event that is no registration and no accepted submission, with what sinks are called with. -/
theorem passOn (o : Orderly h handed d) {s : Happening ρ} (hregistered : s.registered = [])
    (hsubmitted : s.submitted = []) {visits : List (Visit ρ)}
    (hidle : d.processor.handler = .receiving → ({ d with visits } : Deliverer ρ).visitOf? .handler = none)
    (herrands : ∀ v ∈ visits, ∀ delivery, v.errand = .deliver delivery →
      v.visitor = .handler ∧ v.sink = delivery.registration)
    (hawaited : ∀ r, d.awaited r = s.delivered r ++ ({ d with visits } : Deliverer ρ).awaited r) :
    Orderly (h ++ [s]) handed { d with visits } :=
  { o with
    supplies := by
      simp only [registrations_snoc_nil h hregistered, submittedUnder_snoc_nil h _ hsubmitted]
      exact o.supplies
    submitters := by
      rw [registrations_snoc_nil h hregistered, submissions_snoc_nil h hsubmitted]
      exact o.submitters
    flowing := by
      rw [registrations_snoc_nil h hregistered]
      exact o.flowing
    idle := hidle
    errands := herrands
    course := fun r => by
      obtain ⟨lost, heq, hlost⟩ := o.course r
      refine ⟨lost, ?_, hlost⟩
      rw [heq, hawaited, deliveredTo_snoc, ← List.append_assoc (deliveredTo r h)] }

/-- An event that is no registration, no accepted submission and no call of a sink. -/
theorem silent (o : Orderly h handed d) {s : Happening ρ} (hregistered : s.registered = [])
    (hsubmitted : s.submitted = []) (hdelivered : ∀ r, s.delivered r = []) :
    Orderly (h ++ [s]) handed d :=
  o.passOn hregistered hsubmitted o.idle o.errands fun r => by rw [hdelivered, List.nil_append]

/-! ### Visits -/

theorem remover_ne (call : CallId) : Visitor.remover call ≠ .handler := nofun

/-- Someone sets out to dismiss a sink. -/
theorem visitToDismiss (o : Orderly h handed d) {visitor : Visitor} {sink : Nat} {backlog : List ρ}
    (hvisitor : visitor = .handler →
      d.visitOf? .handler = none ∧ d.processor.handler ≠ .receiving) :
    Orderly h handed (d.visit visitor sink (.dismiss backlog)) := by
  refine o.revisit (fun hreceiving => ?_) (fun v hv delivery herrand => ?_) (fun r => ?_)
  · cases visitor with
    | handler => exact absurd hreceiving (hvisitor rfl).2
    | remover call => exact (visitOf?_visit_of_ne (remover_ne call) _ _).trans (o.idle hreceiving)
  · rcases List.mem_append.mp hv with hv | hv
    · exact o.errands v hv delivery herrand
    · rw [List.mem_singleton.mp hv] at herrand
      cases herrand
  · show (d.visit visitor sink (.dismiss backlog)).awaited r = d.awaited r
    cases visitor with
    | handler =>
      obtain ⟨hnone, -⟩ := hvisitor rfl
      rw [awaited_eq_nil hnone, awaited, visitOf?_visit hnone]
      rfl
    | remover call => rw [awaited, awaited, visitOf?_visit_of_ne (remover_ne call)]

/-- A visit ends that does not bring a resource any more. -/
theorem endVisit (o : Orderly h handed d) {visitor : Visitor}
    (hawaited : visitor = .handler → ∀ r, d.awaited r = []) :
    Orderly h handed (d.endVisit visitor) := by
  refine o.revisit (fun hreceiving => ?_) (fun v hv => ?_) (fun r => ?_)
  · cases visitor with
    | handler => exact d.visitOf?_endVisit .handler
    | remover call => exact (visitOf?_endVisit_of_ne (remover_ne call)).trans (o.idle hreceiving)
  · exact o.errands v (List.mem_of_mem_filter hv)
  · show (d.endVisit visitor).awaited r = d.awaited r
    cases visitor with
    | handler => rw [hawaited rfl, awaited_eq_nil (d.visitOf?_endVisit .handler)]
    | remover call => rw [awaited, awaited, visitOf?_endVisit_of_ne (remover_ne call)]

/-- A visitor calls its sink with what it brings. -/
theorem enter (o : Orderly h handed d) {visitor : Visitor} {v : Visit ρ} {reply : Reply ρ}
    {after : Deliverer ρ} (hv : d.visitOf? visitor = some v) (hinside : v.inside = false) :
    Orderly (h ++ [⟨d, .enter visitor, reply, after⟩]) handed (d.letIn visitor) := by
  have hvisitor := visitor_of_visitOf? hv
  refine o.passOn rfl rfl (fun hreceiving => ?_) (fun w hw delivery herrand => ?_) (fun r => ?_)
  · refine (d.visitOf?_letIn visitor .handler).trans ?_
    rw [o.idle hreceiving, Option.map_none]
  · obtain ⟨w₀, hw₀, rfl⟩ := List.mem_map.mp hw
    split at herrand
    · next hsame =>
      rw [if_pos hsame]
      exact o.errands w₀ hw₀ delivery herrand
    · next hother =>
      rw [if_neg hother]
      exact o.errands w₀ hw₀ delivery herrand
  · have hdelivered : (⟨d, .enter visitor, reply, after⟩ : Happening ρ).delivered r = v.brings r := by
      show (d.visitOf? visitor).toList.flatMap (·.brings r) = _
      rw [hv, Option.toList_some, List.flatMap_singleton]
    show d.awaited r = _ ++ (d.letIn visitor).awaited r
    rw [hdelivered]
    cases visitor with
    | handler =>
      rw [awaited, awaited, visitOf?_letIn, hv, Option.map_some, if_pos hvisitor]
      simp only [hinside, Bool.false_eq_true, if_false, if_true, List.append_nil]
    | remover call =>
      -- A remover brings nothing.
      have hbrings : v.brings r = [] := Visit.brings_of_dismissal (o.dismisses hv) r
      rw [hbrings, List.nil_append, awaited, awaited, visitOf?_letIn_of_ne (remover_ne call)]

/-! ### The register -/

theorem enroll (o : Orderly h handed d) {t : TargetId} {priority : Number.Single} {r : Nat}
    {queue : FairQueue ρ} {s : Happening ρ} (hadd : d.queue.addTarget t priority = .ok (r, queue))
    (hregistered : s.registered = [(t, r)]) (hsubmitted : s.submitted = [])
    (hdelivered : ∀ sink, s.delivered sink = []) :
    Orderly (h ++ [s]) handed { d with queue, sinks := d.sinks.set t r } := by
  obtain ⟨hsupplies, hfresh⟩ := o.supplies.addTarget hadd
  have hnumbers : ∀ u, queue.registrationOf u = if u = t then some r else d.queue.registrationOf u :=
    congrFun (o.supplies.sound.registrationOf (FairQueue.step_addTarget Fair.cost hadd))
  have hregistrations : registrations (h ++ [s]) = registrations h ++ [(t, r)] := by
    rw [registrations_snoc, hregistered]
  exact { o with
    supplies := by
      simp only [hregistrations, submittedUnder_snoc_nil h _ hsubmitted]
      exact hsupplies
    submitters := by
      rw [hregistrations, submissions_snoc_nil h hsubmitted]
      exact fun s hs sink hsink => List.mem_append_left _ (o.submitters s hs sink hsink)
    registered := fun u => by
      show (d.sinks.set t r).get? u = queue.registrationOf u ∨
        d.stopped = true ∧ (d.sinks.set t r).get? u = none
      rw [hnumbers, Roster.get?_set]
      by_cases htu : t = u
      · rw [if_pos htu, if_pos htu.symm]
        exact .inl rfl
      · rw [if_neg htu, if_neg (Ne.symm htu)]
        exact o.registered u
    flowing := by
      rw [hregistrations]
      exact fun delivery hdelivery => List.mem_append_left _ (o.flowing delivery hdelivery)
    course := fun sink => by
      obtain ⟨lost, heq, hlost⟩ := o.course sink
      rw [deliveredTo_snoc_nil h _ (hdelivered sink)]
      refine ⟨lost, heq, ?_⟩
      rintro ⟨u, hu⟩
      rw [Roster.get?_set] at hu
      split at hu
      · -- Nothing was handed out under the new number.
        cases hu
        have hnone : resourcesUnder r handed = [] := by
          refine resourcesUnder_eq_nil fun delivery hdelivery hr => hfresh delivery.target ?_
          rw [← hr]
          exact o.supplies.mem_of_handed hdelivery
        rw [hnone] at heq
        exact (List.append_eq_nil_iff.mp (List.append_eq_nil_iff.mp heq.symm).1).2
      · exact hlost ⟨u, hu⟩ }

theorem submit [Resource ρ] (o : Orderly h handed d) {t : TargetId} {resource : ρ}
    {queue : FairQueue ρ} {s : Happening ρ} (hstopped : d.stopped = false)
    (hpush : d.queue.push t resource = .ok queue) (hregistered : s.registered = [])
    (hsubmitted : s.submitted = [⟨t, d.sinks.get? t, resource⟩])
    (hdelivered : ∀ sink, s.delivered sink = []) : Orderly (h ++ [s]) handed { d with queue } := by
  have hsink : d.sinks.get? t = d.queue.registrationOf t := o.sinks_eq hstopped t
  have hnumbers : queue.registrationOf = d.queue.registrationOf :=
    o.supplies.sound.registrationOf (FairQueue.step_push Fair.cost hpush)
  have hunder : ∀ sink, submittedUnder sink (h ++ [s]) = submittedUnder sink h ++
      if d.queue.registrationOf t = some sink then [resource] else [] := by
    intro sink
    rw [submittedUnder_snoc_submission h s sink hsubmitted, hsink]
  exact { o with
    supplies := by
      simp only [registrations_snoc_nil h hregistered, hunder]
      exact o.supplies.pushSized hpush
    submitters := by
      rw [registrations_snoc_nil h hregistered, submissions_snoc, hsubmitted]
      intro s hs sink hr
      rcases List.mem_append.mp hs with hs | hs
      · exact o.submitters s hs sink hr
      · obtain rfl := List.mem_singleton.mp hs
        exact o.supplies.mem_numbers (hsink.symm.trans hr)
    registered := fun u => by
      show d.sinks.get? u = queue.registrationOf u ∨ _
      rw [hnumbers]
      exact o.registered u
    flowing := by
      rw [registrations_snoc_nil h hregistered]
      exact o.flowing
    course := fun sink => by
      rw [deliveredTo_snoc_nil h _ (hdelivered sink)]
      exact o.course sink }

theorem unregister (o : Orderly h handed d) {t : TargetId} {backlog : List ρ} {queue : FairQueue ρ}
    (hremove : d.queue.removeTarget t = .ok (backlog, queue)) :
    Orderly h handed { d with queue, sinks := d.sinks.erase t } := by
  have hnumbers : ∀ u, queue.registrationOf u = if u = t then none else d.queue.registrationOf u :=
    congrFun (o.supplies.sound.registrationOf (FairQueue.step_removeTarget Fair.cost hremove))
  exact { o with
    supplies := o.supplies.removeTarget hremove
    registered := fun u => by
      show (d.sinks.erase t).get? u = queue.registrationOf u ∨
        d.stopped = true ∧ (d.sinks.erase t).get? u = none
      rw [hnumbers, Roster.get?_erase]
      by_cases htu : t = u
      · rw [if_pos htu, if_pos htu.symm]
        exact .inl rfl
      · rw [if_neg htu, if_neg (Ne.symm htu)]
        exact o.registered u
    course := fun r => by
      obtain ⟨lost, heq, hlost⟩ := o.course r
      refine ⟨lost, heq, ?_⟩
      rintro ⟨u, hu⟩
      rw [Roster.get?_erase] at hu
      split at hu
      · cases hu
      · exact hlost ⟨u, hu⟩ }

/-! ### The way of a resource -/

/-- The reader takes a resource out of the queue. -/
theorem take (o : Orderly h handed d) {delivery : Delivery ρ} {queue : FairQueue ρ}
    (hreading : d.processor.reader = .reading) (hpop : d.queue.pop = (some delivery, queue)) :
    Orderly h (handed ++ [delivery])
      (({ d with queue } : Deliverer ρ).proceed (.readReturns (some delivery))) := by
  have hsupplies : queue.Supplies _ _ (handed ++ [delivery]) := o.supplies.pop hpop
  have hnumbers : queue.registrationOf = d.queue.registrationOf :=
    o.supplies.sound.registrationOf (FairQueue.step_pop hpop)
  rcases ({ d with queue } : Deliverer ρ).proceed_eq (.readReturns (some delivery)) with
    ⟨reply, processor, hstep, hproceed⟩ | ⟨hnone, -⟩
  · rw [hproceed]
    obtain ⟨hopen, hpassage⟩ := Processor.step_passage o.unclosed hstep rfl
    cases hpassage with
    | still hmoves => cases hmoves
    | read _ hunderway hhandler =>
      exact { o with
        supplies := hsupplies
        registered := fun t => by
          show d.sinks.get? t = queue.registrationOf t ∨ _
          rw [hnumbers]
          exact o.registered t
        unclosed := hopen
        flowing := by
          show ∀ e ∈ processor.underway, _
          rw [hunderway]
          intro e he
          rcases List.mem_append.mp he with he | he
          · exact o.flowing e he
          · exact hsupplies.mem_of_handed (List.mem_append_right _ he)
        idle := fun hreceiving => o.idle (hhandler.symm.trans hreceiving)
        course := fun r => by
          obtain ⟨lost, heq, hlost⟩ := o.course r
          refine ⟨lost, ?_, hlost⟩
          show _ = _ ++ resourcesUnder r processor.underway
          rw [hunderway, resourcesUnder_append, resourcesUnder_append, heq, List.append_assoc]
          rfl }
  · cases (Processor.step_readReturns hreading delivery).symm.trans hnone

/-- What the handler receives was the first of what is under way. -/
theorem received (o : Orderly h handed d) {delivery : Delivery ρ} (hwork : d.work .receive = some d')
    (hhandler : d'.processor.handler = .handling delivery) :
    ∃ processor, d' = { d with processor } ∧ processor.channel.closed = false ∧
      processor.handler = .handling delivery ∧ d.processor.handler = .receiving ∧
      d.processor.underway = delivery :: processor.underway := by
  obtain ⟨reply, processor, hstep, rfl⟩ := work_eq_some.mp hwork
  obtain ⟨hopen, hpassage⟩ := Processor.step_passage o.unclosed hstep rfl
  refine ⟨processor, rfl, hopen, hhandler, ?_⟩
  cases hpassage with
  | still hmoves => cases hmoves
  | exhausted _ hfinishing => cases hfinishing.symm.trans hhandler
  | received hreceiving hhandling hunderway =>
    cases hhandling.symm.trans hhandler
    exact ⟨hreceiving, hunderway⟩

/-- The handler receives a resource and sets out to its sink. -/
theorem setOut (o : Orderly h handed d) {delivery : Delivery ρ} (hwork : d.work .receive = some d')
    (hhandler : d'.processor.handler = .handling delivery)
    (hsink : d.sinks.get? delivery.target = some delivery.registration) :
    Orderly h handed (d'.visit .handler delivery.registration (.deliver delivery)) := by
  obtain ⟨processor, rfl, hopen, hhandling, hreceiving, hunderway⟩ := o.received hwork hhandler
  have hnone := o.idle hreceiving
  exact { o with
    unclosed := hopen
    flowing := fun e he => o.flowing e (hunderway ▸ List.mem_cons_of_mem _ he)
    idle := fun hidle => nomatch hhandling.symm.trans hidle
    errands := fun v hv e he => by
      rcases List.mem_append.mp hv with hv | hv
      · exact o.errands v hv e he
      · rw [List.mem_singleton.mp hv] at he ⊢
        cases he
        exact ⟨rfl, rfl⟩
    course := fun r => by
      obtain ⟨lost, heq, hlost⟩ := o.course r
      rw [awaited_eq_nil hnone, hunderway, resourcesUnder_cons, List.append_nil] at heq
      have hawaited : (({ d with processor } : Deliverer ρ).visit .handler delivery.registration
          (.deliver delivery)).awaited r =
          if delivery.registration = r then [delivery.resource] else [] := by
        have hnone' : ({ d with processor } : Deliverer ρ).visitOf? .handler = none := hnone
        rw [awaited, visitOf?_visit hnone']
        rfl
      rw [hawaited]
      show ∃ lost, _ = deliveredTo r h ++ _ ++ lost ++ resourcesUnder r processor.underway ∧ _
      by_cases hr : delivery.registration = r
      · -- The sink is registered, so nothing was dropped before.
        have hnil : lost = [] := hlost ⟨delivery.target, hr ▸ hsink⟩
        rw [if_pos hr, hnil, List.append_nil] at heq
        refine ⟨[], ?_, fun _ => rfl⟩
        rw [heq, if_pos hr, List.append_nil, List.append_assoc]
      · rw [if_neg hr, List.nil_append] at heq
        refine ⟨lost, ?_, hlost⟩
        rw [heq, if_neg hr, List.append_nil] }

/-- The handler receives a resource whose sink is not registered any more. -/
theorem late (o : Orderly h handed d) {delivery : Delivery ρ} (hwork : d.work .receive = some d')
    (hhandler : d'.processor.handler = .handling delivery)
    (hsink : d.sinks.get? delivery.target ≠ some delivery.registration) : Orderly h handed d' := by
  obtain ⟨processor, rfl, hopen, hhandling, hreceiving, hunderway⟩ := o.received hwork hhandler
  exact { o with
    unclosed := hopen
    flowing := fun e he => o.flowing e (hunderway ▸ List.mem_cons_of_mem _ he)
    idle := fun hidle => nomatch hhandling.symm.trans hidle
    course := fun r => by
      obtain ⟨lost, heq, hlost⟩ := o.course r
      rw [hunderway, resourcesUnder_cons, ← List.append_assoc] at heq
      refine ⟨lost ++ if delivery.registration = r then [delivery.resource] else [], ?_, ?_⟩
      · rw [heq, List.append_assoc _ lost]
        rfl
      · rintro ⟨t, ht⟩
        have hr : delivery.registration ≠ r := by
          rintro rfl
          refine hsink ?_
          rw [← o.target_of_sink ht (o.flowing delivery (hunderway ▸ List.mem_cons_self))]
          exact ht
        rw [hlost ⟨t, ht⟩, if_neg hr, List.append_nil] }

/-- The handler comes to its end, and all sinks are about to be dismissed. -/
theorem close (o : Orderly h handed d) (hwork : d.work .receive = some d')
    (hhandler : d'.processor.handler = .finishing) :
    Orderly h handed { d' with stopped := true, leaving := d.sinks.values, sinks := .empty } := by
  obtain ⟨reply, processor, hstep, rfl⟩ := work_eq_some.mp hwork
  obtain ⟨hopen, hpassage⟩ := Processor.step_passage o.unclosed hstep rfl
  cases hpassage with
  | still hmoves => cases hmoves
  | received _ hhandling => cases hhandling.symm.trans hhandler
  | exhausted _ hfinishing hbefore hafter =>
    exact { o with
      registered := fun t => .inr ⟨rfl, Roster.get?_empty t⟩
      unclosed := hopen
      flowing := fun e he => o.flowing e (by rw [hbefore, ← hafter]; exact he)
      idle := fun hidle => nomatch hfinishing.symm.trans hidle
      course := fun r => by
        obtain ⟨lost, heq, hlost⟩ := o.course r
        rw [hbefore, ← hafter] at heq
        refine ⟨lost, heq, ?_⟩
        rintro ⟨t, ht⟩
        cases (Roster.get?_empty t).symm.trans ht }

/-- The handler is done with a resource. -/
theorem handled (o : Orderly h handed d) (hnone : d.visitOf? .handler = none) :
    Orderly h handed d.handled := by
  rcases d.proceed_eq (.handleReturns .continue) with ⟨reply, processor, hstep, hproceed⟩ | ⟨-, hproceed⟩
  · rw [Deliverer.handled, hproceed]
    obtain ⟨hopen, hpassage⟩ := Processor.step_passage o.unclosed hstep rfl
    cases hpassage with
    | still hmoves => cases hmoves
    | handled _ _ hunderway =>
      exact { o with
        unclosed := hopen
        flowing := hunderway ▸ o.flowing
        idle := fun _ => hnone
        course := fun r => by
          show ∃ lost, _ = _ ++ resourcesUnder r processor.underway ∧ _
          rw [hunderway]
          exact o.course r }
  · rw [Deliverer.handled, hproceed]
    exact o

/-! ### Every effect -/

/-- The handler's visit to a sink that it has called is over, and the counters change. -/
theorem leave (o : Orderly h handed d) {v : Visit ρ} (hv : d.visitOf? .handler = some v)
    (hinside : v.inside = true) : Orderly h handed (d.endVisit .handler) :=
  o.endVisit fun _ => awaited_of_inside hv hinside

/-- The queue is looked at. -/
theorem peek (o : Orderly h handed d) {head : Option (TargetId × Nat)} {queue : FairQueue ρ}
    (hpeek : d.queue.peek = (head, queue)) : Orderly h handed { d with queue } := by
  obtain rfl : d.queue.peek.2 = queue := congrArg Prod.snd hpeek
  exact o.requeue o.supplies.peek
    (o.supplies.sound.registrationOf (FairQueue.step_peek Fair.cost d.queue))

theorem ask (o : Orderly h handed d) (hreading : d.isReading = true) (a : Asked d d') :
    ∃ handed', Orderly h handed' d' := by
  cases a with
  | stopped => exact ⟨handed, o.keeps (.proceed rfl)⟩
  | idle _ hpeek => exact ⟨handed, (o.peek hpeek).keeps (.park _ _)⟩
  | @throttled t size wait queue limiter _ hpeek =>
    have o₁ : Orderly h handed { d with queue, limiter } :=
      (o.peek hpeek).keeps (.of_same rfl rfl rfl id rfl)
    exact ⟨handed, o₁.keeps (.park _ _)⟩
  | @missed t size queue queue' limiter _ hpeek _ hpop =>
    have o₁ := o.peek hpeek
    have hsupplies : queue'.Supplies _ _ (handed ++ []) := o₁.supplies.pop hpop
    have o₂ : Orderly h handed { d with queue := queue' } := o₁.requeue
      (List.append_nil handed ▸ hsupplies)
      (o₁.supplies.sound.registrationOf (FairQueue.step_pop hpop))
    have o₃ : Orderly h handed { d with queue := queue', limiter } :=
      o₂.keeps (.of_same rfl rfl rfl id rfl)
    exact ⟨handed, o₃.keeps (.park _ _)⟩
  | @taken t size queue queue' limiter delivery _ hpeek _ hpop =>
    have o₁ : Orderly h handed { d with queue, limiter := limiter.record delivery.size d.clock } :=
      (o.peek hpeek).keeps (.of_same rfl rfl rfl id rfl)
    exact ⟨handed ++ [delivery], o₁.take (isReading_iff.mp hreading) hpop⟩

variable [Resource ρ] {event : Event ρ} {reply : Reply ρ}

theorem effect (o : Orderly h handed d) (e : Effect d event reply d') :
    ∃ handed', Orderly (h ++ [⟨d, event, reply, d'⟩]) handed' d' := by
  -- The event leaves no trace in what was registered, accepted and delivered.
  have quiet : ∀ {handed'}, Orderly h handed' d' →
      (⟨d, event, reply, d'⟩ : Happening ρ).registered = [] →
      (⟨d, event, reply, d'⟩ : Happening ρ).submitted = [] →
      (∀ r, (⟨d, event, reply, d'⟩ : Happening ρ).delivered r = []) →
      ∃ handed', Orderly (h ++ [⟨d, event, reply, d'⟩]) handed' d' :=
    fun o' hregistered hsubmitted hdelivered => ⟨_, o'.silent hregistered hsubmitted hdelivered⟩
  cases e with
  | refused hhandle hrequest =>
    cases event with
    | addTarget => exact quiet o rfl rfl fun _ => rfl
    | setPriority => exact quiet o rfl rfl fun _ => rfl
    | submit => exact quiet o rfl rfl fun _ => rfl
    | setLimit => exact quiet o rfl rfl fun _ => rfl
    | _ => cases hrequest
  | @enrolled t priority r queue _ _ hadd =>
    refine ⟨handed, o.enroll hadd ?_ rfl fun _ => rfl⟩
    show (((d.sinks.set t r).get? t).map (t, ·)).toList = _
    rw [Roster.get?_set, if_pos rfl]
    rfl
  | reprioritised _ hset =>
    exact quiet (o.requeue (o.supplies.setPriority hset)
      (o.supplies.sound.registrationOf (FairQueue.step_setPriority Fair.cost hset))) rfl rfl fun _ => rfl
  | submitted _ hstopped hpush =>
    exact ⟨handed, (o.submit hstopped hpush rfl rfl fun _ => rfl).keeps (.wake _)⟩
  | @limited limit limiter =>
    have o₁ : Orderly h handed { d with limiter } := o.keeps (.of_same rfl rfl rfl id rfl)
    exact quiet (o₁.keeps (.wake _)) rfl rfl fun _ => rfl
  | measured => exact quiet (o.keeps (.of_same rfl rfl rfl id rfl)) rfl rfl fun _ => rfl
  | unfound => exact quiet o rfl rfl fun _ => rfl
  | removed _ _ hremove => exact quiet (o.unregister hremove) rfl rfl fun _ => rfl
  | @removing call t r sink backlog queue _ _ hremove =>
    have o₁ : Orderly h handed
        (({ d with queue, sinks := d.sinks.erase t } : Deliverer ρ).proceed .copyHandle) :=
      (o.unregister hremove).keeps (.proceed rfl)
    exact quiet (o₁.visitToDismiss fun hvisitor => nomatch hvisitor) rfl rfl fun _ => rfl
  | stopping _ hwork =>
    exact quiet (o.keeps ((Keeps.tellStop d).trans (.work rfl hwork))) rfl rfl fun _ => rfl
  | joined hstep => exact quiet (o.keeps (.step rfl hstep)) rfl rfl fun _ => rfl
  | waited hstep => exact quiet (o.keeps (.step rfl hstep)) rfl rfl fun _ => rfl
  | @abandoned call v hv =>
    have o₁ := o.endVisit fun hvisitor => absurd hvisitor (remover_ne call)
    exact quiet (o₁.keeps (.proceed rfl)) rfl rfl fun _ => rfl
  | worked hworks hwork =>
    have o₁ := o.keeps (.worked hworks hwork)
    cases hworks with
    | _ => exact quiet o₁ rfl rfl fun _ => rfl
  | elapsed => exact quiet (o.keeps (.of_same rfl rfl rfl id rfl)) rfl rfl fun _ => rfl
  | looked hwork =>
    have o₁ : Orderly h handed { d with search := .asking } := o.keeps (.of_same rfl rfl rfl id rfl)
    exact quiet (o₁.keeps (.work rfl hwork)) rfl rfl fun _ => rfl
  | asked hreading _ hasked =>
    obtain ⟨handed', o'⟩ := o.ask hreading hasked
    exact quiet o' rfl rfl fun _ => rfl
  | limitPassed => exact quiet (o.keeps (.of_same rfl rfl rfl id rfl)) rfl rfl fun _ => rfl
  | woken => exact quiet (o.keeps (.of_same rfl rfl rfl id rfl)) rfl rfl fun _ => rfl
  | setOut hwork hhandler hsink => exact quiet (o.setOut hwork hhandler hsink) rfl rfl fun _ => rfl
  | @late delivery d₁ hwork hhandler hsink =>
    obtain ⟨processor, rfl, -, -, hreceiving, -⟩ := o.received hwork hhandler
    have o₁ : Orderly h handed { d with processor, dropped := d.dropped + 1 } :=
      (o.late hwork hhandler hsink).keeps (.of_same rfl rfl rfl id rfl)
    exact quiet (o₁.handled (o.idle hreceiving)) rfl rfl fun _ => rfl
  | closing hwork hhandler => exact quiet (o.close hwork hhandler) rfl rfl fun _ => rfl
  | entered hv hinside => exact ⟨handed, o.enter hv hinside⟩
  | accepted hv _ hinside =>
    exact quiet (handled ((o.leave hv hinside).keeps (.of_same rfl rfl rfl id rfl))
      (d.visitOf?_endVisit .handler)) rfl rfl fun _ => rfl
  | gone hv _ hinside =>
    exact quiet (handled ((o.leave hv hinside).keeps (.of_same rfl rfl rfl id rfl))
      (d.visitOf?_endVisit .handler)) rfl rfl fun _ => rfl
  | orphaned hv _ hinside _ hremove =>
    exact quiet (handled (((o.leave hv hinside).unregister hremove).keeps (.of_same rfl rfl rfl id rfl))
      (d.visitOf?_endVisit .handler)) rfl rfl fun _ => rfl
  | @foundClosed v delivery backlog queue sink hv _ hinside _ hremove =>
    have o₁ : Orderly h handed { d.endVisit .handler with
        queue
        sinks := d.sinks.erase delivery.target
        closedTargets := d.closedTargets + 1
        dropped := d.dropped + 1 + backlog.length } :=
      ((o.leave hv hinside).unregister hremove).keeps (.of_same rfl rfl rfl id rfl)
    exact quiet (o₁.visitToDismiss fun _ => ⟨d.visitOf?_endVisit .handler, o.busy hv⟩) rfl rfl
      fun _ => rfl
  | dismissed hv _ hinside => exact quiet (o.leave hv hinside) rfl rfl fun _ => rfl
  | resumed hv _ hinside =>
    exact quiet ((o.leave hv hinside).handled (d.visitOf?_endVisit .handler)) rfl rfl fun _ => rfl
  | @returned call v backlog hv =>
    have o₁ := o.endVisit fun hvisitor => absurd hvisitor (remover_ne call)
    exact quiet (o₁.keeps (.proceed rfl)) rfl rfl fun _ => rfl
  | @dismissing sink hfinishing hnone =>
    have o₁ : Orderly h handed { d with leaving := d.leaving.erase sink } :=
      o.keeps (.of_same rfl rfl rfl id rfl)
    exact quiet (o₁.visitToDismiss fun _ => ⟨hnone, fun hreceiving =>
      nomatch hfinishing.symm.trans hreceiving⟩) rfl rfl fun _ => rfl

/-- Every run leaves a deliverer orderly. -/
theorem after (settings : DelivererSettings) (events : List (Event ρ)) :
    ∃ handed, Orderly (happenings settings events) handed
      ((Deliverer.ofSettings settings).after events) := by
  refine history_induction (P := fun h d => ∃ handed, Orderly h handed d) ⟨[], ofSettings settings⟩ ?_
    events
  rintro h d event reply d' ⟨handed, o⟩ e
  exact o.effect e

end Orderly

/-! ### The order -/

namespace Orderly

variable {h : List (Happening ρ)} {handed : List (Delivery ρ)} {d : Deliverer ρ}

/-- What was accepted while a sink was registered was accepted for the target of the sink. -/
theorem submittedTo_eq (o : Orderly h handed d) {t : TargetId} {r : Nat}
    (hr : (t, r) ∈ registrations h) : submittedTo t r h = submittedUnder r h := by
  rw [submittedTo, submittedUnder]
  refine congrArg (List.map _) (List.filter_congr fun s hs => ?_)
  by_cases hsink : s.sink = some r
  · have htarget := o.supplies.target_unique (o.submitters s hs r hsink) hr
    simp [hsink, htarget]
  · simp [hsink]

/-- A sink was called with a first part of what was accepted for it. -/
theorem delivered_prefix (o : Orderly h handed d) {t : TargetId} {r : Nat}
    (hr : (t, r) ∈ registrations h) : deliveredTo r h <+: submittedTo t r h := by
  rw [o.submittedTo_eq hr]
  refine List.IsPrefix.trans ?_ (o.supplies.handed_prefix r)
  obtain ⟨lost, heq, -⟩ := o.course r
  rw [heq, List.append_assoc, List.append_assoc]
  exact List.prefix_append _ _

end Orderly

/-- Whatever the schedule, the registrations have sinks of their own, and what a sink has been called with is
a first part, in order, of what was accepted for its target while it was registered. So where the accepted
resources can be told apart, a sink is called with none that was accepted for another target or under
another registration. -/
theorem delivered_in_order [Resource ρ] (settings : DelivererSettings) (events : List (Event ρ))
    {t : TargetId} {sink : Nat} (hr : (t, sink) ∈ registrations (happenings settings events)) :
    ((registrations (happenings settings events)).map (·.2)).Nodup ∧
    deliveredTo sink (happenings settings events) <+:
      submittedTo t sink (happenings settings events) ∧
    (((submissions (happenings settings events)).map (·.resource)).Nodup →
      ∀ s ∈ submissions (happenings settings events),
        s.resource ∈ deliveredTo sink (happenings settings events) →
          s.target = t ∧ s.sink = some sink) := by
  obtain ⟨handed, o⟩ := Orderly.after settings events
  have hpart := o.delivered_prefix hr
  refine ⟨o.supplies.nodup_numbers, hpart, fun hdistinct s hs hdelivered => ?_⟩
  obtain ⟨s', hs', heq⟩ := List.mem_map.mp (hpart.subset hdelivered)
  obtain ⟨hmem, hfilter⟩ := List.mem_filter.mp hs'
  -- The two submissions are of one resource, so they are the same.
  obtain rfl := List.inj_on_of_nodup_map hdistinct hmem hs heq
  simpa using hfilter

/-- A schedule in which a target is removed and registered again. Its first sink is called with one resource;
another one is in the channel and a third one with the reader when the target is removed, and a fourth one is
submitted once it is back. -/
def comeback : List (Event (List UInt8)) :=
  [.addTarget ⟨1⟩ ⟨0x3f800000⟩, .submit ⟨1⟩ [10], .submit ⟨1⟩ [11], .submit ⟨1⟩ [12],
    .look, .ask, .receive, .enter .handler, .look, .ask, .look, .ask,
    .remove 7 ⟨1⟩, .deliverReturns .accepted, .enter (.remover 7), .dismissReturns (.remover 7),
    .addTarget ⟨1⟩ ⟨0x3f800000⟩, .submit ⟨1⟩ [13], .receive, .sendResumes, .receive,
    .look, .ask, .receive, .enter .handler, .deliverReturns .accepted]

theorem delivered_in_order_comeback :
    (⟨1⟩, 2) ∈ registrations (happenings .small comeback) ∧
      deliveredTo 1 (happenings .small comeback) = [[10]] ∧
      deliveredTo 2 (happenings .small comeback) = [[13]] ∧
      ((registrations (happenings .small comeback)).map (·.2)).Nodup ∧
      deliveredTo 2 (happenings .small comeback) <+: submittedTo ⟨1⟩ 2 (happenings .small comeback) ∧
      (((submissions (happenings .small comeback)).map (·.resource)).Nodup →
        ∀ s ∈ submissions (happenings .small comeback),
          s.resource ∈ deliveredTo 2 (happenings .small comeback) →
            s.target = ⟨1⟩ ∧ s.sink = some 2) := by
  have hr : (⟨1⟩, 2) ∈ registrations (happenings .small comeback) := by decide +kernel
  exact ⟨hr, by decide +kernel, by decide +kernel, delivered_in_order .small comeback hr⟩

end Deliverer

end Sluice
