import Sluice.Proofs.Delivery.Handover

/-!
# A stopped deliverer comes to rest

`at_rest_after_stop` says what a call that stops a deliverer can rely on, whatever the schedule: however many
such calls there are, whichever of them are given up, and whatever the reader is waiting for when the first one
begins. From then on nothing is taken out of the queue for delivery. And when one of them returns, the deliverer
is at rest (`AtRest`) and stays so: both tasks have ended, everything that was taken out has met its fate, the
sinks that were left have been dismissed, and nothing changes what waits in the queue but a removal, which
answers at once with all that was accepted for the target and not taken out.

A call that waits for the end returns only when both tasks have ended (`Effect.ended_of_stopped`), and a
handler that has ended does nothing more (`Turn.resting`). So it is enough to know what is true of a deliverer
whose handler has ended. The sinks that were left are followed from the end of the channel on
(`Turn.drains`): each of them waits to be dismissed, or is being dismissed, or has been.
-/

namespace Sluice

open Fair (resourcesUnder)
open FairQueue (pendingOf_setPriority pendingOf_removeTarget)
open Processor (Tidy)

namespace Deliverer

variable {ρ : Type} {d d' : Deliverer ρ} {h : List (Happening ρ)} {handed : List (Delivery ρ)}

/-! ### The sinks that are left -/

/-- Whether the handler has still to dismiss a sink, or is about it. -/
def owes (d : Deliverer ρ) (sink : Nat) : Prop :=
  sink ∈ d.leaving ∨ ∃ v, d.visitOf? .handler = some v ∧ v.sink = sink ∧ v.delivers = false

section

variable {sink : Nat}

theorem owes_of_same (hleaving : d'.leaving = d.leaving) (hvisit : d'.visitOf? .handler = d.visitOf? .handler)
    (howed : d.owes sink) : d'.owes sink := by
  rw [owes, hleaving, hvisit]
  exact howed

/-- A handler that brings a resource is not about to dismiss a sink. -/
theorem mem_leaving_of_owes {v : Visit ρ} {delivery : Delivery ρ} (hv : d.visitOf? .handler = some v)
    (herrand : v.errand = .deliver delivery) (howed : d.owes sink) : sink ∈ d.leaving := by
  rcases howed with hmem | ⟨w, hw, -, hdismissal⟩
  · exact hmem
  · cases hv.symm.trans hw
    cases (Visit.delivers_eq_true.mpr ⟨delivery, herrand⟩).symm.trans hdismissal

/-- Nor is one that makes no visit. -/
theorem mem_leaving_of_idle (hnone : d.visitOf? .handler = none) (howed : d.owes sink) : sink ∈ d.leaving := by
  rcases howed with hmem | ⟨w, hw, -⟩
  · exact hmem
  · cases hnone.symm.trans hw

theorem owes_letIn (visitor : Visitor) (howed : d.owes sink) : (d.letIn visitor).owes sink := by
  rcases howed with hmem | ⟨w, hw, hsink, hdismissal⟩
  · exact .inl hmem
  · refine .inr ⟨if w.visitor = visitor then { w with inside := true } else w, ?_, ?_, ?_⟩
    · rw [visitOf?_letIn, hw, Option.map_some]
    · split
      · exact hsink
      · exact hsink
    · split
      · exact hdismissal
      · exact hdismissal

/-- A sink that the handler sets out to dismiss is owed still. -/
theorem owes_dismissing {next : Nat} (hnone : d.visitOf? .handler = none) (howed : d.owes sink) :
    (({ d with leaving := d.leaving.erase next } : Deliverer ρ).visit .handler next (.dismiss [])).owes sink := by
  by_cases hnext : next = sink
  · exact .inr ⟨_, visitOf?_visit hnone next (.dismiss []), hnext, rfl⟩
  · exact .inl ((List.mem_erase_of_ne (Ne.symm hnext)).mpr (mem_leaving_of_idle hnone howed))

end

section

variable [Resource ρ] {event : Event ρ} {reply : Reply ρ} {sink : Nat}

/-- A sink that the handler owes it owes still, or the sink sees the end of its dismissal. -/
theorem Turn.owed (o : Orderly h handed d) (p : Parting d) (e : Turn d event reply d') (howed : d.owes sink) :
    d'.owes sink ∨ .released ∈ (⟨d, event, reply, d'⟩ : Happening ρ).sightings sink := by
  have stays (hleaving : d'.leaving = d.leaving) (hvisit : d'.visitOf? .handler = d.visitOf? .handler) :
      d'.owes sink ∨ .released ∈ (⟨d, event, reply, d'⟩ : Happening ρ).sightings sink :=
    .inl (owes_of_same hleaving hvisit howed)
  -- The handler has brought a resource.
  have brought {v : Visit ρ} {delivery : Delivery ρ} (hleaving : d'.leaving = d.leaving)
      (hv : d.visitOf? .handler = some v) (herrand : v.errand = .deliver delivery) :
      d'.owes sink ∨ .released ∈ (⟨d, event, reply, d'⟩ : Happening ρ).sightings sink :=
    .inl (.inl (hleaving.symm ▸ mem_leaving_of_owes hv herrand howed))
  cases e with
  | aside _ k => exact stays k.leaving (k.visitOf? _)
  | enrolled => exact stays rfl rfl
  | reprioritised => exact stays rfl rfl
  | submitted _ _ k => exact stays k.leaving (k.visitOf? _)
  | removed => exact stays rfl rfl
  | removing _ _ _ k =>
    exact stays k.leaving ((k.visitOf? _).trans (visitOf?_visit_of_ne (Orderly.remover_ne _) _ _))
  | abandoned _ k =>
    exact stays k.leaving ((k.visitOf? _).trans (visitOf?_endVisit_of_ne (Orderly.remover_ne _)))
  | peeked _ _ k => exact stays k.leaving (k.visitOf? _)
  | taken _ _ _ _ _ _ k => exact stays k.leaving (k.visitOf? _)
  | setOut _ hreceiving =>
    have hmem : sink ∈ d.leaving := mem_leaving_of_idle (o.idle hreceiving) howed
    exact .inl (.inl hmem)
  | late _ _ _ _ _ k => exact stays k.leaving (k.visitOf? _)
  | closing _ hreceiving =>
    -- The handler owed nothing while it waited for a resource.
    have hmem := mem_leaving_of_idle (o.idle hreceiving) howed
    rw [p.leaving (by simp [hreceiving])] at hmem
    exact absurd hmem List.not_mem_nil
  | entered => exact .inl (owes_letIn _ howed)
  | accepted hv herrand _ k => exact brought k.leaving hv herrand
  | gone hv herrand _ _ k => exact brought k.leaving hv herrand
  | orphaned hv herrand _ _ _ _ k => exact brought k.leaving hv herrand
  | foundClosed hv herrand _ _ _ _ k => exact brought k.leaving hv herrand
  | dismissed _ _ _ k =>
    rcases howed with hmem | ⟨w, hw, hsink, -⟩
    · refine .inl (.inl ?_)
      rw [k.leaving]
      exact hmem
    · right
      show .released ∈ d.sightingOf .handler sink fun _ => [.released]
      rw [sightingOf_visit hw, if_pos hsink]
      exact List.mem_singleton.mpr rfl
  | returned _ _ _ k =>
    exact stays k.leaving ((k.visitOf? _).trans (visitOf?_endVisit_of_ne (Orderly.remover_ne _)))
  | dismissing _ hnone => exact .inl (owes_dismissing hnone howed)
  | ended => exact stays rfl rfl

/-- A handler that comes to its end owes the sinks that are registered then. -/
theorem Turn.owes_drained (e : Turn d event reply d')
    (hsink : sink ∈ (⟨d, event, reply, d'⟩ : Happening ρ).drained) :
    d'.owes sink := by
  have nothing (hdrained : (⟨d, event, reply, d'⟩ : Happening ρ).drained = []) : d'.owes sink := by
    rw [hdrained] at hsink
    exact absurd hsink List.not_mem_nil
  -- A handler that sets out with a resource has not come to its end.
  have bringing {delivery : Delivery ρ} (hhandling : d'.processor.handler = .handling delivery) :
      d'.isClosing ≠ true := by
    intro hclosing
    cases hhandling.symm.trans (isClosing_iff.mp hclosing)
  cases e with
  | aside hsilent => exact nothing hsilent.drained
  | setOut _ _ hhandling => exact nothing (if_neg (bringing hhandling))
  | late hopen _ hhandling _ _ k =>
    refine nothing (if_neg fun hclosing => ?_)
    cases hhandling.symm.trans ((k.processor hopen).finishing.mp (isClosing_iff.mp hclosing))
  | @closing processor _ _ hfinishing =>
    have hall : (⟨d, .receive, .quiet,
        { d with processor, stopped := true, leaving := d.sinks.values, sinks := .empty }⟩ :
        Happening ρ).drained = d.sinks.values := if_pos (isClosing_iff.mpr hfinishing)
    rw [hall] at hsink
    exact .inl hsink
  | _ => exact nothing rfl

/-- The sinks that are left are not forgotten. -/
theorem Turn.drains (o : Orderly h handed d) (p : Parting d)
    (x : ∀ sink ∈ drained h, d.owes sink ∨ .released ∈ seen sink h) (e : Turn d event reply d') :
    ∀ sink ∈ drained (h ++ [⟨d, event, reply, d'⟩]),
      d'.owes sink ∨ .released ∈ seen sink (h ++ [⟨d, event, reply, d'⟩]) := by
  intro sink hsink
  rw [drained_snoc] at hsink
  rw [seen_snoc]
  rcases List.mem_append.mp hsink with hbefore | hnow
  · rcases x sink hbefore with howed | hreleased
    · exact (e.owed o p howed).imp_right (List.mem_append_right _)
    · exact .inr (List.mem_append_left _ hreleased)
  · exact .inl (e.owes_drained hnow)

/-! ### Stopping -/

/-- A call that stops the deliverer does so at its beginning. -/
theorem Effect.stopped {call : CallId} (e : Effect d (.stop call) reply d') : d'.stopped = true := by
  cases e with
  | refused _ hrequest => cases hrequest
  | stopping _ hwork =>
    obtain ⟨search, permit, htold⟩ := d.tellStop_eq
    obtain ⟨reply, processor, -, rfl⟩ := work_eq_some.mp hwork
    show d.tellStop.stopped = true
    rw [htold]
  | worked hworks => cases hworks

/-- A call that stops the deliverer returns when both tasks have ended. -/
theorem Effect.ended_of_stopped {capacity : Nat} {call : CallId} {stats : DelivererStats}
    (t : Tidy capacity d.processor) (e : Effect d event (.stopped call stats) d') :
    stats = d.stats ∧ d.processor.handler = .ended ∧ d'.processor.handler = .ended := by
  cases e with
  | joined hstep =>
    obtain ⟨-, hended, -, hended'⟩ := t.ended_of_joined hstep
    exact ⟨rfl, hended, hended'⟩

/-- A deliverer stays stopped. -/
theorem Turn.stopped (hstopped : d.stopped = true) (e : Turn d event reply d') : d'.stopped = true := by
  cases e with
  | aside _ k => exact k.stopped hstopped
  | enrolled => exact hstopped
  | reprioritised => exact hstopped
  | submitted _ _ k => exact k.stopped hstopped
  | removed => exact hstopped
  | removing _ _ _ k => exact k.stopped hstopped
  | abandoned _ k => exact k.stopped hstopped
  | peeked _ _ k => exact k.stopped hstopped
  | taken _ _ _ _ _ _ k => exact k.stopped hstopped
  | setOut => exact hstopped
  | late _ _ _ _ _ k => exact k.stopped hstopped
  | closing => rfl
  | entered => exact hstopped
  | accepted _ _ _ k => exact k.stopped hstopped
  | gone _ _ _ _ k => exact k.stopped hstopped
  | orphaned _ _ _ _ _ _ k => exact k.stopped hstopped
  | foundClosed _ _ _ _ _ _ k => exact k.stopped hstopped
  | dismissed _ _ _ k => exact k.stopped hstopped
  | returned _ _ _ k => exact k.stopped hstopped
  | dismissing => exact hstopped
  | ended => exact hstopped

/-- Nothing is taken out of the queue of a stopped deliverer. -/
theorem Turn.taken_eq_nil (hstopped : d.stopped = true) (e : Turn d event reply d') :
    (⟨d, event, reply, d'⟩ : Happening ρ).taken = [] := by
  cases e with
  | aside hsilent => exact hsilent.taken
  | peeked hrunning => cases hrunning.symm.trans hstopped
  | taken hrunning => cases hrunning.symm.trans hstopped
  | _ => rfl

/-! ### At rest -/

/-- What an event does to a deliverer whose handler has ended. -/
structure Resting (s : Happening ρ) : Prop where
  ended : s.after.processor.handler = .ended
  delivered : ∀ sink, s.delivered sink = []
  queue : s.after.queue = s.before.queue ∨
    (∃ t priority, s.before.queue.setPriority t priority = .ok s.after.queue) ∨
    ∃ call t backlog, s.event = .remove call t ∧
      s.before.queue.removeTarget t = .ok (backlog, s.after.queue)

/-- When the handler has ended, no sink is called any more, and the queue changes only if a target gets
another priority or is removed. -/
theorem Turn.resting (o : Orderly h handed d) (p : Parting d) (hended : d.processor.handler = .ended)
    (e : Turn d event reply d') : Resting (⟨d, event, reply, d'⟩ : Happening ρ) := by
  have hopen := o.unclosed
  have hlast : d.processor.handler.isLast := Processor.HandlerPhase.isLast_of_ended hended
  have hstopped : d.stopped = true := p.stopped hlast
  have hnone : d.visitOf? .handler = none := p.alone hended
  cases e with
  | aside hsilent k => exact ⟨(k.processor hopen).ended.mpr hended, hsilent.delivered, .inl k.queue⟩
  | enrolled hrunning => cases hrunning.symm.trans hstopped
  | reprioritised hset => exact ⟨hended, fun _ => rfl, .inr (.inl ⟨_, _, hset⟩)⟩
  | submitted hrunning => cases hrunning.symm.trans hstopped
  | removed _ hremove => exact ⟨hended, fun _ => rfl, .inr (.inr ⟨_, _, _, rfl, hremove⟩)⟩
  | removing _ _ hsink => cases (p.unregistered hlast _).symm.trans hsink
  | abandoned _ k => exact ⟨(k.processor hopen).ended.mpr hended, fun _ => rfl, .inl k.queue⟩
  | peeked hrunning => cases hrunning.symm.trans hstopped
  | taken hrunning => cases hrunning.symm.trans hstopped
  | setOut _ hreceiving => cases hreceiving.symm.trans hended
  | late _ hreceiving => cases hreceiving.symm.trans hended
  | closing _ hreceiving => cases hreceiving.symm.trans hended
  | @entered visitor v hv =>
    refine ⟨hended, fun sink => ?_, .inl rfl⟩
    show (d.visitOf? visitor).toList.flatMap (·.brings sink) = []
    cases visitor with
    | handler =>
      rw [hnone]
      rfl
    | remover call =>
      rw [hv, Option.toList_some, List.flatMap_singleton, Visit.brings_of_dismissal (o.dismisses hv)]
  | accepted hv => cases hnone.symm.trans hv
  | gone hv => cases hnone.symm.trans hv
  | orphaned hv => cases hnone.symm.trans hv
  | foundClosed hv => cases hnone.symm.trans hv
  | dismissed hv => cases hnone.symm.trans hv
  | returned _ _ _ k => exact ⟨(k.processor hopen).ended.mpr hended, fun _ => rfl, .inl k.queue⟩
  | dismissing hfinishing => cases hfinishing.symm.trans hended
  | ended _ _ _ hfinishing => cases hfinishing.symm.trans hended

/-- A deliverer that is at rest, after its history. -/
structure AtRest (h : List (Happening ρ)) (d : Deliverer ρ) : Prop where
  readerEnded : d.processor.readerEnded = true
  handlerEnded : d.processor.handlerEnded = true
  /-- Everything that was taken out has met its fate. -/
  settled : takenOut h = (fates h).map (·.2)
  /-- What is not late was handed to its sink, in order. -/
  handedOver : ∀ sink, deliveredTo sink h = resourcesUnder sink (answered h)
  delivered : d.stats.deliveredResources = (acceptedBySinks h).length
  dropped : d.stats.dropped = (lost h).length + (forfeited h).length
  dismissed : ∀ sink ∈ drained h, .released ∈ seen sink h
  targets : d.stats.targets = 0
  /-- No sink is being called with a resource. -/
  silent : ∀ v ∈ d.visits, v.delivers = false
  refusesTargets : ∀ t priority, d.hasHandle = true →
    d.step (.addTarget t priority) = some (.result (.error .shutdown), d)
  refusesResources : ∀ t resource, d.hasHandle = true →
    d.step (.submit t resource) = some (.result (.error .shutdown), d)
  /-- No event calls a sink with a resource, and only a removal changes what waits. -/
  lasting : ∀ event reply d', d.step event = some (reply, d') →
    (∀ sink, (⟨d, event, reply, d'⟩ : Happening ρ).delivered sink = []) ∧
    ((∀ call t, event ≠ .remove call t) → d'.stats.pending = d.stats.pending) ∧
    ∀ t, (∀ call, event ≠ .remove call t) → d'.pendingOf t = d.pendingOf t
  /-- A removal answers with all that was accepted for the target and not taken out. -/
  returns : ∀ call t r, d.hasHandle = true → d.queue.registrationOf t = some r →
    ∃ backlog d', d.step (.remove call t) = some (.removed call (.ok backlog), d') ∧
      submittedTo t r h = resourcesUnder r (takenOut h) ++ backlog ∧
      d'.stats.pending + backlog.length = d.stats.pending

namespace Resting

variable {s : Happening ρ} {pending delivered : Nat}

/-- Only a removal changes how much waits. -/
theorem pending_eq (x : Resting s) (st : s.before.queue.Stocked pending delivered)
    (hremove : ∀ call t, s.event ≠ .remove call t) : s.after.queue.pending = s.before.queue.pending := by
  rcases x.queue with hsame | ⟨t, priority, hset⟩ | ⟨call, t, backlog, hevent, -⟩
  · rw [hsame]
  · rw [st.pending_eq]
    exact (st.setPriority hset).pending_eq
  · exact absurd hevent (hremove call t)

/-- Only the removal of a target changes how much waits for it. -/
theorem pendingOf_eq (x : Resting s) (st : s.before.queue.Stocked pending delivered) {t : TargetId}
    (hremove : ∀ call, s.event ≠ .remove call t) :
    s.after.queue.pendingOf t = s.before.queue.pendingOf t := by
  rcases x.queue with hsame | ⟨u, priority, hset⟩ | ⟨call, u, backlog, hevent, hremoved⟩
  · rw [hsame]
  · exact pendingOf_setPriority st.sound hset t
  · refine pendingOf_removeTarget hremoved ?_
    rintro rfl
    exact hremove call hevent

end Resting

/-- A removal answers at once when no sink is registered. -/
theorem step_remove_of_unregistered {t : TargetId} {r : Nat} (hhandle : d.hasHandle = true)
    (hr : d.queue.registrationOf t = some r) (hnone : d.sinks.get? t = none) (call : CallId) :
    ∃ queue, d.queue.removeTarget t = .ok (d.queue.backlogOf t, queue) ∧
      d.step (.remove call t) = some (.removed call (.ok (d.queue.backlogOf t)),
        { d with queue, sinks := d.sinks.erase t }) := by
  rcases d.unregister_eq t none with ⟨s, backlog, queue, -, -, hremove, hunregister⟩ | ⟨hgone, -⟩
  · have hbacklog := FairQueue.eq_backlogOf_of_removeTarget hremove
    rw [hbacklog] at hremove hunregister
    refine ⟨queue, hremove, ?_⟩
    show (if d.hasHandle then some (d.remove call t) else none) = _
    rw [if_pos hhandle, remove, hunregister, hnone]
  · rcases hgone with hgone | ⟨s, hs, -⟩
    · cases hgone.symm.trans hr
    · cases hs

/-- A deliverer is at rest when its handler has ended. -/
theorem atRest_of_ended {capacity : Nat} (o : Orderly h handed d) (t : Tidy capacity d.processor)
    (p : Parting d) (b : Books h d) (x : Handed h d)
    (hdrains : ∀ sink ∈ drained h, d.owes sink ∨ .released ∈ seen sink h)
    (hended : d.processor.handler = .ended) : AtRest h d := by
  have hlast : d.processor.handler.isLast := Processor.HandlerPhase.isLast_of_ended hended
  have hstopped : d.stopped = true := p.stopped hlast
  have hnone : d.visitOf? .handler = none := p.alone hended
  exact {
    readerEnded := Processor.readerEnded_iff.mpr (t.drained hlast).1
    handlerEnded := Processor.handlerEnded_iff.mpr hended
    settled := by
      rw [b.transit, inTransit, inHand_of_none hnone, t.underway_eq_nil hlast]
      exact List.append_nil _
    handedOver := by
      intro sink
      have hcalled := x.called sink
      rw [unanswered_of_none hnone, List.append_nil] at hcalled
      exact hcalled
    delivered := b.delivered
    dropped := b.dropped
    dismissed := by
      intro sink hsink
      rcases hdrains sink hsink with (hmem | ⟨v, hv, -⟩) | hreleased
      · rw [p.leaving (by simp [hended])] at hmem
        exact absurd hmem List.not_mem_nil
      · cases hnone.symm.trans hv
      · exact hreleased
    targets := Roster.size_eq_zero (p.unregistered hlast)
    silent := by
      intro v hv
      rw [← Bool.not_eq_true]
      intro hdelivers
      have hhandler := o.visitor_of_delivers hv hdelivers
      rw [visitOf?, List.find?_eq_none] at hnone
      exact hnone v hv (beq_iff_eq.mpr hhandler)
    refusesTargets := by
      intro t priority hhandle
      show (if d.hasHandle then some (d.answer (d.addTarget t priority)) else none) = _
      rw [if_pos hhandle, addTarget, hstopped]
      rfl
    refusesResources := by
      intro t resource hhandle
      show (if d.hasHandle then some (d.answer (d.submit t resource)) else none) = _
      rw [if_pos hhandle, submit, hstopped]
      rfl
    lasting := by
      intro event reply d' hstep
      have rest := ((step_effect hstep).turn o).resting o p hended
      exact ⟨rest.delivered, rest.pending_eq b.stocked, fun t => rest.pendingOf_eq b.stocked⟩
    returns := by
      intro call t r hhandle hr
      obtain ⟨queue, hremove, hstep⟩ :=
        step_remove_of_unregistered hhandle hr (p.unregistered hlast t) call
      obtain ⟨left, hleft, st⟩ := b.stocked.removeTarget hremove
      refine ⟨d.queue.backlogOf t, _, hstep, ?_, ?_⟩
      · rw [o.submittedTo_eq (o.supplies.mem_numbers hr)]
        exact x.backlog hr
      · show queue.pending + _ = d.queue.pending
        rw [st.pending_eq]
        exact hleft }

/-! ### Runs -/

/-- How far a deliverer has come on its way to the end. -/
structure Halting (h : List (Happening ρ)) (d : Deliverer ρ) : Prop where
  parting : Parting d
  drains : ∀ sink ∈ drained h, d.owes sink ∨ .released ∈ seen sink h
  stopped : (∃ s ∈ h, ∃ call, s.event = .stop call) → d.stopped = true
  quiet : h.Pairwise fun s s' => (∃ call, s.event = .stop call) → s'.taken = []
  ended : (∃ s ∈ h, ∃ call stats, s.reply = .stopped call stats) → d.processor.handler = .ended
  counted : ∀ s ∈ h, ∀ call stats, s.reply = .stopped call stats → stats.targets = 0

theorem Halting.effect {capacity : Nat} (x : Halting h d) (o : Orderly h handed d)
    (t : Tidy capacity d.processor) (e : Effect d event reply d') :
    Halting (h ++ [⟨d, event, reply, d'⟩]) d' where
  parting := (e.turn o).parting o x.parting
  drains := (e.turn o).drains o x.parting x.drains
  stopped := by
    rintro ⟨s, hs, call, hevent⟩
    rcases List.mem_append.mp hs with hs | hs
    · exact (e.turn o).stopped (x.stopped ⟨s, hs, call, hevent⟩)
    · rw [List.mem_singleton.mp hs] at hevent
      subst hevent
      exact e.stopped
  quiet := by
    refine List.pairwise_append.mpr ⟨x.quiet, List.pairwise_singleton _ _, ?_⟩
    intro s hs s' hs' hstop
    rw [List.mem_singleton.mp hs']
    exact (e.turn o).taken_eq_nil (x.stopped ⟨s, hs, hstop⟩)
  ended := by
    rintro ⟨s, hs, call, stats, hreply⟩
    rcases List.mem_append.mp hs with hs | hs
    · exact ((e.turn o).resting o x.parting (x.ended ⟨s, hs, call, stats, hreply⟩)).ended
    · rw [List.mem_singleton.mp hs] at hreply
      subst hreply
      exact (e.ended_of_stopped t).2.2
  counted := by
    intro s hs call stats hreply
    rcases List.mem_append.mp hs with hs | hs
    · exact x.counted s hs call stats hreply
    · rw [List.mem_singleton.mp hs] at hreply
      subst hreply
      obtain ⟨rfl, hended, -⟩ := e.ended_of_stopped t
      have hlast := Processor.HandlerPhase.isLast_of_ended hended
      exact Roster.size_eq_zero (x.parting.unregistered hlast)

theorem Halting.after (settings : DelivererSettings) (events : List (Event ρ)) :
    Halting (happenings settings events) ((Deliverer.ofSettings settings).after events) := by
  refine effect_induction ?_ (fun _ _ _ _ _ _ o t x e => x.effect o t e) events
  exact {
    parting := .ofSettings settings
    drains := fun _ hs => absurd hs List.not_mem_nil
    stopped := fun ⟨_, hs, _⟩ => absurd hs List.not_mem_nil
    quiet := List.Pairwise.nil
    ended := fun ⟨_, hs, _⟩ => absurd hs List.not_mem_nil
    counted := fun _ hs => absurd hs List.not_mem_nil }

/-- Whatever the schedule, nothing is taken out of the queue for delivery once a call has begun that stops the
deliverer. And after such a call has returned, with no targets in its counters, the deliverer is at rest. -/
theorem at_rest_after_stop (settings : DelivererSettings) (events : List (Event ρ)) :
    let h := happenings settings events
    let d := (Deliverer.ofSettings settings).after events
    d.queue.delivered = (takenOut h).length ∧
      (∀ before s after, h = before ++ s :: after → (∃ call, s.event = .stop call) →
        takenOut after = []) ∧
      ∀ s ∈ h, ∀ call stats, s.reply = .stopped call stats → stats.targets = 0 ∧ AtRest h d := by
  intro h d
  have x : Halting h d := .after settings events
  have b : Books h d := .after settings events
  refine ⟨b.stocked.delivered_eq, ?_, ?_⟩
  · intro before s after hsplit hstop
    have hquiet := x.quiet
    rw [hsplit] at hquiet
    rw [takenOut, List.flatMap_eq_nil_iff]
    intro s' hs'
    exact (List.pairwise_cons.mp (List.pairwise_append.mp hquiet).2.1).1 s' hs' hstop
  · intro s hs call stats hreply
    obtain ⟨handed, o⟩ := Orderly.after settings events
    refine ⟨x.counted s hs call stats hreply, ?_⟩
    exact atRest_of_ended o (tidy_after settings events) x.parting b (.after settings events) x.drains
      (x.ended ⟨s, hs, call, stats, hreply⟩)

end

/-- A schedule in which two calls stop the deliverer while one resource is in the channel, another one is with
the reader, which waits for room, and two wait in the queue. The first of the calls is given up. -/
def lastOrders : List (Event (List UInt8)) :=
  [.addTarget ⟨1⟩ ⟨0x3f800000⟩, .submit ⟨1⟩ [10], .submit ⟨1⟩ [11], .submit ⟨1⟩ [12],
    .submit ⟨1⟩ [13], .look, .ask, .look, .ask, .stop 7, .stop 8, .cancel 7,
    .receive, .enter .handler, .deliverReturns .accepted, .sendResumes, .look, .ask,
    .readerLeaves, .readerFinishes, .receive, .enter .handler, .deliverReturns .accepted, .receive,
    .dismissNext 1, .enter .handler, .dismissReturns .handler, .handlerFinishes,
    .advanceLine, .advanceLine, .advanceLine]

theorem at_rest_after_stop_lastOrders :
    let h := happenings .small lastOrders
    let d := (Deliverer.ofSettings .small).after lastOrders
    d.stats = ⟨0, 2, 2, 2, 0, 0⟩ ∧ drained h = [1] ∧
      (∃ before s after, h = before ++ s :: after ∧ s.event = .stop 7 ∧ takenOut after = []) ∧
      (∃ s ∈ h, ∃ stats, s.reply = .stopped 8 stats) ∧ AtRest h d ∧
      ∃ backlog d', d.step (.remove 9 ⟨1⟩) = some (.removed 9 (.ok backlog), d') ∧
        submittedTo ⟨1⟩ 1 h = [[10], [11]] ++ backlog := by
  intro h d
  obtain ⟨-, hstopped, hreturned⟩ := at_rest_after_stop .small lastOrders
  have hstop : ∃ s ∈ h, s.event = .stop 7 := by decide +kernel
  have hreply : ∃ s ∈ h, (match s.reply with | .stopped call _ => call == 8 | _ => false) = true := by
    decide +kernel
  have hreply : ∃ s ∈ h, ∃ stats, s.reply = .stopped 8 stats := by
    obtain ⟨s, hs, hmatch⟩ := hreply
    refine ⟨s, hs, ?_⟩
    split at hmatch
    · next call stats hstats =>
      rw [hstats, beq_iff_eq.mp hmatch]
      exact ⟨stats, rfl⟩
    · cases hmatch
  have hrest : AtRest h d := by
    obtain ⟨s, hs, stats, hstats⟩ := hreply
    exact (hreturned s hs 8 stats hstats).2
  refine ⟨by decide +kernel, by decide +kernel, ?_, hreply, hrest, ?_⟩
  · obtain ⟨s, hs, hevent⟩ := hstop
    obtain ⟨before, after, hsplit⟩ := List.append_of_mem hs
    exact ⟨before, s, after, hsplit, hevent, hstopped before s after hsplit ⟨7, hevent⟩⟩
  · have hhandle : d.hasHandle = true := by decide +kernel
    have hr : d.queue.registrationOf ⟨1⟩ = some 1 := by decide +kernel
    have htaken : resourcesUnder 1 (takenOut h) = [[10], [11]] := by decide +kernel
    obtain ⟨backlog, d', hstep, hsubmitted, -⟩ := hrest.returns 9 ⟨1⟩ 1 hhandle hr
    rw [htaken] at hsubmitted
    exact ⟨backlog, d', hstep, hsubmitted⟩

end Deliverer

end Sluice
