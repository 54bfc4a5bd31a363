import Sluice.Proofs.Delivery.Lifecycle
import Sluice.Proofs.Delivery.Shutdown
import Sluice.Proofs.Schedule
import Sluice.Proofs.Worker.Effect

/-!
# What a removal has done when it returns

A call that removes a target and finds a sink dismisses it before it returns. A call that finds none returns at
once, on the ground that the handler has told all sinks at its end. But the handler takes the sinks out of the
register first and tells them one after the other then, so such a call may return before the handler has got
round to the sink. `told_of_removed` says for every schedule that this is the only gap: when a removal returns,
no delivery to the sink is under way, and the sink has been told unless the handler is at its end and still owes
it the dismissal. `untold_lateRemoval` is a schedule with the gap.

The invariant is `Held`: a registration that the queue knows has its sink in the register, or the handler took
that over at its end.
-/

namespace Sluice

open Processor (Tidy)

namespace Deliverer

variable {ρ : Type} {d d' : Deliverer ρ} {h : List (Happening ρ)} {handed : List (Delivery ρ)}

/-! ### Every event of a run -/

section

variable [Resource ρ] {event : Event ρ} {reply : Reply ρ}

/-- What follows for an event from what is kept by every event, follows for every event of a run. -/
theorem every_event {settings : DelivererSettings} {P : List (Happening ρ) → Deliverer ρ → Prop}
    {Q : List (Happening ρ) → Happening ρ → Prop} (start : P [] (ofSettings settings))
    (next : ∀ h handed d event reply d', Orderly h handed d → Tidy settings.capacity d.processor →
      P h d → Effect d event reply d' →
      P (h ++ [⟨d, event, reply, d'⟩]) d' ∧ Q h ⟨d, event, reply, d'⟩)
    (events : List (Event ρ)) {before after : List (Happening ρ)} {s : Happening ρ}
    (hsplit : happenings settings events = before ++ s :: after) : Q before s := by
  have run : P (happenings settings events) ((ofSettings settings).after events) ∧
      ∀ before s after, happenings settings events = before ++ s :: after → Q before s := by
    refine effect_induction (P := fun h d => P h d ∧ ∀ before s after, h = before ++ s :: after → Q before s)
      ⟨start, fun before s after hnil => ?_⟩ ?_ events
    · cases before with
      | nil => cases hnil
      | cons first rest => cases hnil
    · rintro h handed d event reply d' o t ⟨hp, hq⟩ e
      obtain ⟨hp', hlast⟩ := next h handed d event reply d' o t hp e
      refine ⟨hp', fun before s after hsplit => ?_⟩
      rcases Schedule.split_snoc hsplit with ⟨rfl, rfl, -⟩ | ⟨rest, -, hsplit⟩
      · exact hlast
      · exact hq before s rest hsplit
  exact run.2 before s after hsplit

/-! ### Registrations and sinks -/

/-- Where a registration comes from that the queue knows after an event. -/
inductive Origin (h : List (Happening ρ)) (s : Happening ρ) (t : TargetId) (r : Nat) : Prop
  /-- It was there before, and its sink stays where it is. -/
  | kept : s.before.queue.registrationOf t = some r → s.after.sinks.get? t = s.before.sinks.get? t →
      Origin h s t r
  /-- It was there before, and the handler takes its sink over. -/
  | drained : s.before.queue.registrationOf t = some r →
      (∀ sink, s.before.sinks.get? t = some sink → sink ∈ s.drained) → Origin h s t r
  | new : ¬ Known h r → s.after.sinks.get? t = some r → Origin h s t r

omit [Resource ρ] in
/-- A number that the queue has known is not given again. -/
theorem Origin.before {s : Happening ρ} {t : TargetId} {r : Nat} (x : Origin h s t r) (hknown : Known h r) :
    s.before.queue.registrationOf t = some r := by
  cases x with
  | kept hbefore => exact hbefore
  | drained hbefore => exact hbefore
  | new hnew => exact absurd hknown hnew

theorem Turn.origin (o : Orderly h handed d) (e : Turn d event reply d') {t : TargetId} {r : Nat}
    (hr : d'.queue.registrationOf t = some r) : Origin h ⟨d, event, reply, d'⟩ t r := by
  have sound := o.supplies.sound
  -- Neither the registrations nor the sinks change.
  have still : d'.queue.registrationOf = d.queue.registrationOf → d'.sinks = d.sinks →
      Origin h ⟨d, event, reply, d'⟩ t r := by
    intro hnumbers hsinks
    rw [hnumbers] at hr
    refine .kept hr ?_
    show d'.sinks.get? t = _
    rw [hsinks]
  -- A target is taken out, and with it its sink.
  have without : ∀ {u : TargetId} {backlog : List ρ} {queue : FairQueue ρ},
      d.queue.removeTarget u = .ok (backlog, queue) → d'.queue = queue → d'.sinks = d.sinks.erase u →
      Origin h ⟨d, event, reply, d'⟩ t r := by
    intro u backlog queue hremove hqueue hsinks
    have hnumbers : queue.registrationOf t = if t = u then none else d.queue.registrationOf t :=
      congrFun (sound.registrationOf (FairQueue.step_removeTarget Fair.cost hremove)) t
    rw [hqueue, hnumbers] at hr
    split at hr
    · cases hr
    · next hne =>
      refine .kept hr ?_
      show d'.sinks.get? t = _
      rw [hsinks, Roster.get?_erase, if_neg (Ne.symm hne)]
  cases e with
  | aside _ k => exact still (by rw [k.queue]) k.sinks
  | @enrolled u priority new queue _ hadd =>
    have hnumbers : queue.registrationOf t = if t = u then some new else d.queue.registrationOf t :=
      congrFun (sound.registrationOf (FairQueue.step_addTarget Fair.cost hadd)) t
    have hr' : queue.registrationOf t = some r := hr
    rw [hnumbers] at hr'
    by_cases htu : t = u
    · rw [if_pos htu] at hr'
      obtain rfl := Option.some.inj hr'
      refine .new (fun ⟨v, hv⟩ => (o.supplies.addTarget hadd).2 v hv) ?_
      show (d.sinks.set u new).get? t = _
      rw [Roster.get?_set, if_pos htu.symm]
    · rw [if_neg htu] at hr'
      refine .kept hr' ?_
      show (d.sinks.set u new).get? t = _
      rw [Roster.get?_set, if_neg (Ne.symm htu)]
  | reprioritised hset =>
    exact still (sound.registrationOf (FairQueue.step_setPriority Fair.cost hset)) rfl
  | submitted _ hpush k =>
    refine still ?_ k.sinks
    rw [k.queue]
    exact sound.registrationOf (FairQueue.step_push Fair.cost hpush)
  | removed _ hremove => exact without hremove rfl rfl
  | removing _ hremove _ k => exact without hremove k.queue k.sinks
  | abandoned _ k => exact still (by rw [k.queue]; rfl) k.sinks
  | @peeked head queue d' _ hpeek k =>
    refine still ?_ k.sinks
    obtain rfl : d.queue.peek.2 = queue := congrArg Prod.snd hpeek
    rw [k.queue]
    exact sound.registrationOf (FairQueue.step_peek Fair.cost d.queue)
  | @taken head queue queue' delivery processor d' _ hpeek hpop _ _ _ k =>
    refine still ?_ k.sinks
    obtain rfl : d.queue.peek.2 = queue := congrArg Prod.snd hpeek
    have hpeeked : d.queue.peek.2.registrationOf = d.queue.registrationOf :=
      sound.registrationOf (FairQueue.step_peek Fair.cost d.queue)
    rw [k.queue, ← hpeeked]
    exact o.supplies.peek.sound.registrationOf (FairQueue.step_pop hpop)
  | setOut => exact still rfl rfl
  | late _ _ _ _ _ k => exact still (by rw [k.queue]) k.sinks
  | @closing processor _ _ hfinishing =>
    refine .drained hr fun sink hsink => ?_
    have hclosing : ({ d with
        processor, stopped := true, leaving := d.sinks.values, sinks := .empty } : Deliverer ρ).isClosing =
        true := isClosing_iff.mpr hfinishing
    show sink ∈ if _ then d.sinks.values else []
    rw [if_pos hclosing]
    exact Roster.mem_values.mpr ⟨t, hsink⟩
  | entered => exact still rfl rfl
  | accepted _ _ _ k => exact still (by rw [k.queue]; rfl) k.sinks
  | gone _ _ _ _ k => exact still (by rw [k.queue]; rfl) k.sinks
  | orphaned _ _ _ _ hremove _ k => exact without hremove k.queue k.sinks
  | foundClosed _ _ _ _ hremove _ k => exact without hremove k.queue k.sinks
  | dismissed _ _ _ k => exact still (by rw [k.queue]; rfl) k.sinks
  | returned _ _ _ k => exact still (by rw [k.queue]; rfl) k.sinks
  | dismissing => exact still rfl rfl
  | ended => exact still rfl rfl

/-- Once the handler is at its end, it brings no more resources. -/
theorem Turn.calm (o : Orderly h handed d)
    (hcalm : d.processor.handler.isLast → ∀ v ∈ d.visits, v.delivers = false)
    (e : Turn d event reply d') : d'.processor.handler.isLast → ∀ v ∈ d'.visits, v.delivers = false := by
  -- The handler stays where it is, and no visit is added that brings a resource.
  have stays : ∀ {d₁ : Deliverer ρ}, Aside d₁ d' → d₁.processor = d.processor →
      (∀ v ∈ d₁.visits, v ∈ d.visits ∨ v.delivers = false) →
      d'.processor.handler.isLast → ∀ v ∈ d'.visits, v.delivers = false := by
    intro d₁ k hprocessor hvisits hlast v hv
    have hopen : d₁.processor.channel.closed = false := by
      rw [hprocessor]
      exact o.unclosed
    rw [(k.processor hopen).isLast_iff, hprocessor] at hlast
    rw [k.visits] at hv
    exact (hvisits v hv).elim (hcalm hlast v) id
  have fewer : ∀ visitor, ∀ v ∈ (d.endVisit visitor).visits, v ∈ d.visits ∨ v.delivers = false :=
    fun _ _ hv => .inl (List.mem_of_mem_filter hv)
  have more : ∀ (visits : List (Visit ρ)) {visitor : Visitor} {sink : Nat} {backlog : List ρ},
      (∀ v ∈ visits, v ∈ d.visits) →
      ∀ v ∈ visits ++ [({ visitor, sink, errand := .dismiss backlog } : Visit ρ)],
        v ∈ d.visits ∨ v.delivers = false := by
    intro visits visitor sink backlog hsub v hv
    rcases List.mem_append.mp hv with hv | hv
    · exact .inl (hsub v hv)
    · rw [List.mem_singleton.mp hv]
      exact .inr rfl
  -- The handler turns to a resource.
  have turns : ∀ {delivery : Delivery ρ} {processor : Processor (Delivery ρ)},
      processor.handler = .handling delivery → Stays processor d'.processor →
      d'.processor.handler.isLast → ∀ v ∈ d'.visits, v.delivers = false := by
    intro delivery processor hhandling k hlast
    rw [k.isLast_iff, hhandling] at hlast
    exact hlast.elim
  cases e with
  | aside _ k => exact stays k rfl fun v hv => .inl hv
  | enrolled => exact hcalm
  | reprioritised => exact hcalm
  | submitted _ _ k => exact stays k rfl fun v hv => .inl hv
  | removed => exact hcalm
  | removing _ _ _ k => exact stays k rfl (more d.visits fun _ => id)
  | abandoned _ k => exact stays k rfl (fewer _)
  | peeked _ _ k => exact stays k rfl fun v hv => .inl hv
  | @taken head queue queue' delivery processor d' _ _ _ hopen _ hhandler k =>
    intro hlast
    rw [(k.processor hopen).isLast_iff] at hlast
    rw [k.visits]
    refine hcalm ?_
    rw [← hhandler]
    exact hlast
  | @setOut delivery processor hopen _ hhandling => exact turns hhandling (.of_same hopen rfl rfl)
  | @late delivery processor d' hopen _ hhandling _ _ k => exact turns hhandling (k.processor hopen)
  | closing _ hreceiving =>
    intro _ v hv
    rw [← Bool.not_eq_true]
    intro hdelivers
    exact visitOf?_eq_none.mp (o.idle hreceiving) v hv (o.visitor_of_delivers hv hdelivers)
  | entered =>
    intro hlast v hv
    obtain ⟨w, hw, rfl⟩ := List.mem_map.mp hv
    have hdismissal := hcalm hlast w hw
    split
    · exact hdismissal
    · exact hdismissal
  | accepted _ _ _ k => exact stays k rfl (fewer _)
  | gone _ _ _ _ k => exact stays k rfl (fewer _)
  | orphaned _ _ _ _ _ _ k => exact stays k rfl (fewer _)
  | foundClosed _ _ _ _ _ _ k => exact stays k rfl (more _ fun _ => List.mem_of_mem_filter)
  | dismissed _ _ _ k => exact stays k rfl (fewer _)
  | returned _ _ _ k => exact stays k rfl (fewer _)
  | dismissing => exact fun hlast v hv => (more d.visits (fun _ => id) v hv).elim (hcalm hlast v) id
  | ended _ _ _ hfinishing =>
    exact fun _ => hcalm (Processor.HandlerPhase.isLast_iff.mpr (.inl hfinishing))

/-! ### The invariant -/

/-- Where the sinks of the registrations are that the queue knows. -/
structure Held (h : List (Happening ρ)) (d : Deliverer ρ) : Prop where
  /-- The sink of a registration is in the register, or the handler took it over at its end. -/
  held : ∀ t r, d.queue.registrationOf t = some r → d.sinks.get? t = some r ∨ r ∈ drained h
  last : drained h ≠ [] → d.processor.handler.isLast
  calm : d.processor.handler.isLast → ∀ v ∈ d.visits, v.delivers = false

omit [Resource ρ] in
theorem Held.ofSettings (settings : DelivererSettings) :
    Held [] (Deliverer.ofSettings settings : Deliverer ρ) where
  held t r hr := by
    have hnone : (FairQueue.ofSettings settings.queue : FairQueue ρ).registrationOf t = none := by
      show ((Roster.empty : Roster (Fair.Entry ρ)).get? t).map _ = none
      rw [Roster.get?_empty]
      rfl
    cases hnone.symm.trans hr
  last hne := absurd rfl hne
  calm hlast := hlast.elim

/-- The handler takes the sinks over when it comes to its end. -/
theorem Turn.isLast_of_drained (e : Turn d event reply d')
    (hne : (⟨d, event, reply, d'⟩ : Happening ρ).drained ≠ []) : d'.processor.handler.isLast := by
  have hclosing : event = .receive → d'.processor.handler.isLast := by
    rintro rfl
    by_cases hclosing : d'.isClosing = true
    · exact Processor.HandlerPhase.isLast_iff.mpr (.inl (isClosing_iff.mp hclosing))
    · exact absurd (if_neg hclosing) hne
  cases event with
  | receive => exact hclosing rfl
  | _ => exact absurd rfl hne

theorem Held.effect (x : Held h d) (o : Orderly h handed d) (e : Effect d event reply d') :
    Held (h ++ [⟨d, event, reply, d'⟩]) d' where
  held t r hr := by
    rw [drained_snoc]
    cases (e.turn o).origin o hr with
    | kept hbefore hsame =>
      rw [hsame]
      exact (x.held t r hbefore).imp_right (List.mem_append_left _)
    | drained hbefore htaken =>
      right
      rcases x.held t r hbefore with hsink | hdrained
      · exact List.mem_append_right _ (htaken r hsink)
      · exact List.mem_append_left _ hdrained
    | new _ hsink => exact .inl hsink
  last hne := by
    rw [drained_snoc] at hne
    by_cases hbefore : drained h = []
    · rw [hbefore, List.nil_append] at hne
      exact (e.turn o).isLast_of_drained hne
    · exact e.reaches.isLast (x.last hbefore)
  calm := (e.turn o).calm o x.calm

/-! ### When a removal returns -/

/-- The sink of the registration that a call has removed when it returns. -/
def Happening.removed (s : Happening ρ) : List Nat :=
  match s.reply, s.event with
  | .removed _ (.ok _), .remove _ t => (s.before.queue.registrationOf t).toList
  | .removed _ (.ok _), .dismissReturns visitor => (s.before.visitOf? visitor).toList.map (·.sink)
  | _, _ => []

omit [Resource ρ] in
/-- A sink that has been dismissed has nobody in its line, and nobody will set out to it. -/
theorem Attended.gone_of_released {attached : Prop} {line : List (Visit ρ)} {seen : List (Sighting ρ)}
    (a : Attended attached line seen) (hreleased : .released ∈ seen) : line = [] ∧ ¬ attached := by
  obtain ⟨rounds, hseen | ⟨hnil, hgone, -⟩⟩ := a.seen_eq
  · rw [hseen] at hreleased
    have hmem := (List.mem_append.mp hreleased).resolve_left (released_not_mem_served rounds)
    rcases openings_cases line with hnone | ⟨resource, hcalled⟩ | hdismissed
    · rw [hnone] at hmem
      cases hmem
    · rw [hcalled] at hmem
      cases List.mem_singleton.mp hmem
    · rw [hdismissed] at hmem
      cases List.mem_singleton.mp hmem
  · exact ⟨hnil, hgone⟩

omit [Resource ρ] in
/-- The handler owes nothing to a sink that has been dismissed. -/
theorem Hosted.not_owes (x : Hosted h d) {sink : Nat} (hreleased : .released ∈ seen sink h) :
    ¬ d.owes sink := by
  obtain ⟨hline, hgone⟩ := (x.attended sink).gone_of_released hreleased
  rintro (hleft | ⟨v, hv, hsink, -⟩)
  · exact hgone (.inr hleft)
  · have hmem : v ∈ d.line sink := mem_line.mpr ⟨(mem_of_visitOf? hv).1, hsink⟩
    rw [hline] at hmem
    cases hmem

omit [Resource ρ] in
/-- Only a handler that is at its end owes something to the sinks that it took over. -/
theorem Parting.isClosing_of_owes (p : Parting d) (hlast : d.processor.handler.isLast) {sink : Nat}
    (howes : d.owes sink) : d.isClosing = true := by
  rw [isClosing_iff]
  refine (Processor.HandlerPhase.isLast_iff.mp hlast).resolve_right fun hended => ?_
  rcases howes with hleft | ⟨v, hv, -⟩
  · rw [p.leaving (by rw [hended]; nofun)] at hleft
    cases hleft
  · cases (p.alone hended).symm.trans hv

/-- What is true of the sink of a removal that returns. -/
structure Told (h : List (Happening ρ)) (d : Deliverer ρ) (sink : Nat) : Prop where
  /-- No delivery to it is under way. -/
  silent : ∀ v ∈ d.visits, v.sink = sink → v.delivers = false
  released : .released ∈ seen sink h ↔ ¬ d.owes sink
  closing : d.owes sink → d.isClosing = true

omit [Resource ρ] in
/-- A call that returns after it has dismissed the sink. -/
theorem told_of_returned {call : CallId} {v : Visit ρ} {backlog : List ρ} (x : Hosted h d)
    (hv : d.visitOf? (.remover call) = some v) (herrand : v.errand = .dismiss backlog)
    (hinside : v.inside = true) (hd' : Aside (d.endVisit (.remover call)) d') :
    Told (h ++ [⟨d, .dismissReturns (.remover call), reply, d'⟩]) d' v.sink := by
  have x' : Hosted (h ++ [⟨d, .dismissReturns (.remover call), reply, d'⟩]) d' :=
    (x.release hv herrand hinside).aside hd'
  have hreleased : .released ∈ seen v.sink (h ++ [⟨d, .dismissReturns (.remover call), reply, d'⟩]) := by
    rw [seen_snoc]
    refine List.mem_append_right _ ?_
    show .released ∈ d.sightingOf (.remover call) v.sink fun _ => [.released]
    rw [sightingOf_visit hv, if_pos rfl]
    exact List.mem_singleton.mpr rfl
  have hnot := x'.not_owes hreleased
  refine ⟨fun w hw hsink => ?_, iff_of_true hreleased hnot, fun howes => absurd howes hnot⟩
  have hmem : w ∈ d'.line v.sink := mem_line.mpr ⟨hw, hsink⟩
  rw [((x'.attended v.sink).gone_of_released hreleased).1] at hmem
  cases hmem

/-- Whatever the schedule, in which the calls that remove targets are told apart by their numbers: when a call
returns that has removed a target, no delivery to the sink of that registration is under way. And the sink has
been told, unless the handler at its end still owes it the dismissal. -/
theorem told_of_removed (settings : DelivererSettings) (events : List (Event ρ))
    {before after : List (Happening ρ)} {s : Happening ρ} {sink : Nat}
    (hsplit : happenings settings events = before ++ s :: after)
    (hfresh : ∀ r ∈ before ++ [s], r.isFresh = true) (hsink : sink ∈ s.removed) :
    Told (before ++ [s]) s.after sink := by
  refine every_event (P := fun h d => Halting h d ∧ Held h d ∧
      ((∀ r ∈ h, r.isFresh = true) → Hosted h d))
    (Q := fun h s => (∀ r ∈ h ++ [s], r.isFresh = true) → ∀ sink ∈ s.removed, Told (h ++ [s]) s.after sink)
    ?_ ?_ events hsplit hfresh sink hsink
  · exact ⟨.after settings [], .ofSettings settings, fun _ => .ofSettings settings⟩
  · rintro h handed d event reply d' o t ⟨y, k, x⟩ e
    have earlier : (∀ r ∈ h ++ [⟨d, event, reply, d'⟩], r.isFresh = true) → ∀ r ∈ h, r.isFresh = true :=
      fun hfresh r hr => hfresh r (List.mem_append_left _ hr)
    have y' := y.effect o t e
    have k' := k.effect o e
    have x' : (∀ r ∈ h ++ [⟨d, event, reply, d'⟩], r.isFresh = true) →
        Hosted (h ++ [⟨d, event, reply, d'⟩]) d' := by
      intro hfresh
      refine (e.turn o).hosted o y.parting (x (earlier hfresh)) ?_
      exact hfresh _ (List.mem_append_right _ (List.mem_singleton.mpr rfl))
    refine ⟨⟨y', k', x'⟩, fun hfresh sink hsink => ?_⟩
    cases e with
    | @removed call t r backlog queue _ hr hremove hnone =>
      obtain rfl : r = sink := by
        have hmem : sink ∈ (d.queue.registrationOf t).toList := hsink
        rw [hr] at hmem
        exact (List.mem_singleton.mp hmem).symm
      -- Nobody but the handler at its end takes a sink out of the register and leaves the registration.
      have hdrained : r ∈ drained h := (k.held t r hr).resolve_left fun hsink => nomatch hnone.symm.trans hsink
      have hlast : d.processor.handler.isLast := k.last (List.ne_nil_of_mem hdrained)
      refine ⟨fun v hv _ => k.calm hlast v hv, ?_, fun howes => y'.parting.isClosing_of_owes hlast howes⟩
      refine ⟨(x' hfresh).not_owes, fun hnot => ?_⟩
      refine (y'.drains r ?_).resolve_left hnot
      rw [drained_snoc]
      exact List.mem_append_left _ hdrained
    | @returned call v backlog hv herrand hinside =>
      obtain rfl : v.sink = sink := by
        have hmem : sink ∈ (d.visitOf? (.remover call)).toList.map (·.sink) := hsink
        rw [hv] at hmem
        exact (List.mem_singleton.mp hmem).symm
      exact told_of_returned (x (earlier hfresh)) hv herrand hinside (.proceed rfl)
    | _ => cases hsink

end

theorem told_of_removed_closingTime :
    let h := happenings .small closingTime
    ∃ before s after, h = before ++ s :: after ∧ (∀ r ∈ before ++ [s], r.isFresh = true) ∧
      2 ∈ s.removed ∧ Told (before ++ [s]) s.after 2 := by
  intro h
  have hfresh : ∀ r ∈ h, r.isFresh = true := by decide +kernel
  have hremoved : ∃ s ∈ h, 2 ∈ s.removed := by decide +kernel
  obtain ⟨s, hs, hsink⟩ := hremoved
  obtain ⟨before, after, hsplit⟩ := List.append_of_mem hs
  have hbefore : ∀ r ∈ before ++ [s], r.isFresh = true := by
    intro r hr
    refine hfresh r ?_
    rw [hsplit, List.append_cons]
    exact List.mem_append_left _ hr
  exact ⟨before, s, after, hsplit, hbefore, hsink,
    told_of_removed .small closingTime hsplit hbefore hsink⟩

/-- A schedule in which a target is removed while the handler at its end dismisses its sink. -/
def lateRemoval : List (Event (List UInt8)) :=
  [.addTarget ⟨1⟩ ⟨0x3f800000⟩, .stop 7, .look, .ask, .readerLeaves, .readerFinishes, .receive,
    .dismissNext 1, .enter .handler, .remove 8 ⟨1⟩]

/-- The removal returns, and the dismissal has begun but is not done. -/
theorem untold_lateRemoval :
    let h := happenings .small lateRemoval
    (∀ event ∈ lateRemoval, ∀ call, event ≠ .cancel call) ∧
      h.getLast?.map (·.removed) = some [1] ∧ seen 1 h = [.dismissed] := by
  refine ⟨?_, by decide +kernel, by decide +kernel⟩
  intro event hevent call hcancel
  subst hcancel
  simp [lateRemoval] at hevent

end Deliverer

end Sluice
