import Sluice.Proofs.Delivery.Books

/-!
# What is taken out is handed over, or late

A resource that is taken out of the queue meets its fate when its sink answers to it, or when the handler
receives it too late. So a sink was called with those resources of its registration that it answered to, in
order, and maybe with one that it has not answered to yet. This is the invariant `Handed.called`. Like the
balance of the transit, it is proved from one equation for each turn (`Turn.calls`).

`Handed.supplies` says of the queue that what it has handed out is what was taken out. With the ledger of the
queue it tells what waits for a registered target: all that was accepted for it and not taken out
(`Handed.backlog`).
-/

namespace Sluice

open Fair (resourcesUnder resourcesUnder_append resourcesUnder_cons)

namespace Deliverer

variable {ρ : Type} {d d' : Deliverer ρ} {h : List (Happening ρ)} {handed : List (Delivery ρ)}

/-! ### Answers -/

/-- The resource that a sink answers to. -/
def Happening.answered (s : Happening ρ) : List (Delivery ρ) :=
  (s.fates.filter (·.1 != .late)).map (·.2)

/-- The resources that their sinks answered to, in order. -/
def answered (h : List (Happening ρ)) : List (Delivery ρ) := ((fates h).filter (·.1 != .late)).map (·.2)

theorem answered_snoc (h : List (Happening ρ)) (s : Happening ρ) :
    answered (h ++ [s]) = answered h ++ s.answered := by
  rw [answered, fates_snoc, List.filter_append, List.map_append]
  rfl

/-- What a sink was called with and has not answered to. -/
def unanswered (d : Deliverer ρ) (sink : Nat) : List ρ :=
  match d.visitOf? .handler with
  | some v => if v.inside then v.brings sink else []
  | none => []

theorem unanswered_of_visit {v : Visit ρ} (hv : d.visitOf? .handler = some v) (sink : Nat) :
    d.unanswered sink = if v.inside then v.brings sink else [] := by
  rw [unanswered, hv]

theorem unanswered_of_none (hnone : d.visitOf? .handler = none) (sink : Nat) :
    d.unanswered sink = [] := by
  rw [unanswered, hnone]

/-- Nothing is answered before the sink is called. -/
theorem unanswered_visit (hnone : d.visitOf? .handler = none) (sink other : Nat) (errand : Errand ρ) :
    (d.visit .handler sink errand).unanswered other = [] := by
  rw [unanswered_of_visit (visitOf?_visit hnone sink errand)]
  exact if_neg Bool.false_ne_true

theorem unanswered_endVisit (d : Deliverer ρ) (sink : Nat) :
    (d.endVisit .handler).unanswered sink = [] :=
  unanswered_of_none (d.visitOf?_endVisit .handler) sink

theorem unanswered_of_dismiss {v : Visit ρ} {backlog : List ρ} (hv : d.visitOf? .handler = some v)
    (herrand : v.errand = .dismiss backlog) (sink : Nat) : d.unanswered sink = [] := by
  have hdismissal : v.delivers = false := Visit.delivers_eq_false.mpr ⟨backlog, herrand⟩
  rw [unanswered_of_visit hv, Visit.brings_of_dismissal hdismissal, ite_self]

/-- A sink that is called with a resource was registered under its number. -/
theorem Orderly.unanswered_eq (o : Orderly h handed d) {v : Visit ρ} {delivery : Delivery ρ}
    (hv : d.visitOf? .handler = some v) (herrand : v.errand = .deliver delivery)
    (hinside : v.inside = true) (sink : Nat) : d.unanswered sink = resourcesUnder sink [delivery] := by
  have hsink := (o.errands v (List.mem_of_find?_eq_some hv) delivery herrand).2
  rw [unanswered_of_visit hv, if_pos hinside, Visit.brings, herrand, hsink, resourcesUnder_cons]
  exact (List.append_nil _).symm

theorem Aside.unanswered (k : Aside d d') (sink : Nat) : d'.unanswered sink = d.unanswered sink := by
  rw [Deliverer.unanswered, Deliverer.unanswered, k.visitOf?]

/-- Who visits sinks for a call has nothing to do with what they answer to. -/
theorem unanswered_of_handler (hsame : d'.visitOf? .handler = d.visitOf? .handler) (sink : Nat) :
    d'.unanswered sink = d.unanswered sink := by
  rw [unanswered, unanswered, hsame]

/-! ### Every turn -/

section

variable [Resource ρ] {event : Event ρ} {reply : Reply ρ}

/-- What a sink is called with joins what it has not answered to, and its answer takes it away. -/
theorem Turn.calls (o : Orderly h handed d) (e : Turn d event reply d') (sink : Nat) :
    d.unanswered sink ++ (⟨d, event, reply, d'⟩ : Happening ρ).delivered sink =
      resourcesUnder sink (⟨d, event, reply, d'⟩ : Happening ρ).answered ++ d'.unanswered sink := by
  -- No sink is called, and none answers.
  have still : (⟨d, event, reply, d'⟩ : Happening ρ).delivered sink = [] →
      (⟨d, event, reply, d'⟩ : Happening ρ).answered = [] → d'.unanswered sink = d.unanswered sink →
      d.unanswered sink ++ (⟨d, event, reply, d'⟩ : Happening ρ).delivered sink =
        resourcesUnder sink (⟨d, event, reply, d'⟩ : Happening ρ).answered ++ d'.unanswered sink := by
    intro hdelivered hanswered hunanswered
    rw [hdelivered, hanswered, hunanswered, List.append_nil]
    rfl
  -- The sink answers to the resource of the handler.
  have answers : ∀ {v : Visit ρ} {delivery : Delivery ρ}, d.visitOf? .handler = some v →
      v.errand = .deliver delivery → v.inside = true →
      (⟨d, event, reply, d'⟩ : Happening ρ).delivered sink = [] →
      (⟨d, event, reply, d'⟩ : Happening ρ).answered = [delivery] → d'.unanswered sink = [] →
      d.unanswered sink ++ (⟨d, event, reply, d'⟩ : Happening ρ).delivered sink =
        resourcesUnder sink (⟨d, event, reply, d'⟩ : Happening ρ).answered ++ d'.unanswered sink := by
    intro v delivery hv herrand hinside hdelivered hanswered hunanswered
    rw [hdelivered, hanswered, hunanswered, o.unanswered_eq hv herrand hinside]
  cases e with
  | aside hsilent k =>
    refine still (hsilent.delivered sink) ?_ (k.unanswered sink)
    rw [Happening.answered, hsilent.fates]
    rfl
  | enrolled => exact still rfl rfl rfl
  | reprioritised => exact still rfl rfl rfl
  | submitted _ _ k => exact still rfl rfl (k.unanswered sink)
  | removed => exact still rfl rfl rfl
  | removing _ _ _ k =>
    refine still rfl rfl ((k.unanswered sink).trans ?_)
    exact unanswered_of_handler (visitOf?_visit_of_ne (Orderly.remover_ne _) _ _) sink
  | abandoned _ k =>
    refine still rfl rfl ((k.unanswered sink).trans ?_)
    exact unanswered_of_handler (visitOf?_endVisit_of_ne (Orderly.remover_ne _)) sink
  | peeked _ _ k => exact still rfl rfl (k.unanswered sink)
  | taken _ _ _ _ _ _ k => exact still rfl rfl (k.unanswered sink)
  | @setOut delivery processor _ hreceiving _ hunderway hsink =>
    have hnone := o.idle hreceiving
    refine still rfl ?_ ((unanswered_visit hnone _ sink _).trans (unanswered_of_none hnone sink).symm)
    rw [Happening.answered, fates_receive hunderway, if_pos hsink]
    rfl
  | late _ _ _ hunderway hsink k =>
    refine still rfl ?_ (k.unanswered sink)
    rw [Happening.answered, fates_receive hunderway, if_neg hsink]
    rfl
  | closing _ _ _ hbefore =>
    refine still rfl ?_ rfl
    show ((((d.processor.underway.take 1).filter _).map _).filter _).map _ = []
    rw [hbefore]
    rfl
  | @entered visitor v hv hout =>
    have hdelivered : (⟨d, .enter visitor, .quiet, d.letIn visitor⟩ : Happening ρ).delivered sink =
        v.brings sink := by
      show (d.visitOf? visitor).toList.flatMap (·.brings sink) = v.brings sink
      rw [hv, Option.toList_some, List.flatMap_singleton]
    cases visitor with
    | handler =>
      have hv' : (d.letIn .handler).visitOf? .handler = some { v with inside := true } := by
        rw [visitOf?_letIn, hv, Option.map_some, if_pos (visitor_of_visitOf? hv)]
      rw [hdelivered, unanswered_of_visit hv, unanswered_of_visit hv', hout]
      rfl
    | remover call =>
      refine still ?_ rfl (unanswered_of_handler (visitOf?_letIn_of_ne (Orderly.remover_ne call)) sink)
      rw [hdelivered, Visit.brings_of_dismissal (o.dismisses hv)]
  | accepted hv herrand hinside k =>
    refine answers hv herrand hinside rfl ?_ ((k.unanswered sink).trans (d.unanswered_endVisit sink))
    rw [Happening.answered, fates_accepted (inHand_of_deliver hv herrand)]
    rfl
  | gone hv herrand hinside _ k =>
    refine answers hv herrand hinside rfl ?_ ((k.unanswered sink).trans (d.unanswered_endVisit sink))
    rw [Happening.answered, fates_refused (inHand_of_deliver hv herrand)]
    rfl
  | orphaned hv herrand hinside _ _ _ k =>
    refine answers hv herrand hinside rfl ?_ ((k.unanswered sink).trans (d.unanswered_endVisit sink))
    rw [Happening.answered, fates_refused (inHand_of_deliver hv herrand)]
    rfl
  | foundClosed hv herrand hinside _ _ _ k =>
    refine answers hv herrand hinside rfl ?_ ((k.unanswered sink).trans ?_)
    · rw [Happening.answered, fates_refused (inHand_of_deliver hv herrand)]
      rfl
    · exact unanswered_visit (d.visitOf?_endVisit .handler) _ sink _
  | dismissed hv herrand _ k =>
    refine still rfl rfl (((k.unanswered sink).trans (d.unanswered_endVisit sink)).trans ?_)
    exact (unanswered_of_dismiss hv herrand sink).symm
  | returned _ _ _ k =>
    refine still rfl rfl ((k.unanswered sink).trans ?_)
    exact unanswered_of_handler (visitOf?_endVisit_of_ne (Orderly.remover_ne _)) sink
  | dismissing _ hnone =>
    exact still rfl rfl ((unanswered_visit hnone _ sink _).trans (unanswered_of_none hnone sink).symm)
  | ended => exact still rfl rfl rfl

/-- What was taken out is what the queue has handed out. -/
theorem Turn.supplies (o : Orderly h handed d)
    (x : d.queue.Supplies (registrations h) (fun r => submittedUnder r h) (takenOut h))
    (e : Turn d event reply d') :
    d'.queue.Supplies (registrations (h ++ [⟨d, event, reply, d'⟩]))
      (fun r => submittedUnder r (h ++ [⟨d, event, reply, d'⟩]))
      (takenOut (h ++ [⟨d, event, reply, d'⟩])) := by
  have past : ∀ {queue : FairQueue ρ} {numbers : List (TargetId × Nat)} {accepted : Nat → List ρ}
      {out : List (Delivery ρ)}, d'.queue = queue → queue.Supplies numbers accepted out →
      registrations (h ++ [⟨d, event, reply, d'⟩]) = numbers →
      (∀ r, submittedUnder r (h ++ [⟨d, event, reply, d'⟩]) = accepted r) →
      takenOut (h ++ [⟨d, event, reply, d'⟩]) = out →
      d'.queue.Supplies (registrations (h ++ [⟨d, event, reply, d'⟩]))
        (fun r => submittedUnder r (h ++ [⟨d, event, reply, d'⟩]))
        (takenOut (h ++ [⟨d, event, reply, d'⟩])) := by
    intro queue numbers accepted out hqueue x' hnumbers haccepted hout
    rw [hqueue, hnumbers, funext haccepted, hout]
    exact x'
  -- Nothing is registered, accepted or taken out.
  have quiet : ∀ {queue : FairQueue ρ},
      queue.Supplies (registrations h) (fun r => submittedUnder r h) (takenOut h) → d'.queue = queue →
      (⟨d, event, reply, d'⟩ : Happening ρ).registered = [] →
      (⟨d, event, reply, d'⟩ : Happening ρ).submitted = [] →
      (⟨d, event, reply, d'⟩ : Happening ρ).taken = [] →
      d'.queue.Supplies (registrations (h ++ [⟨d, event, reply, d'⟩]))
        (fun r => submittedUnder r (h ++ [⟨d, event, reply, d'⟩]))
        (takenOut (h ++ [⟨d, event, reply, d'⟩])) := by
    intro queue x' hqueue hregistered hsubmitted htaken
    exact past hqueue x' (registrations_snoc_nil h hregistered)
      (fun r => submittedUnder_snoc_nil h r hsubmitted) (takenOut_snoc_nil h htaken)
  cases e with
  | aside hsilent k => exact quiet x k.queue hsilent.registered hsilent.submitted hsilent.taken
  | @enrolled t priority r queue _ hadd =>
    have hregistered : (⟨d, .addTarget t priority, .result (.ok ()),
        { d with queue, sinks := d.sinks.set t r }⟩ : Happening ρ).registered = [(t, r)] := by
      show (((d.sinks.set t r).get? t).map (t, ·)).toList = _
      rw [Roster.get?_set, if_pos rfl]
      rfl
    refine past rfl (x.addTarget hadd).1 ?_ (fun r => submittedUnder_snoc_nil h r rfl)
      (takenOut_snoc_nil h rfl)
    rw [registrations_snoc, hregistered]
  | reprioritised hset => exact quiet (x.setPriority hset) rfl rfl rfl rfl
  | @submitted t resource queue d' hstopped hpush k =>
    refine past k.queue (x.pushSized hpush) (registrations_snoc_nil h rfl) (fun r => ?_)
      (takenOut_snoc_nil h rfl)
    rw [submittedUnder_snoc_submission h _ r rfl, o.sinks_eq hstopped]
  | removed _ hremove => exact quiet (x.removeTarget hremove) rfl rfl rfl rfl
  | removing _ hremove _ k => exact quiet (x.removeTarget hremove) k.queue rfl rfl rfl
  | abandoned _ k => exact quiet x k.queue rfl rfl rfl
  | @peeked head queue d' _ hpeek k =>
    have htaken : (⟨d, .ask, .quiet, d'⟩ : Happening ρ).taken = [] :=
      Happening.taken_eq_nil (k.processor o.unclosed).underway
    obtain rfl : d.queue.peek.2 = queue := congrArg Prod.snd hpeek
    exact quiet x.peek k.queue rfl rfl htaken
  | @taken head queue queue' delivery processor d' _ hpeek hpop hopen htaken _ k =>
    have htaken' : (⟨d, .ask, .quiet, d'⟩ : Happening ρ).taken = [delivery] :=
      taken_of_ask ((k.processor hopen).underway.trans htaken)
    obtain rfl : d.queue.peek.2 = queue := congrArg Prod.snd hpeek
    refine past k.queue (x.peek.pop hpop) (registrations_snoc_nil h rfl)
      (fun r => submittedUnder_snoc_nil h r rfl) ?_
    rw [takenOut_snoc, htaken']
    rfl
  | setOut => exact quiet x rfl rfl rfl rfl
  | late _ _ _ _ _ k => exact quiet x k.queue rfl rfl rfl
  | closing => exact quiet x rfl rfl rfl rfl
  | entered => exact quiet x rfl rfl rfl rfl
  | accepted _ _ _ k => exact quiet x k.queue rfl rfl rfl
  | gone _ _ _ _ k => exact quiet x k.queue rfl rfl rfl
  | orphaned _ _ _ _ hremove _ k => exact quiet (x.removeTarget hremove) k.queue rfl rfl rfl
  | foundClosed _ _ _ _ hremove _ k => exact quiet (x.removeTarget hremove) k.queue rfl rfl rfl
  | dismissed _ _ _ k => exact quiet x k.queue rfl rfl rfl
  | returned _ _ _ k => exact quiet x k.queue rfl rfl rfl
  | dismissing => exact quiet x rfl rfl rfl rfl
  | ended => exact quiet x rfl rfl rfl rfl

end

/-! ### Runs -/

/-- What became of the resources that were taken out. -/
structure Handed (h : List (Happening ρ)) (d : Deliverer ρ) : Prop where
  supplies : d.queue.Supplies (registrations h) (fun r => submittedUnder r h) (takenOut h)
  called : ∀ sink, deliveredTo sink h = resourcesUnder sink (answered h) ++ d.unanswered sink

namespace Handed

theorem after [Resource ρ] (settings : DelivererSettings) (events : List (Event ρ)) :
    Handed (happenings settings events) ((Deliverer.ofSettings settings).after events) := by
  refine turn_induction ⟨.ofSettings settings.queue, fun _ => rfl⟩ ?_ events
  intro h handed d event reply d' o _ x e
  refine ⟨e.supplies o x.supplies, fun sink => ?_⟩
  have hcalls := e.calls o sink
  rw [deliveredTo_snoc, x.called, answered_snoc, resourcesUnder_append, List.append_assoc,
    List.append_assoc]
  exact congrArg _ hcalls

/-- What waits for a target is all that was accepted for it and not taken out. -/
theorem backlog (x : Handed h d) {t : TargetId} {r : Nat} (hr : d.queue.registrationOf t = some r) :
    submittedUnder r h = resourcesUnder r (takenOut h) ++ d.queue.backlogOf t :=
  x.supplies.accepted_eq hr

end Handed

end Deliverer

end Sluice
