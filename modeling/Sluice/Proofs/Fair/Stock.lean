import Sluice.Proofs.Fair.Supply

/-!
# What waits in a fair queue

Whoever keeps count beside a fair queue needs four facts about what waits in it. A call changes the number of
what is pending by what it takes in and by what it gives away (`Sound.pending_step`). What is given away has
the size that it was queued with, so if every resource is queued with its own size, each delivery has the size
of its resource (`Effect.weighed`). What a pop hands out is what the peek before it showed (`Sound.pop_of_peek`).
And what was accepted under the number of a target is what was handed out under it and then what waits
(`Supplies.accepted_eq`).
-/

namespace Sluice

open Fair

variable {ρ : Type}

/-- The resources that wait for a target, earliest first. -/
def FairQueue.backlogOf (q : FairQueue ρ) (t : TargetId) : List ρ :=
  (q.targets.get? t).elim [] fun entry => entry.backlog.toList.map (·.1)

namespace FairQueue

variable {q q' : FairQueue ρ} {t : TargetId}

theorem backlogOf_of_not_registered (h : q.registrationOf t = none) : q.backlogOf t = [] := by
  rw [backlogOf, Option.map_eq_none_iff.mp h, Option.elim_none]

/-- A target that is registered is not registered again. -/
theorem not_registered_of_addTarget {priority : Number.Single} {r : Nat}
    (h : q.addTarget t priority = .ok (r, q')) : q.registrationOf t = none := by
  rw [registrationOf]
  cases ht : q.targets.get? t with
  | none => rfl
  | some entry =>
    have hcontains : q.targets.contains t = true := by
      rw [Roster.contains, ht]
      rfl
    rw [addTarget, hcontains] at h
    cases hpriority : checkPriority priority with
    | error e =>
      rw [hpriority] at h
      cases h
    | ok =>
      rw [hpriority] at h
      cases h

/-- A removal answers with what waits for the target. -/
theorem eq_backlogOf_of_removeTarget {backlog : List ρ} (h : q.removeTarget t = .ok (backlog, q')) :
    backlog = q.backlogOf t := by
  rw [removeTarget] at h
  rw [backlogOf]
  cases he : q.targets.get? t with
  | none =>
    rw [he] at h
    cases h
  | some entry =>
    rw [he] at h
    cases h
    rfl

end FairQueue

namespace Fair

variable {cost : Cost} {p p' : PlainQueue ρ} {call : Call ρ} {answer : Answer ρ}

/-! ### How much waits -/

/-- How many resources a step takes in. -/
def Step.incoming (s : Step ρ) : Nat :=
  match s.call, s.answer with
  | .push _ _ _, .done => 1
  | _, _ => 0

/-- How many resources a step gives back. -/
def Step.givenBack (s : Step ρ) : Nat := (s.returned.map (·.2.length)).sum

theorem Effect.pending (hp : p.Listed) (e : Effect cost p call answer p') :
    p'.pending + (⟨p, call, answer, p'⟩ : Step ρ).delivered.length +
        (⟨p, call, answer, p'⟩ : Step ρ).givenBack =
      p.pending + (⟨p, call, answer, p'⟩ : Step ρ).incoming ∧
    p'.delivered = p.delivered + (⟨p, call, answer, p'⟩ : Step ρ).delivered.length := by
  cases e with
  | enrolled ht => exact ⟨hp.pending_enroll ht, rfl⟩
  | @dismissed t a ht =>
    refine ⟨?_, rfl⟩
    show (p.dismiss t).pending + 0 + ((a.backlog.map (·.1)).length + 0) = p.pending + 0
    have hpending := hp.pending_dismiss ht
    rw [List.length_map]
    omega
  | @reprioritised t a priority ht =>
    have hpending := hp.pending_write (b := { a with priority }) ht
    exact ⟨Nat.add_right_cancel hpending, rfl⟩
  | enqueued ht => exact ⟨hp.pending_enqueue ht _ _, rfl⟩
  | served hnext hbacklog =>
    exact ⟨hp.pending_serve (hp.next?_eq_some.mp hnext).1 hbacklog _, rfl⟩
  | quiet hquiet =>
    have hdelivered : (⟨p, call, answer, p⟩ : Step ρ).delivered = [] := by
      unfold Step.delivered
      split
      · next heq =>
        cases heq
        cases hquiet
      · rfl
    have hreturned : (⟨p, call, answer, p⟩ : Step ρ).givenBack = 0 := by
      unfold Step.givenBack Step.returned
      split
      · next heq =>
        cases heq
        cases hquiet
      · rfl
    have hincoming : (⟨p, call, answer, p⟩ : Step ρ).incoming = 0 := by
      unfold Step.incoming
      split
      · next heq =>
        cases heq
        cases hquiet
      · rfl
    rw [hdelivered, hreturned, hincoming]
    exact ⟨rfl, rfl⟩

/-- A call changes what is pending by what it takes in and by what it gives away. -/
theorem Sound.pending_step {q q' : FairQueue ρ} (h : Sound q) (hstep : q.step cost call = (answer, q')) :
    q'.pending + (⟨q.plain, call, answer, q'.plain⟩ : Step ρ).delivered.length +
        (⟨q.plain, call, answer, q'.plain⟩ : Step ρ).givenBack =
      q.pending + (⟨q.plain, call, answer, q'.plain⟩ : Step ρ).incoming ∧
    q'.delivered = q.delivered + (⟨q.plain, call, answer, q'.plain⟩ : Step ρ).delivered.length := by
  rw [h.pending, (h.of_step hstep).pending]
  exact (h.effect hstep).pending q.listed_plain

end Fair

/-! ### How large it is -/

/-- Everything that waits was queued with its own size. -/
def PlainQueue.Weighed [Resource ρ] (p : PlainQueue ρ) : Prop :=
  ∀ t a, p.account t = some a → ∀ e ∈ a.backlog, e.2 = Resource.size e.1

namespace Fair

variable [Resource ρ] {cost : Cost} {p p' : PlainQueue ρ} {call : Call ρ} {answer : Answer ρ}

/-- A call that queues nothing under a size that it does not have. -/
def Call.Weighs (call : Call ρ) : Prop :=
  ∀ t resource size, call = .push t resource size → size = Resource.size resource

theorem Effect.weighed (w : p.Weighed) (hp : p.Listed) (hcall : call.Weighs)
    (e : Effect cost p call answer p') :
    p'.Weighed ∧ ∀ d, answer = .delivery (some d) → d.size = Resource.size d.resource := by
  cases e with
  | enrolled ht =>
    refine ⟨fun u a hu e he => ?_, nofun⟩
    rcases PlainQueue.of_account_enroll hu with ⟨-, rfl⟩ | ⟨-, hu⟩
    · cases he
    · exact w u a hu e he
  | dismissed ht =>
    exact ⟨fun u a hu => w u a (PlainQueue.of_account_dismiss hu).2, nofun⟩
  | @reprioritised t a priority ht =>
    refine ⟨fun u b hu e he => ?_, nofun⟩
    rcases PlainQueue.of_account_write hu with ⟨-, rfl⟩ | ⟨-, hu⟩
    · exact w t a ht e he
    · exact w u b hu e he
  | @enqueued t a resource size ht =>
    refine ⟨fun u b hu e he => ?_, nofun⟩
    rcases PlainQueue.of_account_write hu with ⟨-, rfl⟩ | ⟨-, hu⟩
    · rw [PlainQueue.backlog_filled] at he
      rcases List.mem_append.mp he with he | he
      · exact w t a ht e he
      · obtain rfl := List.mem_singleton.mp he
        exact hcall t resource size rfl
    · exact w u b hu e he
  | @served t a resource size rest hnext hbacklog =>
    have ht := (hp.next?_eq_some.mp hnext).1
    have hall := w t a ht
    rw [hbacklog] at hall
    refine ⟨fun u b hu e he => ?_, fun d hd => ?_⟩
    · rcases PlainQueue.of_account_write hu with ⟨-, rfl⟩ | ⟨-, hu⟩
      · exact hall e (List.mem_cons_of_mem _ he)
      · exact w u b hu e he
    · cases hd
      exact hall (resource, size) List.mem_cons_self
  | quiet hquiet =>
    refine ⟨w, fun d hd => ?_⟩
    rw [hd] at hquiet
    cases hquiet

/-- A call on a fair queue in which everything waits with its own size. -/
theorem Sound.weighed_step {q q' : FairQueue ρ} (h : Sound q) (w : q.plain.Weighed)
    (hcall : call.Weighs) (hstep : q.step cost call = (answer, q')) :
    q'.plain.Weighed ∧ ∀ d, answer = .delivery (some d) → d.size = Resource.size d.resource :=
  (h.effect hstep).weighed w q.listed_plain hcall

end Fair

/-! ### What is next -/

/-- A pop hands out what a peek shows. -/
theorem PlainQueue.pop_of_peek {p : PlainQueue ρ} {t : TargetId} {size : Nat} (cost : Cost)
    (h : p.peek = some (t, size)) : ∃ d, (p.pop cost).1 = some d ∧ d.target = t ∧ d.size = size := by
  rw [peek] at h
  cases hnext : p.next? with
  | none =>
    rw [hnext] at h
    cases h
  | some e =>
    obtain ⟨u, a⟩ := e
    rw [hnext] at h
    cases hbacklog : a.backlog with
    | nil => simp [hbacklog] at h
    | cons head rest =>
      obtain ⟨resource, weight⟩ := head
      obtain ⟨rfl, rfl⟩ : u = t ∧ weight = size := by simpa [hbacklog] using h
      exact ⟨⟨u, a.registration, resource, weight⟩, by simp [pop, hnext, hbacklog], rfl, rfl⟩

/-- After a peek that shows a resource, a pop hands out that one. -/
theorem Fair.Sound.pop_of_peek {q q' : FairQueue ρ} (h : Sound q) {t : TargetId} {size : Nat}
    (hpeek : q.peek = (some (t, size), q')) :
    ∃ d q'', q'.pop = (some d, q'') ∧ d.target = t ∧ d.size = size := by
  have hstep : q.step Fair.cost .peek = (.head (some (t, size)), q') := by
    rw [q.step_peek, hpeek]
  have htracks := h.step Fair.cost .peek
  rw [hstep] at htracks
  have hplain : q'.plain = q.plain := htracks.plain
  have hhead : q.plain.peek = some (t, size) := (Answer.head.inj htracks.answer).symm
  obtain ⟨d, hpop, htarget, hsize⟩ := PlainQueue.pop_of_peek Fair.cost hhead
  have hanswer : Answer.delivery (q'.popWith Fair.cost).1 = .delivery (q'.plain.pop Fair.cost).1 :=
    (htracks.sound.step Fair.cost .pop).answer
  rw [hplain, hpop] at hanswer
  refine ⟨d, q'.pop.2, Prod.ext (Answer.delivery.inj hanswer) rfl, htarget, hsize⟩

/-! ### Operation by operation -/

namespace FairQueue

variable [Resource ρ] {q q' : FairQueue ρ} {t : TargetId} {pending delivered : Nat}

theorem weighs_push (t : TargetId) (resource : ρ) : (Call.push t resource (Resource.size resource)).Weighs := by
  intro u other size h
  cases h
  rfl

/-- A queue that holds some number of resources, each queued with its own size, and that has handed out some
number. -/
structure Stocked (pending delivered : Nat) (q : FairQueue ρ) : Prop where
  sound : Sound q
  weighed : q.plain.Weighed
  pending_eq : q.pending = pending
  delivered_eq : q.delivered = delivered

namespace Stocked

theorem ofSettings (settings : FairSettings) :
    Stocked 0 0 (FairQueue.ofSettings settings : FairQueue ρ) where
  sound := .ofSettings settings
  weighed := nofun
  pending_eq := rfl
  delivered_eq := rfl

/-- After a call there is as much as before, with what it takes in and without what it gives away. -/
theorem call {call : Call ρ} {answer : Answer ρ} (s : Stocked pending delivered q)
    (hstep : q.step Fair.cost call = (answer, q')) (hcall : call.Weighs) :
    ∃ left, left + (⟨q.plain, call, answer, q'.plain⟩ : Step ρ).delivered.length +
        (⟨q.plain, call, answer, q'.plain⟩ : Step ρ).givenBack =
      pending + (⟨q.plain, call, answer, q'.plain⟩ : Step ρ).incoming ∧
    Stocked left (delivered + (⟨q.plain, call, answer, q'.plain⟩ : Step ρ).delivered.length) q' := by
  obtain ⟨hpending, hdelivered⟩ := s.sound.pending_step hstep
  rw [s.pending_eq] at hpending
  rw [s.delivered_eq] at hdelivered
  have hweighed := (s.sound.weighed_step s.weighed hcall hstep).1
  exact ⟨q'.pending, hpending, s.sound.of_step hstep, hweighed, rfl, hdelivered⟩

theorem addTarget {priority : Number.Single} {r : Nat} (s : Stocked pending delivered q)
    (hadd : q.addTarget t priority = .ok (r, q')) : Stocked pending delivered q' := by
  obtain ⟨left, hleft, s'⟩ := s.call (step_addTarget Fair.cost hadd) nofun
  obtain rfl : left = pending := hleft
  exact s'

theorem setPriority {priority : Number.Single} (s : Stocked pending delivered q)
    (hset : q.setPriority t priority = .ok q') : Stocked pending delivered q' := by
  obtain ⟨left, hleft, s'⟩ := s.call (step_setPriority Fair.cost hset) nofun
  obtain rfl : left = pending := hleft
  exact s'

theorem peek {head : Option (TargetId × Nat)} (s : Stocked pending delivered q)
    (hpeek : q.peek = (head, q')) : Stocked pending delivered q' := by
  obtain rfl : q.peek.2 = q' := congrArg Prod.snd hpeek
  obtain ⟨left, hleft, s'⟩ := s.call (q.step_peek Fair.cost) nofun
  obtain rfl : left = pending := hleft
  exact s'

theorem push {resource : ρ} (s : Stocked pending delivered q)
    (hpush : q.push t resource = .ok q') : Stocked (pending + 1) delivered q' := by
  obtain ⟨left, hleft, s'⟩ := s.call (step_push Fair.cost hpush) (weighs_push t resource)
  obtain rfl : left = pending + 1 := hleft
  exact s'

/-- A removal takes the backlog of the target along. -/
theorem removeTarget {backlog : List ρ} (s : Stocked pending delivered q)
    (hremove : q.removeTarget t = .ok (backlog, q')) :
    ∃ left, left + backlog.length = pending ∧ Stocked left delivered q' := by
  obtain ⟨left, hleft, s'⟩ := s.call (step_removeTarget Fair.cost hremove) nofun
  exact ⟨left, hleft, s'⟩

theorem pop {d : Delivery ρ} (s : Stocked pending delivered q) (hpop : q.pop = (some d, q')) :
    ∃ left, left + 1 = pending ∧ Stocked left (delivered + 1) q' := by
  obtain ⟨left, hleft, s'⟩ := s.call (step_pop hpop) nofun
  exact ⟨left, hleft, s'⟩

/-- What is handed out has the size of its resource. -/
theorem size_of_pop {d : Delivery ρ} (s : Stocked pending delivered q) (hpop : q.pop = (some d, q')) :
    d.size = Resource.size d.resource := by
  have hcall : (Call.pop : Call ρ).Weighs := nofun
  exact (s.sound.weighed_step s.weighed hcall (step_pop hpop)).2 d rfl

end Stocked

/-! ### How much waits for a target -/

omit [Resource ρ]

theorem pendingOf_plain (q : FairQueue ρ) (t : TargetId) :
    q.pendingOf t = (q.plain.account t).map (·.backlog.length) := by
  have hsize : (fun e : Entry ρ => e.backlog.size) = fun e => e.account.backlog.length := by
    funext e
    exact e.backlog.size_eq_length
  rw [pendingOf, hsize, account_plain, Option.map_map]
  rfl

/-- No more waits for a target than waits at all. -/
theorem pendingOf_le_pending {n : Nat} (h : Sound q) (ht : q.pendingOf t = some n) : n ≤ q.pending := by
  rw [pendingOf_plain] at ht
  obtain ⟨a, ha, rfl⟩ := Option.map_eq_some_iff.mp ht
  rw [h.pending]
  exact q.listed_plain.waiting_le_pending ha

/-- As much waits for each target when a priority is changed. -/
theorem pendingOf_setPriority {priority : Number.Single} (h : Sound q)
    (hset : q.setPriority t priority = .ok q') (u : TargetId) : q'.pendingOf u = q.pendingOf u := by
  have e := h.effect (step_setPriority Fair.cost hset)
  rw [pendingOf_plain, pendingOf_plain]
  generalize q'.plain = p' at e ⊢
  cases e with
  | quiet => rfl
  | reprioritised ht =>
    rw [PlainQueue.account_write]
    by_cases hut : u = t
    · rw [if_pos hut, hut, ht]
      rfl
    · rw [if_neg hut]

/-- As much waits for the other targets when one is removed. -/
theorem pendingOf_removeTarget {u : TargetId} {backlog : List ρ}
    (hremove : q.removeTarget t = .ok (backlog, q')) (hne : t ≠ u) : q'.pendingOf u = q.pendingOf u := by
  rw [removeTarget] at hremove
  cases he : q.targets.get? t with
  | none =>
    rw [he] at hremove
    cases hremove
  | some entry =>
    rw [he] at hremove
    cases hremove
    show ((q.targets.erase t).get? u).map _ = (q.targets.get? u).map _
    rw [Roster.get?_erase, if_neg hne]

end FairQueue

/-! ### What was accepted for it -/

/-- What was accepted under the number of a target is what was handed out under it, and then what waits. -/
theorem FairQueue.Supplies.accepted_eq {q : FairQueue ρ} {numbers : List (TargetId × Nat)}
    {accepted : Nat → List ρ} {handed : List (Delivery ρ)} (s : q.Supplies numbers accepted handed)
    {t : TargetId} {r : Nat} (ht : q.registrationOf t = some r) :
    accepted r = resourcesUnder r handed ++ q.backlogOf t := by
  obtain ⟨h, -, l, -, haccepted, rfl⟩ := s
  obtain ⟨entry, he, rfl⟩ := Option.map_eq_some_iff.mp ht
  have ha : q.plain.account t = some entry.account := by
    rw [account_plain, he, Option.map_some]
  have hrunning : acceptedUnder entry.registration h =
      poppedUnder entry.registration h ++ entry.backlog.toList := (l.running ha).1
  rw [← haccepted, hrunning, List.map_append, map_poppedUnder, backlogOf, he, Option.elim_some]

end Sluice
