import Sluice.Proofs.Delivery.Removal

/-!
# What a removal loses that is given up

A call that removes a target takes the backlog out of the queue and the sink out of the register before it waits
for the sink, so nobody else knows of them any more. `lost_when_abandoned` says, for every schedule, what becomes
of them when the call is given up meanwhile. The backlog is all that was accepted for the registration and not
taken out for delivery. It is neither queued nor counted: the counters, what is in transit, and the backlogs that
were answered or are withheld by removals in progress leave exactly these backlogs out. And the dismissal of the
sink is never done; it has begun if the call was inside.

Two invariants carry this. A registration that a call has taken out stays out (`Parted`), so nothing more is
accepted under it or taken out. And a sink whose dismissal is given up sees nothing but deliveries that had been
in its line before (`Forsaken`).
-/

namespace Sluice

open Fair (resourcesUnder resourcesUnder_append resourcesUnder_eq_nil)

namespace Deliverer

variable {ρ : Type} {d d' : Deliverer ρ} {h : List (Happening ρ)} {handed : List (Delivery ρ)}

/-! ### The record -/

/-- The backlog that a dismissal brings back. -/
def Errand.backlog : Errand ρ → List ρ
  | .deliver _ => []
  | .dismiss backlog => backlog

/-- The backlog that a call in progress has to answer with. -/
def Visit.withheld (v : Visit ρ) : List ρ :=
  match v.visitor with
  | .handler => []
  | .remover _ => v.errand.backlog

/-- The backlogs that the calls in progress have to answer with. -/
def withheld (d : Deliverer ρ) : List ρ := d.visits.flatMap (·.withheld)

namespace Happening

/-- The backlog that a call answers with. -/
def answeredWith (s : Happening ρ) : List ρ :=
  match s.reply with
  | .removed _ (.ok backlog) => backlog
  | _ => []

/-- The visit of a call that removes a target and is given up. -/
def abandoned (s : Happening ρ) : List (Visit ρ) :=
  match s.event with
  | .cancel call => (s.before.visitOf? (.remover call)).toList
  | _ => []

end Happening

/-- The backlogs that the calls answered with. -/
def returned (h : List (Happening ρ)) : List ρ := h.flatMap (·.answeredWith)

/-- The visits of the calls that remove targets and were given up. -/
def abandoned (h : List (Happening ρ)) : List (Visit ρ) := h.flatMap (·.abandoned)

section

variable (h : List (Happening ρ)) (s : Happening ρ)

theorem returned_snoc : returned (h ++ [s]) = returned h ++ s.answeredWith := by
  simp only [returned, List.flatMap_append, List.flatMap_singleton]

theorem abandoned_snoc : abandoned (h ++ [s]) = abandoned h ++ s.abandoned := by
  simp only [abandoned, List.flatMap_append, List.flatMap_singleton]

end

/-! ### What a turn adds -/

section

variable [Resource ρ] {event : Event ρ} {reply : Reply ρ}

/-- A call that begins to remove a target and sets out to its sink. -/
structure Removes (d : Deliverer ρ) (event : Event ρ) (d' : Deliverer ρ) (sink : Nat) (backlog : List ρ) :
    Prop where
  removes : ∃ call t, event = .remove call t ∧ d.sinks.get? t = some sink ∧
    d.queue.removeTarget t = .ok (backlog, d'.queue)

/-- How a visit has come about that is under way after an event. -/
inductive Arrival (d : Deliverer ρ) (event : Event ρ) (d' : Deliverer ρ) (w : Visit ρ) : Prop
  /-- It was under way before. -/
  | before {v : Visit ρ} : v ∈ d.visits → w.visitor = v.visitor → w.sink = v.sink → w.errand = v.errand →
      Arrival d event d' w
  | handler : d.attached w.sink → w.visitor = .handler → Arrival d event d' w
  | remover {backlog : List ρ} : d.attached w.sink → w.errand = .dismiss backlog →
      Removes d event d' w.sink backlog → Arrival d event d' w

theorem Turn.arrival (e : Turn d event reply d') {w : Visit ρ} (hw : w ∈ d'.visits) :
    Arrival d event d' w := by
  -- No visit is added.
  have fewer : ∀ {visits : List (Visit ρ)}, d'.visits = visits → (∀ v ∈ visits, v ∈ d.visits) →
      Arrival d event d' w := by
    intro visits hvisits hsub
    rw [hvisits] at hw
    exact .before (hsub w hw) rfl rfl rfl
  have ends : ∀ {visitor : Visitor}, ∀ v ∈ (d.endVisit visitor).visits, v ∈ d.visits :=
    fun _ => List.mem_of_mem_filter
  -- One visit is added.
  have more : ∀ {visits : List (Visit ρ)} {v : Visit ρ}, d'.visits = visits ++ [v] →
      (∀ u ∈ visits, u ∈ d.visits) → Arrival d event d' v → Arrival d event d' w := by
    intro visits v hvisits hsub harrival
    rw [hvisits] at hw
    rcases List.mem_append.mp hw with hw | hw
    · exact .before (hsub w hw) rfl rfl rfl
    · rw [List.mem_singleton.mp hw]
      exact harrival
  cases e with
  | aside _ k => exact fewer k.visits fun _ => id
  | enrolled => exact fewer rfl fun _ => id
  | reprioritised => exact fewer rfl fun _ => id
  | submitted _ _ k => exact fewer k.visits fun _ => id
  | removed => exact fewer rfl fun _ => id
  | @removing call t r sink backlog queue d' _ hremove hsink k =>
    refine more k.visits (fun _ => id) (.remover (.inl ⟨t, hsink⟩) rfl ⟨call, t, rfl, hsink, ?_⟩)
    rw [k.queue]
    exact hremove
  | abandoned _ k => exact fewer k.visits ends
  | peeked _ _ k => exact fewer k.visits fun _ => id
  | taken _ _ _ _ _ _ k => exact fewer k.visits fun _ => id
  | setOut _ _ _ _ hsink => exact more rfl (fun _ => id) (.handler (.inl ⟨_, hsink⟩) rfl)
  | late _ _ _ _ _ k => exact fewer k.visits fun _ => id
  | closing => exact fewer rfl fun _ => id
  | entered =>
    obtain ⟨v, hv, rfl⟩ := List.mem_map.mp hw
    split
    · exact .before hv rfl rfl rfl
    · exact .before hv rfl rfl rfl
  | accepted _ _ _ k => exact fewer k.visits ends
  | gone _ _ _ _ k => exact fewer k.visits ends
  | orphaned _ _ _ _ _ _ k => exact fewer k.visits ends
  | foundClosed _ _ _ _ _ hsink k => exact more k.visits ends (.handler (.inl ⟨_, hsink⟩) rfl)
  | dismissed _ _ _ k => exact fewer k.visits ends
  | returned _ _ _ k => exact fewer k.visits ends
  | dismissing _ _ hmem => exact more rfl (fun _ => id) (.handler (.inr hmem) rfl)
  | ended => exact fewer rfl fun _ => id

/-- A sink that is attached after a turn was so before, or it is new. -/
theorem Turn.of_attached (o : Orderly h handed d) (e : Turn d event reply d') {sink : Nat}
    (hattached : d'.attached sink) : d.attached sink ∨ ¬ Known h sink := by
  -- The same sinks are left, and no sink is added to the register.
  have fewer : d'.leaving = d.leaving → (∀ t, d'.sinks.get? t = some sink → d.sinks.get? t = some sink) →
      d.attached sink ∨ ¬ Known h sink := by
    intro hleaving hsub
    rcases hattached with ⟨t, ht⟩ | hmem
    · exact .inl (.inl ⟨t, hsub t ht⟩)
    · rw [hleaving] at hmem
      exact .inl (.inr hmem)
  have same : ∀ {sinks : Roster Nat}, d'.sinks = sinks → sinks = d.sinks →
      ∀ t, d'.sinks.get? t = some sink → d.sinks.get? t = some sink := by
    intro sinks hsinks hbefore t ht
    rw [hsinks, hbefore] at ht
    exact ht
  have erased : ∀ {u : TargetId}, d'.sinks = d.sinks.erase u →
      ∀ t, d'.sinks.get? t = some sink → d.sinks.get? t = some sink := by
    intro u hsinks t ht
    rw [hsinks, Roster.get?_erase] at ht
    split at ht
    · cases ht
    · exact ht
  cases e with
  | aside _ k => exact fewer k.leaving (same k.sinks rfl)
  | @enrolled u priority r queue _ hadd =>
    rcases hattached with ⟨t, ht⟩ | hmem
    · have ht' : (d.sinks.set u r).get? t = some sink := ht
      rw [Roster.get?_set] at ht'
      split at ht'
      · obtain rfl := Option.some.inj ht'
        exact .inr fun ⟨v, hv⟩ => (o.supplies.addTarget hadd).2 v hv
      · exact .inl (.inl ⟨t, ht'⟩)
    · exact .inl (.inr hmem)
  | reprioritised => exact fewer rfl (same rfl rfl)
  | submitted _ _ k => exact fewer k.leaving (same k.sinks rfl)
  | removed => exact fewer rfl (erased rfl)
  | removing _ _ _ k => exact fewer k.leaving (erased k.sinks)
  | abandoned _ k => exact fewer k.leaving (same k.sinks rfl)
  | peeked _ _ k => exact fewer k.leaving (same k.sinks rfl)
  | taken _ _ _ _ _ _ k => exact fewer k.leaving (same k.sinks rfl)
  | setOut => exact fewer rfl (same rfl rfl)
  | late _ _ _ _ _ k => exact fewer k.leaving (same k.sinks rfl)
  | closing =>
    rcases hattached with ⟨t, ht⟩ | hmem
    · cases (Roster.get?_empty t).symm.trans ht
    · exact .inl (.inl (Roster.mem_values.mp hmem))
  | entered => exact fewer rfl (same rfl rfl)
  | accepted _ _ _ k => exact fewer k.leaving (same k.sinks rfl)
  | gone _ _ _ _ k => exact fewer k.leaving (same k.sinks rfl)
  | orphaned _ _ _ _ _ _ k => exact fewer k.leaving (erased k.sinks)
  | foundClosed _ _ _ _ _ _ k => exact fewer k.leaving (erased k.sinks)
  | dismissed _ _ _ k => exact fewer k.leaving (same k.sinks rfl)
  | returned _ _ _ k => exact fewer k.leaving (same k.sinks rfl)
  | dismissing =>
    rcases hattached with hsink | hmem
    · exact .inl (.inl hsink)
    · exact .inl (.inr (List.mem_of_mem_erase hmem))
  | ended => exact fewer rfl (same rfl rfl)

/-- What a turn takes out of the queue was queued for a registered target. -/
theorem Turn.taken_registered (o : Orderly h handed d) (e : Turn d event reply d') :
    ∀ x ∈ (⟨d, event, reply, d'⟩ : Happening ρ).taken,
      d.queue.registrationOf x.target = some x.registration := by
  have none : (⟨d, event, reply, d'⟩ : Happening ρ).taken = [] →
      ∀ x ∈ (⟨d, event, reply, d'⟩ : Happening ρ).taken,
        d.queue.registrationOf x.target = some x.registration := by
    intro hnone x hx
    rw [hnone] at hx
    cases hx
  cases e with
  | aside hsilent => exact none hsilent.taken
  | peeked _ _ k => exact none (Happening.taken_eq_nil (k.processor o.unclosed).underway)
  | @taken head queue queue' delivery processor d' _ hpeek hpop hopen htaken _ k =>
    have htaken' : (⟨d, .ask, .quiet, d'⟩ : Happening ρ).taken = [delivery] :=
      taken_of_ask ((k.processor hopen).underway.trans htaken)
    rw [htaken']
    intro x hx
    obtain rfl := List.mem_singleton.mp hx
    obtain rfl : d.queue.peek.2 = queue := congrArg Prod.snd hpeek
    have hpeeked : d.queue.peek.2.registrationOf = d.queue.registrationOf :=
      o.supplies.sound.registrationOf (FairQueue.step_peek Fair.cost d.queue)
    rw [← hpeeked]
    exact o.supplies.peek.sound.registrationOf_of_pop hpop
  | _ => exact none rfl

omit [Resource ρ] in
/-- What is accepted while a sink is registered is accepted for the registration that the queue knows. -/
theorem Orderly.submitted_registered (o : Orderly h handed d) {x : Submission ρ} {r : Nat}
    (hx : x ∈ (⟨d, event, reply, d'⟩ : Happening ρ).submitted) (hr : x.sink = some r) :
    d.queue.registrationOf x.target = some r := by
  unfold Happening.submitted at hx
  split at hx
  · obtain rfl := List.mem_singleton.mp hx
    exact o.registrationOf hr
  · cases hx

/-! ### Registrations that were taken out -/

/-- A registration that a call has taken out to dismiss its sink. The backlog that the visit brings back is all
that was accepted for it and not taken out for delivery. -/
structure Parted (h : List (Happening ρ)) (d : Deliverer ρ) (v : Visit ρ) : Prop where
  unregistered : ∀ t, d.queue.registrationOf t ≠ some v.sink
  known : Known h v.sink
  backlog : submittedUnder v.sink h = resourcesUnder v.sink (takenOut h) ++ v.errand.backlog

omit [Resource ρ] in
theorem Parted.of_same {v w : Visit ρ} (x : Parted h d v) (hsink : w.sink = v.sink)
    (herrand : w.errand = v.errand) : Parted h d w := by
  constructor
  · rw [hsink]
    exact x.unregistered
  · rw [hsink]
    exact x.known
  · rw [hsink, herrand]
    exact x.backlog

/-- A registration that was taken out stays out. -/
theorem Parted.turn {v : Visit ρ} (x : Parted h d v) (o : Orderly h handed d)
    (e : Turn d event reply d') : Parted (h ++ [⟨d, event, reply, d'⟩]) d' v where
  unregistered t ht := x.unregistered t ((e.origin o ht).before x.known)
  known := x.known.snoc
  backlog := by
    have hsubmitted : (⟨d, event, reply, d'⟩ : Happening ρ).submitted.filter (·.sink == some v.sink) =
        [] := by
      rw [List.filter_eq_nil_iff]
      intro a ha hsink
      exact x.unregistered a.target (o.submitted_registered ha (eq_of_beq hsink))
    have htaken : resourcesUnder v.sink (⟨d, event, reply, d'⟩ : Happening ρ).taken = [] := by
      refine resourcesUnder_eq_nil fun a ha hsink => x.unregistered a.target ?_
      rw [← hsink]
      exact e.taken_registered o a ha
    rw [submittedUnder_snoc, hsubmitted, List.map_nil, List.append_nil, takenOut_snoc,
      resourcesUnder_append, htaken, List.append_nil]
    exact x.backlog

/-- A call begins to remove a target. -/
theorem Parted.of_removes {v : Visit ρ} {backlog : List ρ} (o : Orderly h handed d)
    (hsupplies : d.queue.Supplies (registrations h) (fun r => submittedUnder r h) (takenOut h))
    (herrand : v.errand = .dismiss backlog) (r : Removes d event d' v.sink backlog)
    (e : Turn d event reply d') : Parted (h ++ [⟨d, event, reply, d'⟩]) d' v := by
  obtain ⟨call, t, rfl, hsink, hremove⟩ := r.removes
  have hr := o.registrationOf hsink
  have hnumbers : ∀ u, d'.queue.registrationOf u = if u = t then none else d.queue.registrationOf u :=
    congrFun (o.supplies.sound.registrationOf (FairQueue.step_removeTarget Fair.cost hremove))
  constructor
  · intro u hu
    rw [hnumbers] at hu
    split at hu
    · cases hu
    · next hne =>
      exact hne (o.supplies.target_unique (o.supplies.mem_numbers hu) (o.supplies.mem_numbers hr))
  · exact (o.known hsink).snoc
  · rw [submittedUnder_snoc_nil h _ rfl, takenOut_snoc_nil h rfl, herrand]
    show _ = _ ++ backlog
    rw [FairQueue.eq_backlogOf_of_removeTarget hremove]
    exact hsupplies.accepted_eq hr

/-- How the removals stand that are in progress or were given up. -/
structure Removals (h : List (Happening ρ)) (d : Deliverer ρ) : Prop where
  supplies : d.queue.Supplies (registrations h) (fun r => submittedUnder r h) (takenOut h)
  underway : ∀ v ∈ d.visits, v.visitor ≠ .handler → Parted h d v
  abandoned : ∀ v ∈ abandoned h, Parted h d v

omit [Resource ρ] in
/-- What is given up was in progress. -/
theorem Happening.mem_abandoned {s : Happening ρ} {v : Visit ρ} (hv : v ∈ s.abandoned) :
    ∃ call, s.event = .cancel call ∧ s.before.visitOf? (.remover call) = some v := by
  unfold Happening.abandoned at hv
  split at hv
  · next call hevent => exact ⟨call, hevent, Option.mem_toList.mp hv⟩
  · cases hv

omit [Resource ρ] in
theorem Silent.abandoned {s : Happening ρ} (hsilent : Silent s) : s.abandoned = [] := by
  rw [List.eq_nil_iff_forall_not_mem]
  intro v hv
  obtain ⟨call, hevent, hv⟩ := Happening.mem_abandoned hv
  have hgivenUp := hsilent.givenUp
  rw [Happening.givenUp, hevent] at hgivenUp
  simp only [hv] at hgivenUp
  cases hgivenUp

theorem Removals.turn (x : Removals h d) (o : Orderly h handed d) (e : Turn d event reply d') :
    Removals (h ++ [⟨d, event, reply, d'⟩]) d' where
  supplies := e.supplies o x.supplies
  underway w hw hremover := by
    cases e.arrival hw with
    | before hv hvisitor hsink herrand =>
      rw [hvisitor] at hremover
      exact ((x.underway _ hv hremover).turn o e).of_same hsink herrand
    | handler _ hhandler => exact absurd hhandler hremover
    | remover _ herrand r => exact .of_removes o x.supplies herrand r e
  abandoned v hv := by
    rw [abandoned_snoc] at hv
    rcases List.mem_append.mp hv with hv | hv
    · exact (x.abandoned v hv).turn o e
    · obtain ⟨call, -, hv⟩ := Happening.mem_abandoned hv
      obtain ⟨hmem, hvisitor⟩ := mem_of_visitOf? hv
      refine (x.underway v hmem ?_).turn o e
      rw [hvisitor]
      exact Orderly.remover_ne call

/-! ### Sinks whose dismissal was given up -/

/-- A sink whose dismissal was given up: nobody will set out to it, and who still visits it brings a resource. -/
structure Forsaken (h : List (Happening ρ)) (d : Deliverer ρ) (v : Visit ρ) : Prop where
  unattached : ¬ d.attached v.sink
  deliveries : ∀ w ∈ d.visits, w.sink = v.sink → w.delivers = true
  unreleased : .released ∉ seen v.sink h
  dismissed : .dismissed ∈ seen v.sink h ↔ v.inside = true

/-- Neither the beginning nor the end of a dismissal is among what a sink sees. -/
def NoDismissal (sightings : List (Sighting ρ)) : Prop :=
  .released ∉ sightings ∧ .dismissed ∉ sightings

omit [Resource ρ] in
theorem noDismissal_nil : NoDismissal ([] : List (Sighting ρ)) := ⟨List.not_mem_nil, List.not_mem_nil⟩

/-- A sink to which nobody brings a dismissal sees none. -/
theorem Turn.noDismissal {sink : Nat} (e : Turn d event reply d')
    (hdeliveries : ∀ w ∈ d.visits, w.sink = sink → w.delivers = true) :
    NoDismissal ((⟨d, event, reply, d'⟩ : Happening ρ).sightings sink) := by
  -- A visit ends or begins, which is none to the sink or brings a resource.
  have visit : ∀ {visitor : Visitor} {v : Visit ρ} (sees : Visit ρ → List (Sighting ρ)),
      d.visitOf? visitor = some v → (v.delivers = true → NoDismissal (sees v)) →
      NoDismissal (d.sightingOf visitor sink sees) := by
    intro visitor v sees hv hsees
    rw [sightingOf_visit hv]
    split
    · next hsink => exact hsees (hdeliveries v (mem_of_visitOf? hv).1 hsink)
    · exact noDismissal_nil
  have answers : ∀ {v : Visit ρ} {outcome : DeliveryOutcome}, d.visitOf? .handler = some v →
      NoDismissal (d.sightingOf .handler sink fun _ => [.answered outcome]) := by
    intro v outcome hv
    refine visit _ hv fun _ => ?_
    simp [NoDismissal]
  -- Whose dismissal is done is not this sink.
  have releases : ∀ {visitor : Visitor} {v : Visit ρ} {backlog : List ρ}, d.visitOf? visitor = some v →
      v.errand = .dismiss backlog → NoDismissal (d.sightingOf visitor sink fun _ => [.released]) := by
    intro visitor v backlog hv herrand
    refine visit _ hv fun hdelivers => ?_
    cases (Visit.delivers_eq_false.mpr ⟨backlog, herrand⟩).symm.trans hdelivers
  cases e with
  | aside hsilent =>
    rw [hsilent.sightings]
    exact noDismissal_nil
  | abandoned hv =>
    refine visit _ hv fun _ => ?_
    split <;> simp [NoDismissal]
  | entered hv =>
    refine visit _ hv fun hdelivers => ?_
    obtain ⟨delivery, herrand⟩ := Visit.delivers_eq_true.mp hdelivers
    simp [NoDismissal, Visit.opening, herrand]
  | accepted hv => exact answers hv
  | gone hv => exact answers hv
  | orphaned hv => exact answers hv
  | foundClosed hv => exact answers hv
  | dismissed hv herrand => exact releases hv herrand
  | returned hv herrand => exact releases hv herrand
  | _ => exact noDismissal_nil

/-- Nobody sets out any more to a sink whose dismissal was given up. -/
theorem Forsaken.turn {v : Visit ρ} (x : Forsaken h d v) (hknown : Known h v.sink)
    (o : Orderly h handed d) (e : Turn d event reply d') :
    Forsaken (h ++ [⟨d, event, reply, d'⟩]) d' v := by
  obtain ⟨hreleased, hdismissed⟩ := e.noDismissal x.deliveries
  constructor
  · intro hattached
    rcases e.of_attached o hattached with hbefore | hnew
    · exact x.unattached hbefore
    · exact hnew hknown
  · intro w hw hsink
    have unattached : ¬ d.attached w.sink := by
      rw [hsink]
      exact x.unattached
    cases e.arrival hw with
    | before hu _ hsame herrand =>
      have hdelivers := x.deliveries _ hu (hsame.symm.trans hsink)
      rw [Visit.delivers, herrand]
      exact hdelivers
    | handler hattached => exact absurd hattached unattached
    | remover hattached => exact absurd hattached unattached
  · rw [seen_snoc]
    exact fun hmem => (List.mem_append.mp hmem).elim x.unreleased hreleased
  · rw [seen_snoc, List.mem_append, or_iff_left hdismissed]
    exact x.dismissed

omit [Resource ρ] in
theorem dismissed_not_mem_served (rounds : List (ρ × DeliveryOutcome)) : .dismissed ∉ served rounds := by
  rw [served, List.mem_flatMap]
  rintro ⟨round, -, hmem⟩
  simp at hmem

omit [Resource ρ] in
/-- What a sink has seen by the time its dismissal is given up. -/
theorem Attended.dismissed_iff {attached : Prop} {line : List (Visit ρ)} {seen : List (Sighting ρ)}
    {v : Visit ρ} (a : Attended attached line seen) (hv : v ∈ line) (hdismissal : v.delivers = false) :
    .dismissed ∈ seen ↔ v.inside = true := by
  obtain ⟨rounds, hseen | ⟨hnil, -⟩⟩ := a.seen_eq
  · rw [hseen, List.mem_append, or_iff_right (dismissed_not_mem_served rounds)]
    obtain ⟨before, rfl⟩ := a.eq_of_dismissal hv hdismissal
    cases before with
    | nil =>
      obtain ⟨backlog, herrand⟩ := Visit.delivers_eq_false.mp hdismissal
      show _ ∈ (if v.inside then [v.opening] else []) ↔ _
      rw [Visit.opening, herrand]
      cases v.inside with
      | true => simp
      | false => simp
    | cons w before =>
      -- The first of the line is another one, and it brings a resource.
      obtain ⟨hdelivers, -, hout⟩ := (List.pairwise_cons.mp a.ordered).1 v
        (List.mem_append_right _ (List.mem_singleton.mpr rfl))
      obtain ⟨delivery, herrand⟩ := Visit.delivers_eq_true.mp hdelivers
      show _ ∈ (if w.inside then [w.opening] else []) ↔ _
      rw [Visit.opening, herrand, hout]
      cases w.inside with
      | true => simp
      | false => simp
  · rw [hnil] at hv
    exact absurd hv List.not_mem_nil

omit [Resource ρ] in
/-- The dismissal of a sink is given up. -/
theorem Forsaken.of_cancel {call : CallId} {v : Visit ρ} (x : Hosted h d)
    (hv : d.visitOf? (.remover call) = some v) (hdismissal : v.delivers = false)
    (k : Aside (d.endVisit (.remover call)) d') :
    Forsaken (h ++ [⟨d, .cancel call, reply, d'⟩]) d' v := by
  obtain ⟨hmem, hvisitor⟩ := mem_of_visitOf? hv
  have hline : v ∈ d.line v.sink := mem_line.mpr ⟨hmem, rfl⟩
  have a := x.attended v.sink
  have hsightings : (⟨d, .cancel call, reply, d'⟩ : Happening ρ).sightings v.sink =
      if v.inside then [.cutOff] else [] := (sightingOf_visit hv v.sink _).trans (if_pos rfl)
  constructor
  · intro hattached
    rw [attached, k.sinks, k.leaving] at hattached
    cases (a.delivers hattached v hline).symm.trans hdismissal
  · intro w hw hsink
    rw [k.visits] at hw
    obtain ⟨hwmem, hother⟩ := List.mem_filter.mp hw
    obtain ⟨before, hbefore⟩ := a.eq_of_dismissal hline hdismissal
    have hwline : w ∈ d.line v.sink := mem_line.mpr ⟨hwmem, hsink⟩
    have hordered := a.ordered
    rw [hbefore] at hwline hordered
    rcases List.mem_append.mp hwline with hw | hw
    · exact ((List.pairwise_append.mp hordered).2.2 w hw v (List.mem_singleton.mpr rfl)).1
    · rw [List.mem_singleton.mp hw, hvisitor] at hother
      exact absurd rfl (bne_iff_ne.mp hother)
  · rw [seen_snoc, hsightings]
    intro hreleased
    rcases List.mem_append.mp hreleased with hreleased | hreleased
    · rw [(a.gone_of_released hreleased).1] at hline
      exact absurd hline List.not_mem_nil
    · split at hreleased
      · simp at hreleased
      · cases hreleased
  · rw [seen_snoc, hsightings, List.mem_append, or_iff_left]
    · exact a.dismissed_iff hline hdismissal
    · split
      · simp
      · exact List.not_mem_nil

/-! ### Where the backlogs are -/

omit [Resource ρ] in
/-- The handler has nothing to answer with. -/
theorem withheld_endVisit_handler (d : Deliverer ρ) : (d.endVisit .handler).withheld = d.withheld := by
  show (d.visits.filter _).flatMap _ = d.visits.flatMap _
  induction d.visits with
  | nil => rfl
  | cons v rest ih =>
    rw [List.filter_cons, List.flatMap_cons, ← ih]
    split
    · rw [List.flatMap_cons]
    · next hhandler =>
      have hvisitor : v.visitor = .handler := by simpa using hhandler
      rw [Visit.withheld, hvisitor]
      rfl

omit [Resource ρ] in
theorem withheld_visit (d : Deliverer ρ) (visitor : Visitor) (sink : Nat) (errand : Errand ρ) :
    (d.visit visitor sink errand).withheld =
      d.withheld ++ ({ visitor, sink, errand } : Visit ρ).withheld := by
  show (d.visits ++ [_]).flatMap _ = d.visits.flatMap _ ++ _
  rw [List.flatMap_append, List.flatMap_singleton]

omit [Resource ρ] in
theorem withheld_letIn (d : Deliverer ρ) (visitor : Visitor) : (d.letIn visitor).withheld = d.withheld := by
  show (d.visits.map _).flatMap _ = d.visits.flatMap _
  rw [List.flatMap_map]
  congr 1
  funext v
  split <;> rfl

omit [Resource ρ] in
/-- A call ends that had to answer with a backlog. -/
theorem length_withheld_endVisit (hnodup : (d.visits.map (·.visitor)).Nodup) {call : CallId}
    {v : Visit ρ} (hv : d.visitOf? (.remover call) = some v) :
    d.withheld.length = (d.endVisit (.remover call)).withheld.length + v.errand.backlog.length := by
  obtain ⟨hmem, hvisitor⟩ := mem_of_visitOf? hv
  obtain ⟨before, rest, hsplit⟩ := List.append_of_mem hmem
  have hv' : v.withheld = v.errand.backlog := by rw [Visit.withheld, hvisitor]
  have hended : (d.endVisit (.remover call)).visits = before ++ rest := by
    rw [hsplit] at hnodup
    show d.visits.filter _ = _
    rw [← hvisitor, hsplit]
    exact filter_visitor_ne hnodup
  rw [withheld, withheld, hended, hsplit, List.flatMap_append, List.flatMap_cons, hv',
    List.flatMap_append]
  simp only [List.length_append]
  omega

omit [Resource ρ] in
theorem Aside.withheld (k : Aside d d') : d'.withheld = d.withheld := by
  rw [Deliverer.withheld, Deliverer.withheld, k.visits]

/-- A call that answers with a backlog leaves a trace in the record, unless the backlog is empty. -/
theorem Effect.answeredWith_eq_nil (e : Effect d event reply d')
    (hsilent : Silent ⟨d, event, reply, d'⟩) :
    (⟨d, event, reply, d'⟩ : Happening ρ).answeredWith = [] := by
  cases e with
  | @removed call t r backlog queue _ _ hremove =>
    exact (FairQueue.eq_backlogOf_of_removeTarget hremove).trans hsilent.withdrawn
  | @returned call v backlog hv =>
    have hsightings := (sightingOf_visit hv v.sink fun _ => [.released]).symm.trans (hsilent.sightings v.sink)
    rw [if_pos rfl] at hsightings
    cases hsightings
  | _ => rfl

/-- What the removals hold back before an event, or take along in it, is what they answer with, what is lost with
those that are given up, and what they hold back then. -/
def Happening.Settles (s : Happening ρ) : Prop :=
  s.before.withheld.length + s.withdrawn.length =
    s.answeredWith.length + (s.abandoned.flatMap (·.errand.backlog)).length + s.after.withheld.length

omit [Resource ρ] in
/-- No removal begins or ends. -/
theorem Happening.settles_of_none {s : Happening ρ} (hwithdrawn : s.withdrawn = [])
    (hanswered : s.answeredWith = []) (habandoned : s.abandoned = [])
    (hwithheld : s.after.withheld = s.before.withheld) : s.Settles := by
  rw [Settles, hwithdrawn, hanswered, habandoned, hwithheld]
  exact (Nat.zero_add _).symm

theorem Effect.settles (o : Orderly h handed d) (hnodup : (d.visits.map (·.visitor)).Nodup)
    (e : Effect d event reply d') : (⟨d, event, reply, d'⟩ : Happening ρ).Settles := by
  have still := Happening.settles_of_none (s := ⟨d, event, reply, d'⟩)
  have answered := e.answeredWith_eq_nil
  cases e.turn o with
  | aside hsilent k =>
    exact still hsilent.withdrawn (answered hsilent) hsilent.abandoned k.withheld
  | enrolled => exact still rfl rfl rfl rfl
  | reprioritised => exact still rfl rfl rfl rfl
  | submitted _ _ k => exact still rfl rfl rfl k.withheld
  | @removed call t r backlog queue _ hremove =>
    show d.withheld.length + (d.queue.backlogOf t).length = backlog.length + 0 + d.withheld.length
    rw [FairQueue.eq_backlogOf_of_removeTarget hremove]
    omega
  | @removing call t r sink backlog queue d' _ hremove _ k =>
    have hwithheld : d'.withheld = d.withheld ++ backlog := k.withheld.trans (withheld_visit _ _ _ _)
    show d.withheld.length + (d.queue.backlogOf t).length = 0 + 0 + d'.withheld.length
    rw [hwithheld, List.length_append, FairQueue.eq_backlogOf_of_removeTarget hremove]
    omega
  | @abandoned call v d' hv k =>
    have hwithheld := length_withheld_endVisit hnodup hv
    show d.withheld.length + 0 =
      0 + ((d.visitOf? (.remover call)).toList.flatMap (·.errand.backlog)).length + d'.withheld.length
    rw [hv, Option.toList_some, List.flatMap_singleton, k.withheld, hwithheld]
    omega
  | peeked _ _ k => exact still rfl rfl rfl k.withheld
  | taken _ _ _ _ _ _ k => exact still rfl rfl rfl k.withheld
  | setOut => exact still rfl rfl rfl ((withheld_visit _ _ _ _).trans (List.append_nil _))
  | late _ _ _ _ _ k => exact still rfl rfl rfl k.withheld
  | closing => exact still rfl rfl rfl rfl
  | entered => exact still rfl rfl rfl (d.withheld_letIn _)
  | accepted _ _ _ k => exact still rfl rfl rfl (k.withheld.trans d.withheld_endVisit_handler)
  | gone _ _ _ _ k => exact still rfl rfl rfl (k.withheld.trans d.withheld_endVisit_handler)
  | orphaned _ _ _ _ _ _ k => exact still rfl rfl rfl (k.withheld.trans d.withheld_endVisit_handler)
  | foundClosed _ _ _ _ _ _ k =>
    refine still rfl rfl rfl ((k.withheld.trans (withheld_visit _ _ _ _)).trans ?_)
    exact (List.append_nil _).trans d.withheld_endVisit_handler
  | dismissed _ _ _ k => exact still rfl rfl rfl (k.withheld.trans d.withheld_endVisit_handler)
  | @returned call v backlog d' hv herrand _ k =>
    have hwithheld := length_withheld_endVisit hnodup hv
    rw [herrand] at hwithheld
    show d.withheld.length + 0 = backlog.length + 0 + d'.withheld.length
    rw [k.withheld, hwithheld]
    show _ + backlog.length + 0 = _
    omega
  | dismissing => exact still rfl rfl rfl ((withheld_visit _ _ _ _).trans (List.append_nil _))
  | ended => exact still rfl rfl rfl rfl

/-! ### What is lost -/

/-- What has become of the removals that were given up. -/
structure Abandonments (h : List (Happening ρ)) (d : Deliverer ρ) : Prop where
  hosted : Hosted h d
  holdings : (withdrawn h).length = (returned h).length +
    ((abandoned h).flatMap (·.errand.backlog)).length + d.withheld.length
  forsaken : ∀ v ∈ abandoned h, Forsaken h d v

omit [Resource ρ] in
theorem Abandonments.ofSettings (settings : DelivererSettings) :
    Abandonments [] (Deliverer.ofSettings settings : Deliverer ρ) where
  hosted := .ofSettings settings
  holdings := rfl
  forsaken _ hv := absurd hv List.not_mem_nil

theorem Abandonments.effect (x : Abandonments h d) (o : Orderly h handed d) (p : Parting d)
    (r : Removals h d) (hfresh : (⟨d, event, reply, d'⟩ : Happening ρ).isFresh = true)
    (e : Effect d event reply d') : Abandonments (h ++ [⟨d, event, reply, d'⟩]) d' where
  hosted := (e.turn o).hosted o p x.hosted hfresh
  holdings := by
    have hbefore := x.holdings
    have hnow : d.withheld.length + _ = _ + _ + d'.withheld.length := e.settles o x.hosted.visitors
    rw [withdrawn_snoc, returned_snoc, abandoned_snoc, List.flatMap_append]
    simp only [List.length_append]
    omega
  forsaken v hv := by
    rw [abandoned_snoc] at hv
    rcases List.mem_append.mp hv with hv | hv
    · exact (x.forsaken v hv).turn (r.abandoned v hv).known o (e.turn o)
    · obtain ⟨call, hevent, hvisit⟩ := Happening.mem_abandoned hv
      obtain rfl : event = .cancel call := hevent
      cases e.turn o with
      | aside hsilent =>
        rw [hsilent.abandoned] at hv
        cases hv
      | abandoned _ k => exact .of_cancel x.hosted hvisit (o.dismisses hvisit) k

theorem removals_after (settings : DelivererSettings) (events : List (Event ρ)) :
    let h := happenings settings events
    let d := (Deliverer.ofSettings settings).after events
    Removals h d ∧ ((∀ s ∈ h, s.isFresh = true) → Abandonments h d) := by
  have run : Parting ((Deliverer.ofSettings settings).after events) ∧
      Removals (happenings settings events) ((Deliverer.ofSettings settings).after events) ∧
      ((∀ s ∈ happenings settings events, s.isFresh = true) →
        Abandonments (happenings settings events) ((Deliverer.ofSettings settings).after events)) := by
    refine effect_induction (P := fun h d => Parting d ∧ Removals h d ∧
      ((∀ s ∈ h, s.isFresh = true) → Abandonments h d))
      ⟨.ofSettings settings, ?_, fun _ => .ofSettings settings⟩ ?_ events
    · exact ⟨.ofSettings settings.queue, fun _ hv => absurd hv List.not_mem_nil,
        fun _ hv => absurd hv List.not_mem_nil⟩
    · rintro h handed d event reply d' o - ⟨p, r, x⟩ e
      refine ⟨(e.turn o).parting o p, r.turn o (e.turn o), fun hfresh => ?_⟩
      have x' : Abandonments h d := x fun s hs => hfresh s (List.mem_append_left _ hs)
      exact x'.effect o p r (hfresh _ (List.mem_append_right _ (List.mem_singleton.mpr rfl))) e
  exact run.2

/-- Whatever the schedule, in which the calls that remove targets are told apart by their numbers: what was
accepted was delivered or dropped, it waits in the queue or is in transit, a removal has answered with it or
will, or it was in the backlog of a removal that was given up. Such a backlog is all that was accepted for the
registration and not taken out for delivery, the registration is gone, and the dismissal of its sink is not
done and never will be; it has begun only if the sink had been called by the time the removal was given up. -/
theorem lost_when_abandoned (settings : DelivererSettings) (events : List (Event ρ))
    (hfresh : ∀ s ∈ happenings settings events, s.isFresh = true) :
    let h := happenings settings events
    let d := (Deliverer.ofSettings settings).after events
    (submissions h).length = d.stats.deliveredResources + d.stats.dropped + d.stats.pending +
        d.inTransit.length + (returned h).length + d.withheld.length +
        ((abandoned h).flatMap (·.errand.backlog)).length ∧
      ∀ v ∈ abandoned h, Parted h d v ∧ Forsaken h d v := by
  intro h d
  have b : Books h d := .after settings events
  obtain ⟨r, habandonments⟩ := removals_after settings events
  have x : Abandonments h d := habandonments hfresh
  refine ⟨?_, fun v hv => ⟨r.abandoned v hv, x.forsaken v hv⟩⟩
  have hentered := b.entered
  have htransit := congrArg List.length b.transit
  have hfates := length_fates h
  have hdelivered := b.delivered
  have hdropped := b.dropped
  have hholdings := x.holdings
  rw [List.length_append, List.length_map] at htransit
  show _ = d.deliveredResources + d.dropped + d.queue.pending + _ + _ + _ + _
  omega

end

/-- A schedule in which two removals are given up, and then the deliverer is stopped. The first one waits for a
delivery to its sink to end, the second one is dismissing its sink. -/
def changesOfMind : List (Event (List UInt8)) :=
  [.addTarget ⟨1⟩ ⟨0x3f800000⟩, .addTarget ⟨2⟩ ⟨0x3f800000⟩,
    .submit ⟨1⟩ [10], .submit ⟨1⟩ [11], .submit ⟨1⟩ [12], .submit ⟨2⟩ [20],
    .look, .ask, .receive, .enter .handler, .remove 5 ⟨1⟩, .cancel 5, .deliverReturns .accepted,
    .remove 6 ⟨2⟩, .enter (.remover 6), .cancel 6,
    .stop 7, .look, .ask, .readerLeaves, .readerFinishes, .receive, .handlerFinishes,
    .advanceLine, .advanceLine, .advanceLine]

theorem lost_when_abandoned_changesOfMind :
    let h := happenings .small changesOfMind
    let d := (Deliverer.ofSettings .small).after changesOfMind
    (∀ s ∈ h, s.isFresh = true) ∧
      (submissions h).length = d.stats.deliveredResources + d.stats.dropped + d.stats.pending +
        d.inTransit.length + (returned h).length + d.withheld.length +
        ((abandoned h).flatMap (·.errand.backlog)).length ∧
      (abandoned h).length = 2 ∧ ∀ v ∈ abandoned h, Parted h d v ∧ Forsaken h d v := by
  have hfresh : ∀ s ∈ happenings .small changesOfMind, s.isFresh = true := by decide +kernel
  obtain ⟨haccounted, hlost⟩ := lost_when_abandoned .small changesOfMind hfresh
  exact ⟨hfresh, haccounted, by decide +kernel, hlost⟩

/-- Three resources have gone when the call has returned that stops the deliverer: they are not queued, and
nothing is counted as dropped. The first sink is not dismissed, and the dismissal of the second is cut off. -/
theorem lost_changesOfMind :
    let h := happenings .small changesOfMind
    let d := (Deliverer.ofSettings .small).after changesOfMind
    (submissions h).length = 4 ∧ d.stats = ⟨0, 0, 1, 1, 0, 0⟩ ∧
      (abandoned h).map (·.errand.backlog) = [[[11], [12]], [[20]]] ∧
      (∃ s ∈ h, ∃ stats, s.reply = .stopped 7 stats) ∧
      seen 1 h = [.called [10], .answered .accepted] ∧ seen 2 h = [.dismissed, .cutOff] := by
  intro h d
  have hstopped : ∃ s ∈ h, (match s.reply with | .stopped call _ => call == 7 | _ => false) = true := by
    decide +kernel
  refine ⟨by decide +kernel, by decide +kernel, by decide +kernel, ?_, by decide +kernel, by decide +kernel⟩
  obtain ⟨s, hs, hmatch⟩ := hstopped
  refine ⟨s, hs, ?_⟩
  split at hmatch
  · next call stats hstats =>
    rw [hstats, beq_iff_eq.mp hmatch]
    exact ⟨stats, rfl⟩
  · cases hmatch

end Deliverer

end Sluice
