import Sluice.Proofs.Delivery.Books
import Sluice.Proofs.Delivery.Line

/-!
# A sink is dismissed once, and last

Three parties take sinks out of the register to dismiss them: a call that removes a target, the handler that
finds a sink closed, and the handler at its end. `dismissed_once` says that they do not get in each other's way.
Whatever the schedule, a registered sink is called with one resource after the other and answers before it is
called with the next one. Then it is dismissed, at most once, and it is not called any more. If no removal is
given up before it returns, then it has been dismissed by the time both tasks have ended and all removals have
returned.

The invariant is `Hosted`: for every sink, what stands in its line fits what it has seen (`Attended`), and a
registered sink that nobody has dismissed yet is in the register, or left for the handler to dismiss, or has a
dismissal in its line.
-/

namespace Sluice

namespace Deliverer

variable {ρ : Type} {h : List (Happening ρ)} {d d' : Deliverer ρ} {s : Happening ρ}

/-! ### The invariant -/

/-- Whether nobody has set out to dismiss a sink yet. -/
def attached (d : Deliverer ρ) (sink : Nat) : Prop :=
  (∃ t, d.sinks.get? t = some sink) ∨ sink ∈ d.leaving

/-- Whether a sink was registered. -/
def Known (h : List (Happening ρ)) (sink : Nat) : Prop := ∃ t, (t, sink) ∈ registrations h

theorem Known.snoc {sink : Nat} (hknown : Known h sink) : Known (h ++ [s]) sink := by
  obtain ⟨t, ht⟩ := hknown
  refine ⟨t, ?_⟩
  rw [registrations_snoc]
  exact List.mem_append_left _ ht

/-- Whether the call that an event begins, if it removes a target, has a number that no call in progress
has. -/
def Happening.isFresh (s : Happening ρ) : Bool :=
  match s.event with
  | .remove call _ => (s.before.visitOf? (.remover call)).isNone
  | _ => true

/-- How a deliverer treats the sinks. -/
structure Hosted (h : List (Happening ρ)) (d : Deliverer ρ) : Prop where
  /-- Nobody visits two sinks at a time. -/
  visitors : (d.visits.map (·.visitor)).Nodup
  attended : ∀ sink, Attended (d.attached sink) (d.line sink) (seen sink h)
  unique : d.leaving.Nodup
  apart : ∀ t sink, d.sinks.get? t = some sink → sink ∉ d.leaving
  visited : ∀ v ∈ d.visits, Known h v.sink
  left : ∀ sink ∈ d.leaving, Known h sink
  sighted : ∀ sink, seen sink h ≠ [] → Known h sink
  owed : givenUp h = [] → ∀ sink, Known h sink →
    d.attached sink ∨ (∃ v ∈ d.line sink, v.delivers = false) ∨ .released ∈ seen sink h

/-- A removal that is in progress is given up. -/
theorem givenUp_snoc_ne_nil (hs : s.givenUp ≠ []) : givenUp (h ++ [s]) ≠ [] := by
  rw [givenUp_snoc]
  exact fun hnil => hs (List.append_eq_nil_iff.mp hnil).2

namespace Hosted

theorem ofSettings (settings : DelivererSettings) :
    Hosted [] (Deliverer.ofSettings settings : Deliverer ρ) where
  visitors := List.nodup_nil
  attended _ := .new _
  unique := List.nodup_nil
  apart _ _ _ := List.not_mem_nil
  visited _ hv := absurd hv List.not_mem_nil
  left _ hs := absurd hs List.not_mem_nil
  sighted _ hseen := absurd rfl hseen
  owed _ _ hknown := by
    obtain ⟨t, ht⟩ := hknown
    exact absurd ht List.not_mem_nil

/-! ### The moves -/

/-- The same sinks are attached, and the visits are the same. -/
theorem of_same (x : Hosted h d) (hvisits : d'.visits = d.visits)
    (hattached : ∀ sink, d'.attached sink ↔ d.attached sink) (hunique : d'.leaving.Nodup)
    (hapart : ∀ t sink, d'.sinks.get? t = some sink → sink ∉ d'.leaving)
    (hleft : ∀ sink ∈ d'.leaving, Known h sink) : Hosted h d' := by
  have hline : ∀ sink, d'.line sink = d.line sink := fun sink => by rw [line, line, hvisits]
  constructor
  · rw [hvisits]
    exact x.visitors
  · intro sink
    rw [hline]
    exact (x.attended sink).of_iff (hattached sink)
  · exact hunique
  · exact hapart
  · rw [hvisits]
    exact x.visited
  · exact hleft
  · exact x.sighted
  · intro hnone sink hknown
    rw [hattached, hline]
    exact x.owed hnone sink hknown

/-- Only the visits and the sinks matter. -/
theorem of_eq (x : Hosted h d) (hvisits : d'.visits = d.visits) (hsinks : d'.sinks = d.sinks)
    (hleaving : d'.leaving = d.leaving) : Hosted h d' := by
  refine x.of_same hvisits (fun sink => ?_) ?_ ?_ ?_
  · rw [attached, attached, hsinks, hleaving]
  · rw [hleaving]
    exact x.unique
  · rw [hsinks, hleaving]
    exact x.apart
  · rw [hleaving]
    exact x.left

theorem aside (x : Hosted h d) (k : Aside d d') : Hosted h d' :=
  x.of_eq k.visits k.sinks k.leaving

/-- An event of which no sink sees anything. -/
theorem snoc (x : Hosted h d) (hregistered : s.registered = []) (hsightings : ∀ sink, s.sightings sink = [])
    (hgivenUp : s.givenUp = []) : Hosted (h ++ [s]) d := by
  have hseen : ∀ sink, seen sink (h ++ [s]) = seen sink h := fun sink => by
    rw [seen_snoc, hsightings, List.append_nil]
  have hknown : ∀ sink, Known (h ++ [s]) sink = Known h sink := fun sink => by
    rw [Known, Known, registrations_snoc_nil h hregistered]
  refine { x with attended := ?_, visited := ?_, left := ?_, sighted := ?_, owed := ?_ }
  · intro sink
    rw [hseen]
    exact x.attended sink
  · simpa only [hknown] using x.visited
  · simpa only [hknown] using x.left
  · simpa only [hknown, hseen] using x.sighted
  · rw [givenUp_snoc, hgivenUp, List.append_nil]
    simpa only [hknown, hseen] using x.owed

/-- A target is registered with a new sink. -/
theorem enroll (x : Hosted h d) {t : TargetId} {sink : Nat} {queue : FairQueue ρ}
    (hnew : ¬ Known h sink) (hfree : d.sinks.get? t = none)
    (hregistered : s.registered = [(t, sink)]) (hsightings : ∀ sink, s.sightings sink = [])
    (hgivenUp : s.givenUp = []) : Hosted (h ++ [s]) { d with queue, sinks := d.sinks.set t sink } := by
  have hseen : ∀ other, seen other (h ++ [s]) = seen other h := fun other => by
    rw [seen_snoc, hsightings, List.append_nil]
  have hline : d.line sink = [] := by
    rw [List.eq_nil_iff_forall_not_mem]
    intro v hv
    obtain ⟨hmem, hsink⟩ := mem_line.mp hv
    exact hnew (hsink ▸ x.visited v hmem)
  have hattached : ∀ other, sink ≠ other →
      (({ d with queue, sinks := d.sinks.set t sink } : Deliverer ρ).attached other ↔
        d.attached other) := by
    intro other hne
    refine or_congr_left (exists_congr fun u => ?_)
    show (d.sinks.set t sink).get? u = some other ↔ _
    rw [Roster.get?_set]
    by_cases htu : t = u
    · rw [if_pos htu, ← htu, hfree]
      exact iff_of_false (fun heq => hne (Option.some.inj heq)) nofun
    · rw [if_neg htu]
  constructor
  · exact x.visitors
  · intro other
    rw [hseen]
    by_cases hother : sink = other
    · subst hother
      have hunseen : seen sink h = [] := by
        by_contra hne
        exact hnew (x.sighted sink hne)
      rw [hunseen]
      show Attended _ (d.line sink) []
      rw [hline]
      exact .new _
    · exact (x.attended other).of_iff (hattached other hother)
  · exact x.unique
  · intro u other hu hmem
    by_cases hother : sink = other
    · exact hnew (hother ▸ x.left other hmem)
    · rw [Roster.get?_set] at hu
      split at hu
      · exact hother (Option.some.inj hu)
      · exact x.apart u other hu hmem
  · exact fun v hv => (x.visited v hv).snoc
  · exact fun other hother => (x.left other hother).snoc
  · intro other hne
    rw [hseen] at hne
    exact (x.sighted other hne).snoc
  · intro hnone other hother
    rw [givenUp_snoc, hgivenUp, List.append_nil] at hnone
    rw [hseen]
    by_cases hsame : sink = other
    · refine .inl (.inl ⟨t, ?_⟩)
      show (d.sinks.set t sink).get? t = some other
      rw [Roster.get?_set, if_pos rfl, hsame]
    · rw [hattached other hsame]
      obtain ⟨u, hu⟩ := hother
      rw [registrations_snoc, hregistered] at hu
      rcases List.mem_append.mp hu with hu | hu
      · exact x.owed hnone other ⟨u, hu⟩
      · cases List.mem_singleton.mp hu
        exact absurd rfl hsame

/-- The visitors after someone has set out to a sink who visited nobody. -/
theorem visitors_visit (x : Hosted h d) {visitor : Visitor} (hnone : d.visitOf? visitor = none)
    (sink : Nat) (errand : Errand ρ) : ((d.visit visitor sink errand).visits.map (·.visitor)).Nodup := by
  show ((d.visits ++ [_]).map _).Nodup
  rw [List.map_append, List.nodup_append]
  refine ⟨x.visitors, List.nodup_singleton _, ?_⟩
  intro a ha b hb
  obtain ⟨v, hv, rfl⟩ := List.mem_map.mp ha
  rw [List.map_singleton, List.mem_singleton] at hb
  rw [hb]
  exact visitOf?_eq_none.mp hnone v hv

/-- The handler sets out with a resource to a sink that is attached. -/
theorem receive (x : Hosted h d) {sink : Nat} {delivery : Delivery ρ} (hattached : d.attached sink)
    (hnone : d.visitOf? .handler = none) (hknown : Known h sink)
    (herrands : ∀ v ∈ d.visits, v.delivers = true → v.visitor = .handler) :
    Hosted h (d.visit .handler sink (.deliver delivery)) := by
  have hline : d.line sink = [] := by
    rw [List.eq_nil_iff_forall_not_mem]
    intro v hv
    have hmem := (mem_line.mp hv).1
    exact visitOf?_eq_none.mp hnone v hmem (herrands v hmem ((x.attended sink).delivers hattached v hv))
  refine { x with visitors := x.visitors_visit hnone _ _, attended := ?_, visited := ?_, owed := ?_ }
  · intro other
    show Attended (d.attached other) _ _
    rw [line_visit]
    by_cases hother : sink = other
    · subst hother
      have a := x.attended sink
      rw [hline] at a ⊢
      rw [if_pos rfl]
      exact a.receive hattached rfl rfl
    · rw [if_neg hother, List.append_nil]
      exact x.attended other
  · intro v hv
    rcases List.mem_append.mp hv with hv | hv
    · exact x.visited v hv
    · rw [List.mem_singleton.mp hv]
      exact hknown
  · intro hnone other hother
    rcases x.owed hnone other hother with ha | ⟨v, hv, hdismissal⟩ | hreleased
    · exact .inl ha
    · refine .inr (.inl ⟨v, ?_, hdismissal⟩)
      rw [line_visit]
      exact List.mem_append_left _ hv
    · exact .inr (.inr hreleased)

/-- Someone sets out to dismiss a sink, and it is not attached any more. -/
theorem part (x : Hosted h d) {visitor : Visitor} {sink : Nat} {backlog : List ρ}
    (hvisits : d'.visits = (d.visit visitor sink (.dismiss backlog)).visits)
    (hnone : d.visitOf? visitor = none) (hattached : d.attached sink) (hknown : Known h sink)
    (hparted : ∀ other, d'.attached other ↔ d.attached other ∧ other ≠ sink)
    (hunique : d'.leaving.Nodup) (hapart : ∀ t sink, d'.sinks.get? t = some sink → sink ∉ d'.leaving)
    (hleaving : ∀ other ∈ d'.leaving, other ∈ d.leaving) : Hosted h d' := by
  have hline : ∀ other, d'.line other = (d.visit visitor sink (.dismiss backlog)).line other :=
    fun other => by rw [line, line, hvisits]
  constructor
  · rw [hvisits]
    exact x.visitors_visit hnone _ _
  · intro other
    rw [hline, line_visit]
    by_cases hother : sink = other
    · subst hother
      rw [if_pos rfl]
      have a := (x.attended sink).part (v := { visitor, sink, errand := .dismiss backlog }) hattached rfl
        rfl
      refine a.of_iff ((hparted sink).trans ?_)
      exact iff_of_false (fun hboth => hboth.2 rfl) id
    · rw [if_neg hother, List.append_nil]
      refine (x.attended other).of_iff ((hparted other).trans ?_)
      exact and_iff_left (Ne.symm hother)
  · exact hunique
  · exact hapart
  · rw [hvisits]
    intro v hv
    rcases List.mem_append.mp hv with hv | hv
    · exact x.visited v hv
    · rw [List.mem_singleton.mp hv]
      exact hknown
  · exact fun other hother => x.left other (hleaving other hother)
  · exact x.sighted
  · intro hnone other hother
    rw [hline, line_visit]
    by_cases hsame : sink = other
    · refine .inr (.inl ⟨{ visitor, sink, errand := .dismiss backlog }, ?_, rfl⟩)
      rw [if_pos hsame]
      exact List.mem_append_right _ (List.mem_singleton.mpr rfl)
    · rw [hparted]
      rcases x.owed hnone other hother with ha | ⟨v, hv, hdismissal⟩ | hreleased
      · exact .inl ⟨ha, Ne.symm hsame⟩
      · exact .inr (.inl ⟨v, List.mem_append_left _ hv, hdismissal⟩)
      · exact .inr (.inr hreleased)

/-- A visit begins or ends, and the sink sees it. -/
theorem attend (x : Hosted h d) {visits : List (Visit ρ)} {sink : Nat} {new : List (Sighting ρ)}
    (hregistered : s.registered = []) (hknown : Known h sink)
    (hsightings : ∀ other, s.sightings other = if sink = other then new else [])
    (hvisitors : (visits.map (·.visitor)).Nodup) (hvisited : ∀ v ∈ visits, ∃ w ∈ d.visits, w.sink = v.sink)
    (hothers : ∀ other, sink ≠ other → ({ d with visits } : Deliverer ρ).line other = d.line other)
    (hattended : Attended (d.attached sink) (({ d with visits } : Deliverer ρ).line sink)
      (seen sink h ++ new))
    (howed : givenUp (h ++ [s]) = [] → (∃ v ∈ d.line sink, v.delivers = false) →
      (∃ v ∈ ({ d with visits } : Deliverer ρ).line sink, v.delivers = false) ∨ .released ∈ new) :
    Hosted (h ++ [s]) { d with visits } := by
  have hsame : ∀ other, Known (h ++ [s]) other = Known h other := fun other => by
    rw [Known, Known, registrations_snoc_nil h hregistered]
  constructor
  · exact hvisitors
  · intro other
    rw [seen_snoc, hsightings]
    by_cases hother : sink = other
    · subst hother
      rw [if_pos rfl]
      exact hattended
    · rw [if_neg hother, List.append_nil, hothers other hother]
      exact x.attended other
  · exact x.unique
  · exact x.apart
  · intro v hv
    obtain ⟨w, hw, hsink⟩ := hvisited v hv
    rw [hsame, ← hsink]
    exact x.visited w hw
  · intro other hother
    rw [hsame]
    exact x.left other hother
  · intro other hne
    rw [hsame]
    by_cases hother : sink = other
    · exact hother ▸ hknown
    · rw [seen_snoc, hsightings, if_neg hother, List.append_nil] at hne
      exact x.sighted other hne
  · intro hnone other hother
    rw [hsame] at hother
    have hbefore : givenUp h = [] := by
      rw [givenUp_snoc] at hnone
      exact (List.append_eq_nil_iff.mp hnone).1
    rw [seen_snoc, hsightings]
    rcases x.owed hbefore other hother with ha | hdismissal | hreleased
    · exact .inl ha
    · right
      by_cases hsink : sink = other
      · subst hsink
        rw [if_pos rfl]
        exact (howed hnone hdismissal).imp_right (List.mem_append_right _)
      · rw [hothers other hsink]
        exact .inl hdismissal
    · exact .inr (.inr (List.mem_append_left _ hreleased))

/-- A visitor enters. -/
theorem enter (x : Hosted h d) {visitor : Visitor} {v : Visit ρ} {reply : Reply ρ}
    (hv : d.visitOf? visitor = some v) (hout : v.inside = false)
    (hfirst : (d.visits.find? (·.sink == v.sink)).any (·.visitor != visitor) = false) :
    Hosted (h ++ [⟨d, .enter visitor, reply, d'⟩]) (d.letIn visitor) := by
  obtain ⟨rest, hline⟩ := line_of_first x.visitors hv hfirst
  have hline' := line_letIn_eq x.visitors hv hline
  refine x.attend rfl (x.visited v (mem_of_visitOf? hv).1) (fun other => sightingOf_visit hv other _)
    ?_ ?_ (fun other hother => line_letIn_of_ne x.visitors hv hother) ?_ ?_
  · rw [List.map_map]
    refine (congrArg List.Nodup (List.map_congr_left fun w _ => ?_)).mpr x.visitors
    show (if w.visitor = visitor then { w with inside := true } else w : Visit ρ).visitor = w.visitor
    split <;> rfl
  · intro w hw
    obtain ⟨w₀, hw₀, rfl⟩ := List.mem_map.mp hw
    refine ⟨w₀, hw₀, ?_⟩
    split <;> rfl
  · show Attended (d.attached v.sink) ((d.letIn visitor).line v.sink) _
    rw [hline']
    have a := x.attended v.sink
    rw [hline] at a
    exact a.enter hout
  · intro _ hdismissal
    left
    show ∃ w ∈ (d.letIn visitor).line v.sink, w.delivers = false
    rw [hline']
    rw [hline] at hdismissal
    obtain ⟨w, hw, hdelivers⟩ := hdismissal
    rcases List.mem_cons.mp hw with rfl | hw
    · exact ⟨_, List.mem_cons_self, hdelivers⟩
    · exact ⟨w, List.mem_cons_of_mem _ hw, hdelivers⟩

/-- A visit ends. What is left of the line is known, and what the sink has seen with it. -/
theorem leave (x : Hosted h d) {visitor : Visitor} {v : Visit ρ} (before rest : List (Visit ρ))
    {new : List (Sighting ρ)} (hv : d.visitOf? visitor = some v) (hregistered : s.registered = [])
    (hsightings : ∀ other, s.sightings other = if v.sink = other then new else [])
    (hline : d.line v.sink = before ++ v :: rest)
    (hattended : Attended (d.attached v.sink) (before ++ rest) (seen v.sink h ++ new))
    (howed : givenUp (h ++ [s]) = [] → v.delivers = false → .released ∈ new) :
    Hosted (h ++ [s]) (d.endVisit visitor) := by
  have hline' := line_endVisit_eq x.visitors hv hline
  refine x.attend hregistered (x.visited v (mem_of_visitOf? hv).1) hsightings
    (x.visitors.sublist (List.filter_sublist.map _)) (fun w hw => ⟨w, List.mem_of_mem_filter hw, rfl⟩)
    (fun other hother => line_endVisit_of_ne x.visitors hv hother) ?_ ?_
  · show Attended (d.attached v.sink) ((d.endVisit visitor).line v.sink) _
    rw [hline']
    exact hattended
  · intro hnone hdismissal
    show (∃ w ∈ (d.endVisit visitor).line v.sink, w.delivers = false) ∨ _
    rw [hline']
    rw [hline] at hdismissal
    obtain ⟨w, hw, hdelivers⟩ := hdismissal
    rcases List.mem_append.mp hw with hw | hw
    · exact .inl ⟨w, List.mem_append_left _ hw, hdelivers⟩
    · rcases List.mem_cons.mp hw with rfl | hw
      · exact .inr (howed hnone hdelivers)
      · exact .inl ⟨w, List.mem_append_right _ hw, hdelivers⟩

/-- The sink that the handler visits answers to its resource. -/
theorem answer (x : Hosted h d) {v : Visit ρ} {delivery : Delivery ρ} {outcome : DeliveryOutcome}
    {reply : Reply ρ} (hv : d.visitOf? .handler = some v) (herrand : v.errand = .deliver delivery)
    (hinside : v.inside = true) :
    Hosted (h ++ [⟨d, .deliverReturns outcome, reply, d'⟩]) (d.endVisit .handler) := by
  have hmem : v ∈ d.line v.sink := mem_line.mpr ⟨(mem_of_visitOf? hv).1, rfl⟩
  obtain ⟨rest, hline⟩ := (x.attended v.sink).eq_of_inside hmem hinside
  have a := x.attended v.sink
  rw [hline] at a
  refine x.leave [] rest hv rfl (fun other => sightingOf_visit hv other _) hline
    (a.answer herrand hinside outcome) ?_
  intro _ hdismissal
  cases (Visit.delivers_eq_true.mpr ⟨delivery, herrand⟩).symm.trans hdismissal

/-- The dismissal of a sink is done. -/
theorem release (x : Hosted h d) {visitor : Visitor} {v : Visit ρ} {backlog : List ρ} {reply : Reply ρ}
    (hv : d.visitOf? visitor = some v) (herrand : v.errand = .dismiss backlog)
    (hinside : v.inside = true) :
    Hosted (h ++ [⟨d, .dismissReturns visitor, reply, d'⟩]) (d.endVisit visitor) := by
  have hmem : v ∈ d.line v.sink := mem_line.mpr ⟨(mem_of_visitOf? hv).1, rfl⟩
  have hdismissal : v.delivers = false := Visit.delivers_eq_false.mpr ⟨backlog, herrand⟩
  have hline := (x.attended v.sink).eq_singleton hmem hdismissal hinside
  have a := x.attended v.sink
  rw [hline] at a
  exact x.leave [] [] hv rfl (fun other => sightingOf_visit hv other _) hline
    (a.conclude hdismissal hinside (.inl rfl)) fun _ _ => List.mem_singleton.mpr rfl

/-- A call that removes a target is given up. -/
theorem giveUp (x : Hosted h d) {call : CallId} {v : Visit ρ} {reply : Reply ρ}
    (hv : d.visitOf? (.remover call) = some v) (hdismissal : v.delivers = false) :
    Hosted (h ++ [⟨d, .cancel call, reply, d'⟩]) (d.endVisit (.remover call)) := by
  have hmem : v ∈ d.line v.sink := mem_line.mpr ⟨(mem_of_visitOf? hv).1, rfl⟩
  have hsightings := fun other => sightingOf_visit hv other fun v => if v.inside then [.cutOff] else []
  have howed : givenUp (h ++ [⟨d, .cancel call, reply, d'⟩]) ≠ [] := by
    apply givenUp_snoc_ne_nil
    show (if (d.visitOf? (.remover call)).isSome then [call] else []) ≠ []
    rw [hv]
    exact List.cons_ne_nil _ _
  have a := x.attended v.sink
  cases hinside : v.inside with
  | true =>
    simp only [hinside, if_true] at hsightings
    have hline := a.eq_singleton hmem hdismissal hinside
    rw [hline] at a
    exact x.leave [] [] hv rfl hsightings hline (a.conclude hdismissal hinside (.inr rfl))
      fun hnone => absurd hnone howed
  | false =>
    simp only [hinside, Bool.false_eq_true, if_false] at hsightings
    obtain ⟨before, hline⟩ := a.eq_of_dismissal hmem hdismissal
    rw [hline] at a
    refine x.leave before [] hv rfl hsightings hline ?_ fun hnone => absurd hnone howed
    rw [List.append_nil, List.append_nil]
    exact a.giveUp hinside

/-! ### Who is attached -/

/-- A sink is taken out of the register. -/
theorem attached_erase (x : Hosted h d) {t : TargetId} {sink : Nat}
    (hinj : ∀ u, d.sinks.get? u = some sink → t = u) (hsink : d.sinks.get? t = some sink)
    (hsinks : d'.sinks = d.sinks.erase t) (hleaving : d'.leaving = d.leaving) (other : Nat) :
    d'.attached other ↔ d.attached other ∧ other ≠ sink := by
  rw [attached, attached, hsinks, hleaving]
  constructor
  · rintro (⟨u, hu⟩ | hmem)
    · rw [Roster.get?_erase] at hu
      split at hu
      · cases hu
      · next htu =>
        refine ⟨.inl ⟨u, hu⟩, ?_⟩
        rintro rfl
        exact htu (hinj u hu)
    · refine ⟨.inr hmem, ?_⟩
      rintro rfl
      exact x.apart t other hsink hmem
  · rintro ⟨⟨u, hu⟩ | hmem, hne⟩
    · refine .inl ⟨u, ?_⟩
      rw [Roster.get?_erase, if_neg]
      · exact hu
      · rintro rfl
        exact hne (Option.some.inj (hu.symm.trans hsink))
    · exact .inr hmem

/-- Taking a target out that has no sink changes nothing. -/
theorem erase_none (x : Hosted h d) {t : TargetId} (hnone : d.sinks.get? t = none)
    (hsinks : d'.sinks = d.sinks.erase t) (hvisits : d'.visits = d.visits)
    (hleaving : d'.leaving = d.leaving) : Hosted h d' := by
  have hget : ∀ u, d'.sinks.get? u = d.sinks.get? u := by
    intro u
    rw [hsinks, Roster.get?_erase]
    split
    · next htu => rw [← htu, hnone]
    · rfl
  refine x.of_same hvisits (fun sink => ?_) ?_ ?_ ?_
  · rw [attached, attached, hleaving]
    simp only [hget]
  · rw [hleaving]
    exact x.unique
  · intro u sink hu
    rw [hget] at hu
    rw [hleaving]
    exact x.apart u sink hu
  · rw [hleaving]
    exact x.left

/-- Someone takes a sink out of the register and sets out to dismiss it. -/
theorem partFromSinks (x : Hosted h d) {t : TargetId} {sink : Nat} {visitor : Visitor} {backlog : List ρ}
    (hinj : ∀ u, d.sinks.get? u = some sink → t = u) (hsink : d.sinks.get? t = some sink)
    (hnone : d.visitOf? visitor = none) (hknown : Known h sink) (hsinks : d'.sinks = d.sinks.erase t)
    (hleaving : d'.leaving = d.leaving)
    (hvisits : d'.visits = (d.visit visitor sink (.dismiss backlog)).visits) : Hosted h d' := by
  refine x.part hvisits hnone (.inl ⟨t, hsink⟩) hknown (x.attached_erase hinj hsink hsinks hleaving)
    ?_ ?_ ?_
  · rw [hleaving]
    exact x.unique
  · intro u other hu
    rw [hleaving]
    rw [hsinks, Roster.get?_erase] at hu
    split at hu
    · cases hu
    · exact x.apart u other hu
  · rw [hleaving]
    exact fun _ => id

/-- The handler at its end sets out to dismiss one of the sinks that are left. -/
theorem partFromLeaving (x : Hosted h d) {sink : Nat} (hmem : sink ∈ d.leaving)
    (hnone : d.visitOf? .handler = none) :
    Hosted h (({ d with leaving := d.leaving.erase sink } : Deliverer ρ).visit .handler sink
      (.dismiss [])) := by
  have herase : ∀ other, other ∈ d.leaving.erase sink ↔ other ∈ d.leaving ∧ other ≠ sink := fun other =>
    x.unique.mem_erase_iff.trans and_comm
  refine x.part rfl hnone (.inr hmem) (x.left sink hmem) (fun other => ?_) (x.unique.erase sink) ?_ ?_
  · show (_ ∨ other ∈ d.leaving.erase sink) ↔ (_ ∨ _) ∧ _
    rw [herase]
    constructor
    · rintro (⟨t, ht⟩ | ⟨hother, hne⟩)
      · refine ⟨.inl ⟨t, ht⟩, ?_⟩
        rintro rfl
        exact x.apart t other ht hmem
      · exact ⟨.inr hother, hne⟩
    · rintro ⟨ht | hother, hne⟩
      · exact .inl ht
      · exact .inr ⟨hother, hne⟩
  · intro t other ht hother
    exact x.apart t other ht ((herase other).mp hother).1
  · exact fun other hother => ((herase other).mp hother).1

/-- The handler comes to its end, and the sinks in the register are left to it. -/
theorem close (x : Hosted h d)
    (hinj : ∀ t u sink, d.sinks.get? t = some sink → d.sinks.get? u = some sink → t = u)
    (hknown : ∀ t sink, d.sinks.get? t = some sink → Known h sink) (hleaving : d.leaving = []) :
    Hosted h { d with stopped := true, leaving := d.sinks.values, sinks := .empty } := by
  refine x.of_same rfl (fun sink => ?_) (Roster.nodup_values hinj) ?_ ?_
  · show (∃ t, (Roster.empty : Roster Nat).get? t = some sink) ∨ sink ∈ d.sinks.values ↔
      (∃ t, d.sinks.get? t = some sink) ∨ sink ∈ d.leaving
    rw [Roster.mem_values, hleaving]
    simp only [Roster.get?_empty, reduceCtorEq, exists_false, false_or, List.not_mem_nil, or_false]
  · intro t sink ht
    cases (Roster.get?_empty t).symm.trans ht
  · intro sink hmem
    obtain ⟨t, ht⟩ := Roster.mem_values.mp hmem
    exact hknown t sink ht

end Hosted

/-! ### Every turn -/

section

variable {handed : List (Delivery ρ)}

theorem Orderly.known (o : Orderly h handed d) {t : TargetId} {sink : Nat}
    (ht : d.sinks.get? t = some sink) : Known h sink :=
  ⟨t, o.supplies.mem_numbers (o.registrationOf ht)⟩

theorem Orderly.sink_inj (o : Orderly h handed d) {t u : TargetId} {sink : Nat}
    (ht : d.sinks.get? t = some sink) (hu : d.sinks.get? u = some sink) : t = u :=
  o.target_of_sink ht (o.supplies.mem_numbers (o.registrationOf hu))

end

section

variable [Resource ρ] {handed : List (Delivery ρ)} {event : Event ρ} {reply : Reply ρ}

/-- Every turn of an orderly deliverer treats the sinks well. -/
theorem Turn.hosted (o : Orderly h handed d) (p : Parting d) (x : Hosted h d)
    (hfresh : (⟨d, event, reply, d'⟩ : Happening ρ).isFresh = true) (e : Turn d event reply d') :
    Hosted (h ++ [⟨d, event, reply, d'⟩]) d' := by
  -- No sink sees anything.
  have still : ∀ {d₁ : Deliverer ρ}, Hosted h d₁ →
      (⟨d, event, reply, d'⟩ : Happening ρ).registered = [] →
      (∀ sink, (⟨d, event, reply, d'⟩ : Happening ρ).sightings sink = []) →
      (⟨d, event, reply, d'⟩ : Happening ρ).givenUp = [] →
      d'.visits = d₁.visits → d'.sinks = d₁.sinks → d'.leaving = d₁.leaving →
      Hosted (h ++ [⟨d, event, reply, d'⟩]) d' := by
    intro d₁ x₁ hregistered hsightings hgivenUp hvisits hsinks hleaving
    exact (x₁.snoc hregistered hsightings hgivenUp).of_eq hvisits hsinks hleaving
  cases e with
  | aside hsilent k =>
    exact still x hsilent.registered hsilent.sightings hsilent.givenUp k.visits k.sinks k.leaving
  | @enrolled t priority r queue hstopped hadd =>
    have hfree : d.sinks.get? t = none := by
      rcases o.registered t with hsame | ⟨-, hnone⟩
      · rw [hsame]
        exact FairQueue.not_registered_of_addTarget hadd
      · exact hnone
    have hnew : ¬ Known h r := fun ⟨u, hu⟩ => (o.supplies.addTarget hadd).2 u hu
    refine x.enroll hnew hfree ?_ (fun _ => rfl) rfl
    show (((d.sinks.set t r).get? t).map (t, ·)).toList = _
    rw [Roster.get?_set, if_pos rfl]
    rfl
  | reprioritised => exact still x rfl (fun _ => rfl) rfl rfl rfl rfl
  | submitted _ _ k => exact still x rfl (fun _ => rfl) rfl k.visits k.sinks k.leaving
  | @removed call t r backlog queue _ _ hnone =>
    have x₁ : Hosted h { d with sinks := d.sinks.erase t } := x.erase_none hnone rfl rfl rfl
    exact still x₁ rfl (fun _ => rfl) rfl rfl rfl rfl
  | @removing call t r sink backlog queue d' _ _ hsink k =>
    have hnone : d.visitOf? (.remover call) = none := by simpa [Happening.isFresh] using hfresh
    have x₁ : Hosted h (({ d with queue, sinks := d.sinks.erase t } : Deliverer ρ).visit (.remover call)
        sink (.dismiss backlog)) :=
      x.partFromSinks (fun u => o.sink_inj hsink) hsink hnone (o.known hsink) rfl rfl rfl
    exact still x₁ rfl (fun _ => rfl) rfl k.visits k.sinks k.leaving
  | abandoned hv k => exact (x.giveUp hv (o.dismisses hv)).aside k
  | peeked _ _ k => exact still x rfl (fun _ => rfl) rfl k.visits k.sinks k.leaving
  | taken _ _ _ _ _ _ k => exact still x rfl (fun _ => rfl) rfl k.visits k.sinks k.leaving
  | @setOut delivery processor _ hreceiving _ _ hsink =>
    have x₁ : Hosted h (d.visit .handler delivery.registration (.deliver delivery)) :=
      x.receive (.inl ⟨_, hsink⟩) (o.idle hreceiving) (o.known hsink) fun v => o.visitor_of_delivers
    exact still x₁ rfl (fun _ => rfl) rfl rfl rfl rfl
  | late _ _ _ _ _ k => exact still x rfl (fun _ => rfl) rfl k.visits k.sinks k.leaving
  | closing _ hreceiving =>
    have hleaving : d.leaving = [] := by
      apply p.leaving
      rw [hreceiving]
      nofun
    have x₁ : Hosted h { d with stopped := true, leaving := d.sinks.values, sinks := .empty } :=
      x.close (fun _ _ _ => o.sink_inj) (fun _ _ => o.known) hleaving
    exact still x₁ rfl (fun _ => rfl) rfl rfl rfl rfl
  | entered hv hout hfirst => exact x.enter hv hout hfirst
  | accepted hv herrand hinside k =>
    exact (x.answer hv herrand hinside).of_eq k.visits k.sinks k.leaving
  | gone hv herrand hinside _ k =>
    exact (x.answer hv herrand hinside).of_eq k.visits k.sinks k.leaving
  | orphaned hv herrand hinside _ _ hnone k =>
    exact (x.answer hv herrand hinside).erase_none hnone k.sinks k.visits k.leaving
  | @foundClosed v delivery backlog queue sink d' hv herrand hinside _ _ hsink k =>
    exact (x.answer hv herrand hinside).partFromSinks (fun u => o.sink_inj hsink) hsink
      (d.visitOf?_endVisit .handler) (o.known hsink).snoc k.sinks k.leaving k.visits
  | dismissed hv herrand hinside k => exact (x.release hv herrand hinside).aside k
  | returned hv herrand hinside k => exact (x.release hv herrand hinside).aside k
  | dismissing _ hnone hmem =>
    exact still (x.partFromLeaving hmem hnone) rfl (fun _ => rfl) rfl rfl rfl rfl
  | ended => exact still x rfl (fun _ => rfl) rfl rfl rfl rfl

theorem hosted_after (settings : DelivererSettings) (events : List (Event ρ))
    (hfresh : ∀ s ∈ happenings settings events, s.isFresh = true) :
    Hosted (happenings settings events) ((Deliverer.ofSettings settings).after events) := by
  have run : Parting ((Deliverer.ofSettings settings).after events) ∧
      ((∀ s ∈ happenings settings events, s.isFresh = true) →
        Hosted (happenings settings events) ((Deliverer.ofSettings settings).after events)) := by
    refine turn_induction (P := fun h d => Parting d ∧ ((∀ s ∈ h, s.isFresh = true) → Hosted h d))
      ⟨.ofSettings settings, fun _ => .ofSettings settings⟩ ?_ events
    rintro h handed d event reply d' o - ⟨p, x⟩ e
    refine ⟨e.parting o p, fun hfresh => e.hosted o p (x fun s hs => ?_) ?_⟩
    · exact hfresh s (List.mem_append_left _ hs)
    · exact hfresh _ (List.mem_append_right _ (List.mem_singleton.mpr rfl))
  exact run.2 hfresh

/-- Whatever the schedule, in which the calls that remove targets are told apart by their numbers, a registered
sink is called with one resource after the other, and it answers before it is called again. Then it is
dismissed, once at most, and that is the last it sees. If no removal of a target is given up and all of them
have returned, then it has been dismissed when both tasks have ended. -/
theorem dismissed_once (settings : DelivererSettings) (events : List (Event ρ)) (t : TargetId) (sink : Nat)
    (hfresh : ∀ s ∈ happenings settings events, s.isFresh = true)
    (hregistered : (t, sink) ∈ registrations (happenings settings events)) :
    let h := happenings settings events
    let d := (Deliverer.ofSettings settings).after events
    ∃ rounds ending, seen sink h = served rounds ++ ending ∧
      (ending = [] ∨ (∃ resource, ending = [.called resource]) ∨ ending = [.dismissed] ∨
        ending = [.dismissed, .released] ∨ ending = [.dismissed, .cutOff]) ∧
      (d.processor.readerEnded = true → d.processor.handlerEnded = true →
        (∀ call, d.visitOf? (.remover call) = none) → givenUp h = [] →
        ending = [.dismissed, .released]) := by
  intro h d
  have x : Hosted h d := hosted_after settings events hfresh
  have p : Parting d := parting_after settings events
  obtain ⟨rounds, ending, hseen, hending⟩ := (x.attended sink).shape
  refine ⟨rounds, ending, hseen, hending, ?_⟩
  intro _ hended hreturned hgivenUp
  have hhandler := Processor.handlerEnded_iff.mp hended
  have hlast : d.processor.handler.isLast := Processor.HandlerPhase.isLast_of_ended hhandler
  have hreleased : .released ∈ seen sink h := by
    rcases x.owed hgivenUp sink ⟨t, hregistered⟩ with (⟨u, hu⟩ | hmem) | ⟨v, hv, -⟩ | hreleased
    · cases (p.unregistered hlast u).symm.trans hu
    · rw [p.leaving (by rw [hhandler]; nofun)] at hmem
      exact absurd hmem List.not_mem_nil
    · -- Neither the handler nor a call is visiting a sink.
      have hvisitor : d.visitOf? v.visitor = none := by
        cases v.visitor with
        | handler => exact p.alone hhandler
        | remover call => exact hreturned call
      exact absurd rfl (visitOf?_eq_none.mp hvisitor v (mem_line.mp hv).1)
    · exact hreleased
  rw [hseen] at hreleased
  exact eq_of_released hending hreleased

end

theorem dismissed_once_closingTime :
    let h := happenings .small closingTime
    let d := (Deliverer.ofSettings .small).after closingTime
    (∀ s ∈ h, s.isFresh = true) ∧ registrations h = [(⟨1⟩, 1), (⟨2⟩, 2), (⟨3⟩, 3)] ∧
      givenUp h = [] ∧
      d.processor.readerEnded = true ∧ d.processor.handlerEnded = true ∧
      (∀ call, d.visitOf? (.remover call) = none) ∧
      ∃ rounds, seen 2 h = served rounds ++ [.dismissed, .released] := by
  have hfresh : ∀ s ∈ happenings .small closingTime, s.isFresh = true := by decide +kernel
  have hregistrations : registrations (happenings .small closingTime) =
      [(⟨1⟩, 1), (⟨2⟩, 2), (⟨3⟩, 3)] := by decide +kernel
  have hgivenUp : givenUp (happenings .small closingTime) = [] := by decide +kernel
  have hreader : ((Deliverer.ofSettings .small).after closingTime).processor.readerEnded = true := by
    decide +kernel
  have hhandler : ((Deliverer.ofSettings .small).after closingTime).processor.handlerEnded = true := by
    decide +kernel
  have hvisits : ((Deliverer.ofSettings .small).after closingTime).visits.isEmpty = true := by
    decide +kernel
  have hreturned : ∀ call,
      ((Deliverer.ofSettings .small).after closingTime).visitOf? (.remover call) = none := by
    intro call
    rw [visitOf?, List.isEmpty_iff.mp hvisits, List.find?_nil]
  have hregistered : (⟨2⟩, 2) ∈ registrations (happenings .small closingTime) := by
    rw [hregistrations]
    decide
  obtain ⟨rounds, ending, hseen, -, hdismissed⟩ :=
    dismissed_once .small closingTime ⟨2⟩ 2 hfresh hregistered
  rw [hdismissed hreader hhandler hreturned hgivenUp] at hseen
  exact ⟨hfresh, hregistrations, hgivenUp, hreader, hhandler, hreturned, rounds, hseen⟩

end Deliverer

end Sluice
