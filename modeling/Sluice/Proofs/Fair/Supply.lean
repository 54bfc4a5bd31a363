import Sluice.Proofs.Fair.Ledger

/-!
# What a fair queue supplies

Whoever works with a fair queue sees three things of its past: the registrations it made, what it accepted
under each number, and what it handed out. `Supplies` says that a queue has such a past. A new queue has an
empty one, and each operation adds what it does (`Supplies.addTarget`, `Supplies.pushSized`, `Supplies.pop`
and so on).

From the ledger it follows that what was handed out under a number is a first part of what was accepted under
it (`Supplies.handed_prefix`), and that no number belongs to two targets.
-/

namespace Sluice

open Fair

variable {ρ : Type}

namespace Fair

section

variable {cost : Cost} {p p' : PlainQueue ρ} {t u : TargetId} {answer : Answer ρ}

/-- An account that is rewritten keeps its number. -/
theorem registrationOf_write {a b : Account ρ} (ht : p.account t = some a)
    (hb : b.registration = a.registration) :
    (p.write t b).registrationOf u = p.registrationOf u := by
  rw [PlainQueue.registrationOf, PlainQueue.registrationOf, PlainQueue.account_write]
  by_cases hut : u = t
  · rw [if_pos hut, hut, ht, Option.map_some, Option.map_some, hb]
  · rw [if_neg hut]

/-- The numbers that the targets have after a call that is answered. -/
def Call.renumber (call : Call ρ) (answer : Answer ρ) (numberOf : TargetId → Option Nat) :
    TargetId → Option Nat :=
  match call, answer with
  | .addTarget t _, .registered r => fun u => if u = t then some r else numberOf u
  | .removeTarget t, .returned _ => fun u => if u = t then none else numberOf u
  | _, _ => numberOf

theorem Effect.registrationOf {call : Call ρ} (hp : p.Listed) (e : Effect cost p call answer p') :
    p'.registrationOf = call.renumber answer p.registrationOf := by
  funext u
  cases e with
  | @enrolled t priority ht =>
    rw [PlainQueue.registrationOf, PlainQueue.account_enroll]
    show _ = if u = t then _ else _
    split
    · rfl
    · rfl
  | @dismissed t a ht =>
    rw [PlainQueue.registrationOf, PlainQueue.account_dismiss]
    show _ = if u = t then _ else _
    split
    · rfl
    · rfl
  | reprioritised ht => exact registrationOf_write ht rfl
  | enqueued ht => exact registrationOf_write ht PlainQueue.registration_filled
  | served hnext hbacklog => exact registrationOf_write (hp.next?_eq_some.mp hnext).1 rfl
  | quiet hquiet =>
    unfold Call.renumber
    split
    · cases hquiet
    · cases hquiet
    · rfl

end

end Fair

theorem FairQueue.registrationOf_plain (q : FairQueue ρ) (t : TargetId) :
    q.plain.registrationOf t = q.registrationOf t := by
  rw [PlainQueue.registrationOf, registrationOf, account_plain, Option.map_map]
  rfl

namespace Fair

/-- The numbers of the targets after a call. -/
theorem Sound.registrationOf {q q' : FairQueue ρ} {cost : Cost} {call : Call ρ} {answer : Answer ρ}
    (h : Sound q) (hstep : q.step cost call = (answer, q')) :
    q'.registrationOf = call.renumber answer q.registrationOf := by
  have hplain := (h.effect hstep).registrationOf q.listed_plain
  rw [funext (FairQueue.registrationOf_plain q), funext (FairQueue.registrationOf_plain q')] at hplain
  exact hplain

/-- What is served was queued under the number that its target has. -/
theorem Sound.registrationOf_of_pop {q q' : FairQueue ρ} {cost : Cost} {d : Delivery ρ} (h : Sound q)
    (hpop : q.popWith cost = (some d, q')) : q.registrationOf d.target = some d.registration := by
  have e := h.effect (FairQueue.step_pop hpop)
  rw [← FairQueue.registrationOf_plain]
  generalize q'.plain = p' at e
  cases e with
  | @served t a resource size rest hnext hbacklog =>
    rw [PlainQueue.registrationOf, (q.listed_plain.next?_eq_some.mp hnext).1]
    rfl
  | quiet hquiet => cases hquiet

/-- The resources among some deliveries that were queued under a number. -/
def resourcesUnder (r : Nat) (deliveries : List (Delivery ρ)) : List ρ :=
  (deliveries.filter (·.registration == r)).map (·.resource)

theorem resourcesUnder_cons (r : Nat) (d : Delivery ρ) (ds : List (Delivery ρ)) :
    resourcesUnder r (d :: ds) =
      (if d.registration = r then [d.resource] else []) ++ resourcesUnder r ds := by
  rw [resourcesUnder, List.filter_cons]
  by_cases hr : d.registration = r
  · rw [if_pos (by simpa using hr), if_pos hr]
    rfl
  · rw [if_neg (by simpa using hr), if_neg hr]
    rfl

theorem resourcesUnder_append (r : Nat) (ds es : List (Delivery ρ)) :
    resourcesUnder r (ds ++ es) = resourcesUnder r ds ++ resourcesUnder r es := by
  rw [resourcesUnder, List.filter_append, List.map_append]
  rfl

theorem resourcesUnder_eq_nil {r : Nat} {ds : List (Delivery ρ)} (h : ∀ d ∈ ds, d.registration ≠ r) :
    resourcesUnder r ds = [] := by
  rw [resourcesUnder, List.filter_eq_nil_iff.mpr fun d hd heq => h d hd (eq_of_beq heq), List.map_nil]

/-- What a history handed out under a number. -/
theorem map_poppedUnder (r : Nat) (h : List (Step ρ)) :
    (poppedUnder r h).map (·.1) = resourcesUnder r (deliveries h) := by
  simp only [poppedUnder, Step.popped, resourcesUnder, deliveries, List.filter_flatMap,
    List.map_flatMap, List.map_map]
  rfl

end Fair

namespace FairQueue

variable {q q' : FairQueue ρ} {numbers : List (TargetId × Nat)} {accepted : Nat → List ρ}
  {handed : List (Delivery ρ)} {t u : TargetId} {r : Nat}

/-! ### The past of a queue -/

/-- A queue has the past that it made these registrations, accepted these resources under each number, and
handed out these deliveries, all in order. -/
def Supplies (q : FairQueue ρ) (numbers : List (TargetId × Nat)) (accepted : Nat → List ρ)
    (handed : List (Delivery ρ)) : Prop :=
  ∃ h, Sound q ∧ Ledger h q.plain ∧ registrations h = numbers ∧
    (∀ r, (acceptedUnder r h).map (·.1) = accepted r) ∧ deliveries h = handed

namespace Supplies

theorem ofSettings (settings : FairSettings) :
    (FairQueue.ofSettings settings : FairQueue ρ).Supplies [] (fun _ => []) [] := by
  refine ⟨[], Sound.ofSettings settings, ?_, rfl, fun _ => rfl, rfl⟩
  rw [plain_ofSettings]
  exact Ledger.empty settings

theorem sound (s : q.Supplies numbers accepted handed) : Sound q := by
  obtain ⟨h, hsound, -⟩ := s
  exact hsound

/-! ### What the past of a queue tells -/

theorem mem_numbers (s : q.Supplies numbers accepted handed) (ht : q.registrationOf t = some r) :
    (t, r) ∈ numbers := by
  obtain ⟨h, -, l, rfl, -, -⟩ := s
  rw [← registrationOf_plain] at ht
  obtain ⟨a, ha, rfl⟩ := Option.map_eq_some_iff.mp ht
  exact l.current ha

theorem nodup_numbers (s : q.Supplies numbers accepted handed) : (numbers.map (·.2)).Nodup := by
  obtain ⟨h, -, l, rfl, -, -⟩ := s
  rw [l.numbers]
  exact List.nodup_range'

theorem target_unique (s : q.Supplies numbers accepted handed) (ht : (t, r) ∈ numbers)
    (hu : (u, r) ∈ numbers) : t = u := by
  obtain ⟨h, -, l, rfl, -, -⟩ := s
  exact l.target_unique ht hu

theorem mem_of_handed (s : q.Supplies numbers accepted handed) {d : Delivery ρ} (hd : d ∈ handed) :
    (d.target, d.registration) ∈ numbers := by
  obtain ⟨h, -, l, rfl, -, rfl⟩ := s
  exact l.targets d hd

/-- What was handed out under a number is a first part of what was accepted under it. -/
theorem handed_prefix (s : q.Supplies numbers accepted handed) (r : Nat) :
    resourcesUnder r handed <+: accepted r := by
  obtain ⟨h, -, l, rfl, haccepted, rfl⟩ := s
  rw [← map_poppedUnder, ← haccepted]
  by_cases hr : ∃ t, (t, r) ∈ registrations h
  · obtain ⟨t, ht⟩ := hr
    refine List.IsPrefix.map _ ?_
    rcases (l.accounted ht).fate with ⟨a, -, -, hrunning, -⟩ | ⟨-, rest, hended, -⟩
    · exact ⟨a.backlog, hrunning.symm⟩
    · exact ⟨rest, hended.symm⟩
  · -- Nothing is handed out under a number that was never given.
    have hnone : resourcesUnder r (deliveries h) = [] :=
      resourcesUnder_eq_nil fun d hd heq => hr ⟨d.target, heq ▸ l.targets d hd⟩
    rw [map_poppedUnder, hnone]
    exact List.nil_prefix

/-! ### What the operations add -/

theorem call {cost : Cost} {call : Call ρ} {answer : Answer ρ}
    (s : q.Supplies numbers accepted handed) (hstep : q.step cost call = (answer, q')) :
    q'.Supplies (numbers ++ (⟨q.plain, call, answer, q'.plain⟩ : Step ρ).registered)
      (fun r => accepted r ++ ((⟨q.plain, call, answer, q'.plain⟩ : Step ρ).accepted r).map (·.1))
      (handed ++ (⟨q.plain, call, answer, q'.plain⟩ : Step ρ).delivered) := by
  obtain ⟨h, hsound, l, rfl, haccepted, rfl⟩ := s
  have hsound' := (hsound.step cost call).sound
  rw [hstep] at hsound'
  refine ⟨_, hsound', l.effect (hsound.effect hstep), registrations_snoc h _, fun r => ?_,
    deliveries_snoc h _⟩
  rw [acceptedUnder_snoc, List.map_append, haccepted]

theorem addTarget {priority : Number.Single} (s : q.Supplies numbers accepted handed)
    (hadd : q.addTarget t priority = .ok (r, q')) :
    q'.Supplies (numbers ++ [(t, r)]) accepted handed ∧ ∀ u, (u, r) ∉ numbers := by
  have hstep := step_addTarget Fair.cost hadd
  refine ⟨?_, fun u hu => ?_⟩
  · have hcall := s.call hstep
    simp only [Step.registered, Step.accepted, Step.delivered, List.map_nil, List.append_nil] at hcall
    exact hcall
  · obtain ⟨h, hsound, l, rfl, -, -⟩ := s
    have hlt := l.lt_next hu
    generalize q'.plain = after, hsound.effect hstep = e at *
    cases e with
    | enrolled => exact Nat.lt_irrefl _ hlt
    | quiet hquiet => cases hquiet

/-- A call that is answered in one of the other ways adds nothing, unless it is a push or a pop. -/
theorem quiet {cost : Cost} {call : Call ρ} {answer : Answer ρ} (s : q.Supplies numbers accepted handed)
    (hstep : q.step cost call = (answer, q'))
    (hregistered : (⟨q.plain, call, answer, q'.plain⟩ : Step ρ).registered = [])
    (haccepted : ∀ r, (⟨q.plain, call, answer, q'.plain⟩ : Step ρ).accepted r = [])
    (hdelivered : (⟨q.plain, call, answer, q'.plain⟩ : Step ρ).delivered = []) :
    q'.Supplies numbers accepted handed := by
  have hcall := s.call hstep
  simp only [hregistered, haccepted, hdelivered, List.map_nil, List.append_nil] at hcall
  exact hcall

theorem removeTarget {backlog : List ρ} (s : q.Supplies numbers accepted handed)
    (hremove : q.removeTarget t = .ok (backlog, q')) : q'.Supplies numbers accepted handed :=
  s.quiet (step_removeTarget Fair.cost hremove) rfl (fun _ => rfl) rfl

theorem setPriority {priority : Number.Single} (s : q.Supplies numbers accepted handed)
    (hset : q.setPriority t priority = .ok q') : q'.Supplies numbers accepted handed :=
  s.quiet (step_setPriority Fair.cost hset) rfl (fun _ => rfl) rfl

theorem peek (s : q.Supplies numbers accepted handed) : q.peek.2.Supplies numbers accepted handed :=
  s.quiet (q.step_peek Fair.cost) rfl (fun _ => rfl) rfl

theorem pushSized {resource : ρ} {size : Nat} (s : q.Supplies numbers accepted handed)
    (hpush : q.pushSized t resource size = .ok q') :
    q'.Supplies numbers
      (fun r => accepted r ++ if q.registrationOf t = some r then [resource] else []) handed := by
  have haccepted : ∀ r, ((⟨q.plain, .push t resource size, .done, q'.plain⟩ : Step ρ).accepted r).map
      (·.1) = if q.registrationOf t = some r then [resource] else [] := by
    intro r
    show (if q.plain.registrationOf t = some r then [(resource, size)] else []).map (·.1) = _
    rw [registrationOf_plain]
    split <;> rfl
  have hcall := s.call (step_push Fair.cost hpush)
  simp only [haccepted, Step.registered, Step.delivered, List.append_nil] at hcall
  exact hcall

theorem pop {taken : Option (Delivery ρ)} (s : q.Supplies numbers accepted handed)
    (hpop : q.pop = (taken, q')) : q'.Supplies numbers accepted (handed ++ taken.toList) := by
  have hdelivered : (⟨q.plain, .pop, .delivery taken, q'.plain⟩ : Step ρ).delivered =
      taken.toList := by
    cases taken with
    | none => rfl
    | some d => rfl
  have hcall := s.call (step_pop hpop)
  simp only [hdelivered, Step.registered, Step.accepted, List.map_nil, List.append_nil] at hcall
  exact hcall

end Supplies

end FairQueue

end Sluice
