import Sluice.Proofs.Fair.Stock

/-!
# Who comes first

A peek shows the target that is served next, with the size of what it gets. The first target stays the first one
as long as nothing is queued and nothing is served, unless it is itself taken out: new targets have nothing
waiting, and a priority matters only when a resource is served (`Sound.peek_of_keepsHead`).
-/

namespace Sluice

open Fair

variable {ρ : Type}

namespace PlainQueue

variable {p p' : PlainQueue ρ} {t : TargetId} {size : Nat}

theorem peek_eq_some :
    p.peek = some (t, size) ↔ ∃ a, p.next? = some (t, a) ∧ a.backlog.head?.map (·.2) = some size := by
  rw [peek]
  cases hnext : p.next? with
  | none => simp
  | some next =>
    obtain ⟨u, a⟩ := next
    cases hhead : a.backlog.head? with
    | none => simp [hhead]
    | some first =>
      obtain ⟨resource, weight⟩ := first
      simp [hhead]

/-- Nothing is shown when nobody is busy. -/
theorem Listed.peek_eq_none (hp : p.Listed) : p.peek = none ↔ p.next? = none := by
  cases hnext : p.next? with
  | none => simp [peek, hnext]
  | some next =>
    obtain ⟨u, a⟩ := next
    obtain ⟨-, hbusy, -⟩ := hp.next?_eq_some.mp hnext
    obtain ⟨first, rest, hbacklog⟩ := List.exists_cons_of_length_pos (Account.backlog_pos hbusy)
    simp [peek, hnext, hbacklog]

/-- The first target stays the first one if it keeps its rank and its backlog, and if nobody else becomes busy or
comes further to the front. -/
theorem Listed.peek_of_kept (hp : p.Listed) (hp' : p'.Listed) (hpeek : p.peek = some (t, size))
    (hkept : ∀ a, p.account t = some a →
      ∃ a', p'.account t = some a' ∧ a'.rank t = a.rank t ∧ a'.backlog = a.backlog)
    (hothers : ∀ u b, p'.account u = some b → b.isBusy = true →
      ∃ c, p.account u = some c ∧ c.isBusy = true ∧ c.rank u = b.rank u) :
    p'.peek = some (t, size) := by
  obtain ⟨a, hnext, hsize⟩ := peek_eq_some.mp hpeek
  obtain ⟨ha, hbusy, hleast⟩ := hp.next?_eq_some.mp hnext
  obtain ⟨a', ha', hrank, hbacklog⟩ := hkept a ha
  refine peek_eq_some.mpr ⟨a', hp'.next?_eq_some.mpr ⟨ha', ?_, ?_⟩, ?_⟩
  · rw [Account.isBusy, hbacklog]
    exact hbusy
  · intro u b hb hbusy
    obtain ⟨c, hc, hbusy, hsame⟩ := hothers u b hb hbusy
    rw [hrank, ← hsame]
    exact hleast u c hc hbusy
  · rw [hbacklog]
    exact hsize

end PlainQueue

namespace Fair

variable {cost : Cost} {p p' : PlainQueue ρ} {call : Call ρ} {answer : Answer ρ} {t : TargetId} {size : Nat}

/-- Whether a call neither queues nor serves a resource. -/
def Call.keepsHead : Call ρ → Bool
  | .push _ _ _ => false
  | .pop => false
  | _ => true

/-- Without a resource that is queued or served, the first target stays the first one or is taken out. -/
theorem Effect.peek_eq (hp : p.Listed) (e : Effect cost p call answer p') (hcall : call.keepsHead = true)
    (hpeek : p.peek = some (t, size)) (hstays : p'.account t ≠ none) : p'.peek = some (t, size) := by
  cases e with
  | @enrolled u priority hu =>
    refine hp.peek_of_kept (hp.enroll priority) hpeek (fun a ha => ⟨a, ?_, rfl, rfl⟩) fun v b hv hbusy => ?_
    · have hne : t ≠ u := by
        rintro rfl
        cases hu.symm.trans ha
      rw [PlainQueue.account_enroll, if_neg hne]
      exact ha
    · rcases PlainQueue.of_account_enroll hv with ⟨-, rfl⟩ | ⟨-, hb⟩
      · cases hbusy
      · exact ⟨b, hb, hbusy, rfl⟩
  | @dismissed u a hu =>
    refine hp.peek_of_kept (hp.dismiss u) hpeek (fun a ha => ⟨a, ?_, rfl, rfl⟩) fun v b hv hbusy => ?_
    · rw [PlainQueue.account_dismiss] at hstays ⊢
      split at hstays
      · exact absurd rfl hstays
      · next hne => rw [if_neg hne, ha]
    · exact ⟨b, (PlainQueue.of_account_dismiss hv).2, hbusy, rfl⟩
  | @reprioritised u c priority hu =>
    refine hp.peek_of_kept (hp.write hu) hpeek (fun a ha => ?_) fun v b hv hbusy => ?_
    · rw [PlainQueue.account_write]
      split
      · next htu =>
        subst htu
        obtain rfl := Option.some.inj (ha.symm.trans hu)
        exact ⟨_, rfl, rfl, rfl⟩
      · exact ⟨a, ha, rfl, rfl⟩
    · rcases PlainQueue.of_account_write hv with ⟨rfl, rfl⟩ | ⟨-, hb⟩
      · exact ⟨c, hu, hbusy, rfl⟩
      · exact ⟨b, hb, hbusy, rfl⟩
  | enqueued => cases hcall
  | served => cases hcall
  | quiet => exact hpeek

namespace Sound

variable {q q' : FairQueue ρ}

theorem peek_plain (h : Sound q) : q.plain.peek = q.peek.1 := by
  have hanswer : Answer.head q.peek.1 = Answer.head q.plain.peek := (h.step Fair.cost .peek).answer
  exact (Answer.head.inj hanswer).symm

/-- A peek shows what the peek before it has shown. -/
theorem peek_peek (h : Sound q) : q.peek.2.peek.1 = q.peek.1 := by
  have htracks := h.step Fair.cost .peek
  have hplain : q.peek.2.plain = q.plain := htracks.plain
  have hsound : Sound q.peek.2 := htracks.sound
  rw [← hsound.peek_plain, hplain, h.peek_plain]

theorem registered_of_peek (h : Sound q) (hpeek : q.peek.1 = some (t, size)) :
    ∃ r, q.registrationOf t = some r := by
  rw [← h.peek_plain] at hpeek
  obtain ⟨a, hnext, -⟩ := PlainQueue.peek_eq_some.mp hpeek
  have ha := (q.listed_plain.next?_eq_some.mp hnext).1
  refine ⟨a.registration, ?_⟩
  rw [← FairQueue.registrationOf_plain, PlainQueue.registrationOf, ha, Option.map_some]

/-- Nothing waits when a peek shows nothing. -/
theorem pending_eq_zero (h : Sound q) : q.pending = 0 ↔ q.peek.1 = none := by
  rw [h.pending, q.listed_plain.pending_eq_zero, ← q.listed_plain.peek_eq_none, h.peek_plain]

/-- Without a resource that is queued or served, the first target stays the first one or is taken out. -/
theorem peek_of_keepsHead (h : Sound q) (hstep : q.step cost call = (answer, q'))
    (hcall : call.keepsHead = true) (hpeek : q.peek.1 = some (t, size))
    (hstays : q'.registrationOf t ≠ none) : q'.peek.1 = some (t, size) := by
  have hsound : Sound q' := h.of_step hstep
  rw [← h.peek_plain] at hpeek
  rw [← hsound.peek_plain]
  refine (h.effect hstep).peek_eq q.listed_plain hcall hpeek fun hnone => hstays ?_
  rw [← FairQueue.registrationOf_plain, PlainQueue.registrationOf, hnone, Option.map_none]

end Sound

end Fair

namespace FairQueue

/-- The second queue is the first one after one call at most, and that neither queues nor serves a resource. -/
inductive Calm (q : FairQueue ρ) : FairQueue ρ → Prop
  | same : q.Calm q
  | call {call : Call ρ} {answer : Answer ρ} {q' : FairQueue ρ} :
      call.keepsHead = true → q.step Fair.cost call = (answer, q') → q.Calm q'

theorem Calm.peek {q q' : FairQueue ρ} {t : TargetId} {size : Nat} (c : q.Calm q') (h : Sound q)
    (hpeek : q.peek.1 = some (t, size)) (hstays : q'.registrationOf t ≠ none) :
    q'.peek.1 = some (t, size) := by
  cases c with
  | same => exact hpeek
  | call hcall hstep => exact h.peek_of_keepsHead hstep hcall hpeek hstays

theorem Calm.sound {q q' : FairQueue ρ} (c : q.Calm q') (h : Sound q) : Sound q' := by
  cases c with
  | same => exact h
  | call _ hstep => exact h.of_step hstep

/-- Nothing is queued, so no more waits than before. -/
theorem Calm.pending_le {q q' : FairQueue ρ} (c : q.Calm q') (h : Sound q) : q'.pending ≤ q.pending := by
  cases c with
  | same => exact Nat.le_refl _
  | @call call answer _ hcall hstep =>
    have hnone : (⟨q.plain, call, answer, q'.plain⟩ : Step ρ).incoming = 0 := by
      cases call with
      | push => cases hcall
      | _ => rfl
    have hpending := (h.pending_step hstep).1
    omega

section

variable [Resource ρ] {q q' : FairQueue ρ}

/-- The second queue is the first one after one call at most, and what that queues, it queues with its own size. -/
inductive Tended (q : FairQueue ρ) : FairQueue ρ → Prop
  | same : q.Tended q
  | call {call : Call ρ} {answer : Answer ρ} {q' : FairQueue ρ} :
      call.Weighs → q.step Fair.cost call = (answer, q') → q.Tended q'

theorem Calm.tended (c : q.Calm q') : q.Tended q' := by
  cases c with
  | same => exact .same
  | @call call answer _ hcall hstep =>
    refine .call (fun t resource size h => ?_) hstep
    rw [h] at hcall
    cases hcall

theorem Tended.push {t : TargetId} {resource : ρ} (hpush : q.push t resource = .ok q') : q.Tended q' :=
  .call (weighs_push t resource) (step_push Fair.cost hpush)

theorem Tended.sound (c : q.Tended q') (h : Sound q) : Sound q' := by
  cases c with
  | same => exact h
  | call _ hstep => exact h.of_step hstep

/-- What is queued keeps its size. -/
theorem Tended.stocked (c : q.Tended q') (s : Stocked q.pending q.delivered q) :
    Stocked q'.pending q'.delivered q' := by
  cases c with
  | same => exact s
  | call hcall hstep =>
    obtain ⟨left, -, s'⟩ := s.call hstep hcall
    exact ⟨s'.sound, s'.weighed, rfl, rfl⟩

end

end FairQueue

end Sluice
