import Sluice.Proofs.Fair.Calls

/-!
# What a call can do to the books

`Effect` lists, once and for all, the ways in which a call changes the books of a plain queue, with
what is known when it does. `step_effect` says that every step is one of them. What a run keeps is
proved from it, one case for each effect.
-/

namespace Sluice.Fair

variable {ρ : Type}

/-- The changes that a call can make, with its answer. -/
inductive Effect (cost : Cost) (p : PlainQueue ρ) : Call ρ → Answer ρ → PlainQueue ρ → Prop
  | enrolled {t : TargetId} {priority : Number.Single} :
      p.account t = none →
      Effect cost p (.addTarget t priority) (.registered p.nextRegistration) (p.enroll t priority)
  | dismissed {t : TargetId} {a : Account ρ} :
      p.account t = some a →
      Effect cost p (.removeTarget t) (.returned (a.backlog.map (·.1))) (p.dismiss t)
  | reprioritised {t : TargetId} {a : Account ρ} {priority : Number.Single} :
      p.account t = some a →
      Effect cost p (.setPriority t priority) .done (p.write t { a with priority })
  | enqueued {t : TargetId} {a : Account ρ} {resource : ρ} {size : Nat} :
      p.account t = some a →
      Effect cost p (.push t resource size) .done (p.enqueue t a resource size)
  | served {t : TargetId} {a : Account ρ} {resource : ρ} {size : Nat} {rest : List (ρ × Nat)} :
      p.next? = some (t, a) → a.backlog = (resource, size) :: rest →
      Effect cost p .pop (.delivery (some ⟨t, a.registration, resource, size⟩))
        (p.serve t a rest size (cost a.priority size))
  | quiet {call : Call ρ} {answer : Answer ρ} :
      answer.isQuiet = true → Effect cost p call answer p

theorem step_effect (cost : Cost) (p : PlainQueue ρ) (call : Call ρ) :
    Effect cost p call (p.step cost call).1 (p.step cost call).2 := by
  cases call with
  | addTarget t priority =>
    simp only [PlainQueue.step, PlainQueue.addTarget, FairQueue.checkPriority]
    cases priority.isPositive with
    | false => exact .quiet rfl
    | true =>
      cases ht : p.account t with
      | some a => exact .quiet rfl
      | none =>
        by_cases hmax : p.settings.maxTargets ≤ p.ids.length
        · simp only [hmax, if_true]
          exact .quiet rfl
        · simp only [hmax, if_false]
          exact .enrolled ht
  | removeTarget t =>
    simp only [PlainQueue.step, PlainQueue.removeTarget]
    cases ht : p.account t with
    | none => exact .quiet rfl
    | some a => exact .dismissed ht
  | setPriority t priority =>
    simp only [PlainQueue.step, PlainQueue.setPriority, FairQueue.checkPriority]
    cases priority.isPositive with
    | false => exact .quiet rfl
    | true =>
      cases ht : p.account t with
      | none => exact .quiet rfl
      | some a => exact .reprioritised ht
  | push t resource size =>
    simp only [PlainQueue.step, PlainQueue.push]
    cases ht : p.account t with
    | none => exact .quiet rfl
    | some a =>
      by_cases hmax : p.settings.maxBacklog ≤ a.backlog.length
      · simp only [hmax, if_true]
        exact .quiet rfl
      · simp only [hmax, if_false]
        exact .enqueued ht
  | peek => exact .quiet rfl
  | pop =>
    simp only [PlainQueue.step, PlainQueue.pop]
    cases hnext : p.next? with
    | none => exact .quiet rfl
    | some e =>
      obtain ⟨t, a⟩ := e
      cases hbacklog : a.backlog with
      | nil =>
        simp only [hbacklog]
        exact .quiet rfl
      | cons head rest =>
        simp only [hbacklog]
        exact .served hnext hbacklog
  | query question =>
    cases question with
    | _ => exact .quiet rfl

theorem Effect.listed {cost : Cost} {p p' : PlainQueue ρ} {call : Call ρ} {answer : Answer ρ}
    (e : Effect cost p call answer p') (h : p.Listed) : p'.Listed := by
  cases e with
  | enrolled ht => exact h.enroll _
  | dismissed ht => exact h.dismiss _
  | reprioritised ht => exact h.write ht
  | enqueued ht => exact (h.write ht).congr rfl rfl
  | served hnext hbacklog => exact (h.write (h.next?_eq_some.mp hnext).1).congr rfl rfl
  | quiet hquiet => exact h

/-- The changes that a step can make to the account of a target that it leaves registered, with its
answer. -/
inductive Change (cost : Cost) (p : PlainQueue ρ) (t : TargetId) (a : Account ρ) :
    Answer ρ → Account ρ → Prop
  | kept {answer : Answer ρ} {a' : Account ρ} :
      a'.registration = a.registration → a'.virtualTime = a.virtualTime →
      a'.activation = a.activation → a'.isBusy = a.isBusy →
      (∀ d, answer = .delivery (some d) → d.target ≠ t) → Change cost p t a answer a'
  | lifted {resource : ρ} {size : Nat} :
      a.isBusy = false → Change cost p t a .done (p.filled a resource size)
  | served {resource : ρ} {size : Nat} {rest : List (ρ × Nat)} :
      p.next? = some (t, a) → a.backlog = (resource, size) :: rest →
      Change cost p t a (.delivery (some ⟨t, a.registration, resource, size⟩))
        (a.served rest size (cost a.priority size))

theorem Effect.change {cost : Cost} {p p' : PlainQueue ρ} {call : Call ρ} {answer : Answer ρ}
    (e : Effect cost p call answer p') (hp : p.Listed) {t : TargetId} {a a' : Account ρ}
    (ha : p.account t = some a) (ha' : p'.account t = some a') : Change cost p t a answer a' := by
  have other : p.account t = some a' → (∀ d, answer = .delivery (some d) → d.target ≠ t) →
      Change cost p t a answer a' := by
    intro hsame hd
    obtain rfl := Option.some.inj (ha.symm.trans hsame)
    exact .kept rfl rfl rfl rfl hd
  cases e with
  | enrolled hu =>
    rcases PlainQueue.of_account_enroll ha' with ⟨rfl, -⟩ | ⟨-, hsame⟩
    · rw [hu] at ha
      cases ha
    · exact other hsame fun d hd => nomatch hd
  | dismissed hu =>
    exact other (PlainQueue.of_account_dismiss ha').2 fun d hd => nomatch hd
  | reprioritised hu =>
    rcases PlainQueue.of_account_write ha' with ⟨rfl, rfl⟩ | ⟨-, hsame⟩
    · obtain rfl := Option.some.inj (ha.symm.trans hu)
      exact .kept rfl rfl rfl rfl fun d hd => nomatch hd
    · exact other hsame fun d hd => nomatch hd
  | @enqueued u c resource size hu =>
    rcases PlainQueue.of_account_write ha' with ⟨rfl, rfl⟩ | ⟨-, hsame⟩
    · obtain rfl := Option.some.inj (ha.symm.trans hu)
      cases hbusy : a.isBusy with
      | true =>
        have hfilled : p.filled a resource size = a.enqueue resource size := by
          rw [PlainQueue.filled, if_pos hbusy]
        rw [hfilled]
        refine .kept rfl rfl rfl ?_ fun d hd => nomatch hd
        rw [hbusy, Account.isBusy]
        simp [Account.enqueue]
      | false => exact .lifted hbusy
    · exact other hsame fun d hd => nomatch hd
  | @served u c resource size rest hnext hbacklog =>
    have hu := (hp.next?_eq_some.mp hnext).1
    rcases PlainQueue.of_account_write ha' with ⟨rfl, rfl⟩ | ⟨hne, hsame⟩
    · obtain rfl := Option.some.inj (ha.symm.trans hu)
      exact .served hnext hbacklog
    · refine other hsame fun d hd => ?_
      cases hd
      exact Ne.symm hne
  | quiet hquiet =>
    refine other ha' fun d hd => ?_
    rw [hd] at hquiet
    cases hquiet

theorem Change.registration_eq {cost : Cost} {p : PlainQueue ρ} {t : TargetId} {a a' : Account ρ}
    {answer : Answer ρ} (c : Change cost p t a answer a') : a'.registration = a.registration := by
  cases c with
  | kept hsame => exact hsame
  | lifted hidle => exact PlainQueue.registration_filled
  | served hnext hbacklog => rfl

end Sluice.Fair
