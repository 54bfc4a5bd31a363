import Sluice.Proofs.Fair.Refinement

/-!
# What a call on a fair queue leaves alone

`Refused` lists the cases in which a call is refused, each with its error: it says what is wrong with the
call, and that nothing which is looked at earlier is. `Issue` lists the calls that give a target a new slot,
with the queue as it stands just before, and `Outcome` says once and for all what a call makes of a slotted
queue (`step_outcome`). The rest is read off it: a refused call leaves the whole queue as it was, heap and
counters included, and any other call leaves what is kept for every target but one.
-/

namespace Sluice

open Fair

variable {ρ : Type} {q : FairQueue ρ} {cost : Cost} {t u : TargetId}

namespace FairQueue

/-! ### New slots -/

/-- The queue with a new live slot for a target with an entry. -/
def withSlot (q : FairQueue ρ) (t : TargetId) (e : Entry ρ) : FairQueue ρ :=
  { q with
    targets := q.targets.set t { e with generation := q.nextGeneration }
    heap := q.heap.insert Slot.le ⟨e.virtualTime, e.activation, t, q.nextGeneration⟩
    nextGeneration := q.nextGeneration + 1 }

/-- Whether there are so many slots that the heap is built anew. -/
def IsCrowded (q : FairQueue ρ) : Prop := 2 * q.targets.size + slack < q.heap.size

instance (q : FairQueue ρ) : Decidable q.IsCrowded := inferInstanceAs (Decidable (_ < _))

theorem issue_of_get? {e : Entry ρ} (he : q.targets.get? t = some e) :
    q.issue t = if (q.withSlot t e).IsCrowded then (q.withSlot t e).compact else q.withSlot t e := by
  rw [issue, he]
  rfl

theorem issue_of_get?_none (he : q.targets.get? t = none) : q.issue t = q := by
  rw [issue, he]

theorem get?_issue_of_ne (q : FairQueue ρ) (h : t ≠ u) :
    (q.issue t).targets.get? u = q.targets.get? u := by
  cases he : q.targets.get? t with
  | none => rw [issue_of_get?_none he]
  | some e =>
    have hset : (q.withSlot t e).targets.get? u = q.targets.get? u :=
      (Roster.get?_set _ _ _ _).trans (if_neg h)
    rw [issue_of_get? he]
    split
    · exact hset
    · exact hset

/-- The queue with the counters of one more resource queued. -/
def countQueued (q : FairQueue ρ) : FairQueue ρ :=
  { q with pending := q.pending + 1, enqueued := q.enqueued + 1 }

/-- The queue with the counters of one more resource handed out. -/
def countServed (q : FairQueue ρ) (size : Nat) : FairQueue ρ :=
  { q with
    pending := q.pending - 1
    delivered := q.delivered + 1
    deliveredBytes := Word.add q.deliveredBytes size }

/-- A change that leaves targets and slots alone may as well come after a new slot as before it. -/
theorem issue_comm {f : FairQueue ρ → FairQueue ρ} (htargets : (f q).targets = q.targets)
    (hslot : ∀ e, (f q).withSlot t e = f (q.withSlot t e)) (hcompact : ∀ p, (f p).compact = f p.compact)
    (hcrowded : ∀ p, (f p).IsCrowded ↔ p.IsCrowded) : (f q).issue t = f (q.issue t) := by
  cases he : q.targets.get? t with
  | none => rw [issue_of_get?_none he, issue_of_get?_none (htargets.symm ▸ he)]
  | some e =>
    rw [issue_of_get? he, issue_of_get? (htargets.symm ▸ he), hslot, apply_ite f, hcompact]
    exact if_congr (hcrowded _) rfl rfl

theorem issue_countQueued (q : FairQueue ρ) (t : TargetId) :
    q.countQueued.issue t = (q.issue t).countQueued :=
  issue_comm rfl (fun _ => rfl) (fun _ => rfl) fun _ => Iff.rfl

theorem issue_countServed (q : FairQueue ρ) (size : Nat) (t : TargetId) :
    (q.countServed size).issue t = (q.issue t).countServed size :=
  issue_comm (f := (countServed · size)) rfl (fun _ => rfl) (fun _ => rfl) fun _ => Iff.rfl

/-- The settled queue with a first resource for an idle target, which is lifted and takes its place in the
order of becoming busy, but has no slot yet. -/
def woken (q : FairQueue ρ) (t : TargetId) (e : Entry ρ) (resource : ρ) (size : Nat) : FairQueue ρ :=
  ({ q.settle with
    targets := q.settle.targets.set t { e with
      backlog := e.backlog.push (resource, size)
      virtualTime := max e.virtualTime q.settle.leastBusy
      activation := q.settle.nextActivation }
    nextActivation := q.settle.nextActivation + 1 } : FairQueue ρ).countQueued

/-- The settled queue without its top, for whose target a resource of a size is handed out. The target is left
with an entry, but has no slot. -/
def drawn (q : FairQueue ρ) (s : Slot) (e : Entry ρ) (size : Nat) : FairQueue ρ :=
  ({ q.settle with
    heap := q.settle.heap.dropLeast Slot.le
    floor := max q.settle.floor s.virtualTime
    targets := q.settle.targets.set s.target e } : FairQueue ρ).countServed size

section

variable {s : Slot} {e : Entry ρ} {resource : ρ} {size : Nat} {backlog : Fifo (ρ × Nat)}

/-- The top of the settled heap is served, and its target has a new slot if it is still busy. -/
theorem step_pop_served (hleast : q.settle.heap.least? = some s) (he : q.targets.get? s.target = some e)
    (hpop : e.backlog.pop? = some ((resource, size), backlog)) :
    q.step cost .pop = (.delivery (some ⟨s.target, e.registration, resource, size⟩),
      (q.reslotted s (e.served backlog (Word.add s.virtualTime (cost e.priority size)) size)).countServed size) := by
  have he' : q.settle.targets.get? s.target = some e := he
  refine step_pop ?_
  simp only [popWith, hleast, he', hpop]
  rfl

theorem reslotted_of_idle (q : FairQueue ρ) (s : Slot) (h : e.backlog.isEmpty = true) :
    (q.reslotted s e).countServed size = q.drawn s e size := by
  rw [reslotted, h]
  rfl

theorem reslotted_of_busy (q : FairQueue ρ) (s : Slot) (h : e.backlog.isEmpty = false) :
    (q.reslotted s e).countServed size = (q.drawn s e size).issue s.target := by
  rw [reslotted, h, drawn, issue_countServed]
  rfl

end

end FairQueue

namespace Fair

/-! ### Refusals -/

/-- When a call is refused, and with which error. -/
inductive Refused (q : FairQueue ρ) : Call ρ → DeliveryError → Prop
  | addInvalid {t : TargetId} {priority : Number.Single} :
      priority.isPositive = false → Refused q (.addTarget t priority) (.invalidPriority priority)
  | addKnown {t : TargetId} {priority : Number.Single} :
      priority.isPositive = true → q.contains t = true →
      Refused q (.addTarget t priority) (.targetExists t)
  | addFull {t : TargetId} {priority : Number.Single} :
      priority.isPositive = true → q.contains t = false → q.settings.maxTargets ≤ q.stats.targets →
      Refused q (.addTarget t priority) (.tooManyTargets q.settings.maxTargets)
  | removeUnknown {t : TargetId} :
      q.contains t = false → Refused q (.removeTarget t) (.targetNotFound t)
  | priorityInvalid {t : TargetId} {priority : Number.Single} :
      priority.isPositive = false → Refused q (.setPriority t priority) (.invalidPriority priority)
  | priorityUnknown {t : TargetId} {priority : Number.Single} :
      priority.isPositive = true → q.contains t = false →
      Refused q (.setPriority t priority) (.targetNotFound t)
  | pushUnknown {t : TargetId} {resource : ρ} {size : Nat} :
      q.contains t = false → Refused q (.push t resource size) (.targetNotFound t)
  | pushFull {t : TargetId} {resource : ρ} {size waiting : Nat} :
      q.pendingOf t = some waiting → q.settings.maxBacklog ≤ waiting →
      Refused q (.push t resource size) (.queueFull t waiting q.settings.maxBacklog)

theorem contains_eq_false_iff : q.contains t = false ↔ q.targets.get? t = none := by
  rw [FairQueue.contains, Roster.contains, Option.isSome_eq_false_iff, Option.isNone_iff_eq_none]

/-- A call is refused in these cases, and the queue is left as it was. -/
theorem Refused.step {call : Call ρ} {error : DeliveryError} (h : Refused q call error) (cost : Cost) :
    q.step cost call = (.refused error, q) := by
  cases h with
  | addInvalid hpriority =>
    simp only [FairQueue.step, FairQueue.addTarget, FairQueue.checkPriority, hpriority]
    rfl
  | addKnown hpriority hknown =>
    have hcontains : q.targets.contains _ = true := hknown
    simp only [FairQueue.step, FairQueue.addTarget, FairQueue.checkPriority, hpriority, hcontains]
    rfl
  | addFull hpriority hunknown hmax =>
    have hcontains : q.targets.contains _ = false := hunknown
    have hsize : q.settings.maxTargets ≤ q.targets.size := hmax
    simp only [FairQueue.step, FairQueue.addTarget, FairQueue.checkPriority, hpriority, hcontains, hsize]
    rfl
  | removeUnknown hunknown =>
    simp only [FairQueue.step, FairQueue.removeTarget, contains_eq_false_iff.mp hunknown]
    rfl
  | priorityInvalid hpriority =>
    simp only [FairQueue.step, FairQueue.setPriority, FairQueue.checkPriority, hpriority]
    rfl
  | priorityUnknown hpriority hunknown =>
    simp only [FairQueue.step, FairQueue.setPriority, FairQueue.checkPriority, hpriority,
      contains_eq_false_iff.mp hunknown]
    rfl
  | pushUnknown hunknown =>
    simp only [FairQueue.step, FairQueue.pushSized, contains_eq_false_iff.mp hunknown]
    rfl
  | pushFull hwaiting hmax =>
    obtain ⟨e, he, rfl⟩ := Option.map_eq_some_iff.mp hwaiting
    simp only [FairQueue.step, FairQueue.pushSized, he, hmax, if_true]
    rfl

/-! ### Outcomes -/

/-- The calls that give a target a new slot, with what they answer and the queue as it stands just before. -/
inductive Issue (cost : Cost) (q : FairQueue ρ) : Call ρ → Answer ρ → FairQueue ρ → TargetId → Prop
  | reweighted {t : TargetId} {e : Entry ρ} {priority : Number.Single} :
      priority.isPositive = true → q.targets.get? t = some e → e.backlog.isEmpty = false →
      Issue cost q (.setPriority t priority) .done { q with targets := q.targets.set t { e with priority } } t
  | woken {t : TargetId} {e : Entry ρ} {resource : ρ} {size : Nat} :
      q.targets.get? t = some e → e.backlog.size < q.settings.maxBacklog → e.backlog.isEmpty = true →
      Issue cost q (.push t resource size) .done (q.woken t e resource size) t
  | served {s : Slot} {e : Entry ρ} {resource : ρ} {size : Nat} {backlog : Fifo (ρ × Nat)} :
      q.settle.heap.least? = some s → q.targets.get? s.target = some e →
      e.backlog.pop? = some ((resource, size), backlog) → backlog.isEmpty = false →
      Issue cost q .pop (.delivery (some ⟨s.target, e.registration, resource, size⟩))
        (q.drawn s (e.served backlog (Word.add s.virtualTime (cost e.priority size)) size) size) s.target

theorem Issue.step {call : Call ρ} {answer : Answer ρ} {p : FairQueue ρ} (h : Issue cost q call answer p t) :
    q.step cost call = (answer, p.issue t) := by
  cases h with
  | reweighted hpriority he hbusy =>
    simp only [FairQueue.step, FairQueue.setPriority, FairQueue.checkPriority, hpriority, he, hbusy]
    rfl
  | woken he hroom hidle =>
    simp only [FairQueue.step, FairQueue.pushSized, he, hidle, Nat.not_le.mpr hroom, if_false, if_true]
    rw [FairQueue.woken, FairQueue.issue_countQueued]
    rfl
  | served hleast he hpop hbusy =>
    rw [FairQueue.step_pop_served hleast he hpop]
    exact congrArg (Prod.mk _) (FairQueue.reslotted_of_busy q _ hbusy)

/-- What a call makes of a queue, with its answer. -/
inductive Outcome (cost : Cost) (q : FairQueue ρ) : Call ρ → Answer ρ → FairQueue ρ → Prop
  | refused {call : Call ρ} {error : DeliveryError} :
      Refused q call error → Outcome cost q call (.refused error) q
  | registered {t : TargetId} {priority : Number.Single} :
      q.targets.get? t = none →
      Outcome cost q (.addTarget t priority) (.registered q.nextRegistration)
        { q with
          targets := q.targets.set t { registration := q.nextRegistration, priority }
          nextRegistration := q.nextRegistration + 1 }
  | removed {t : TargetId} {e : Entry ρ} :
      q.targets.get? t = some e →
      Outcome cost q (.removeTarget t) (.returned (e.backlog.toList.map (·.1)))
        { q with targets := q.targets.erase t, pending := q.pending - e.backlog.size }
  | reweighted {t : TargetId} {e : Entry ρ} {priority : Number.Single} :
      q.targets.get? t = some e → e.backlog.isEmpty = true →
      Outcome cost q (.setPriority t priority) .done
        { q with targets := q.targets.set t { e with priority } }
  | queued {t : TargetId} {e : Entry ρ} {resource : ρ} {size : Nat} :
      q.targets.get? t = some e → e.backlog.isEmpty = false →
      Outcome cost q (.push t resource size) .done
        ({ q with targets :=
            q.targets.set t { e with backlog := e.backlog.push (resource, size) } } : FairQueue ρ).countQueued
  | drained {s : Slot} {e : Entry ρ} {resource : ρ} {size : Nat} {backlog : Fifo (ρ × Nat)} :
      q.settle.heap.least? = some s → q.targets.get? s.target = some e →
      e.backlog.pop? = some ((resource, size), backlog) → backlog.isEmpty = true →
      Outcome cost q .pop (.delivery (some ⟨s.target, e.registration, resource, size⟩))
        (q.drawn s (e.served backlog (Word.add s.virtualTime (cost e.priority size)) size) size)
  | issued {call : Call ρ} {answer : Answer ρ} {p : FairQueue ρ} {t : TargetId} :
      Issue cost q call answer p t → Outcome cost q call answer (p.issue t)
  | unserved : Outcome cost q .pop (.delivery none) q.settle
  | peeked : Outcome cost q .peek (.head q.peek.1) q.settle
  | asked {question : Query} : Outcome cost q (.query question) (q.answer question) q

/-- A call that gives a slot, from what it does step by step. -/
theorem Issue.outcome {call : Call ρ} {answer : Answer ρ} {p : FairQueue ρ} (h : Issue cost q call answer p t) :
    Outcome cost q call (q.step cost call).1 (q.step cost call).2 := by
  rw [h.step]
  exact .issued h

theorem Refused.outcome {call : Call ρ} {error : DeliveryError} (h : Refused q call error) :
    Outcome cost q call (q.step cost call).1 (q.step cost call).2 := by
  rw [h.step]
  exact .refused h

/-- Every call on a slotted queue has one of these outcomes. -/
theorem step_outcome (cost : Cost) (h : Slotted none q) (call : Call ρ) :
    Outcome cost q call (q.step cost call).1 (q.step cost call).2 := by
  cases call with
  | addTarget t priority =>
    cases hpriority : priority.isPositive with
    | false => exact (Refused.addInvalid hpriority).outcome
    | true =>
      cases hknown : q.contains t with
      | true => exact (Refused.addKnown hpriority hknown).outcome
      | false =>
        by_cases hmax : q.settings.maxTargets ≤ q.stats.targets
        · exact (Refused.addFull hpriority hknown hmax).outcome
        · have hcontains : q.targets.contains t = false := hknown
          have hsize : ¬ q.settings.maxTargets ≤ q.targets.size := hmax
          simp only [FairQueue.step, FairQueue.addTarget, FairQueue.checkPriority, hpriority, hcontains, hsize]
          exact .registered (contains_eq_false_iff.mp hknown)
  | removeTarget t =>
    cases he : q.targets.get? t with
    | none => exact (Refused.removeUnknown (contains_eq_false_iff.mpr he)).outcome
    | some e =>
      simp only [FairQueue.step, FairQueue.removeTarget, he]
      exact .removed he
  | setPriority t priority =>
    cases hpriority : priority.isPositive with
    | false => exact (Refused.priorityInvalid hpriority).outcome
    | true =>
      cases he : q.targets.get? t with
      | none => exact (Refused.priorityUnknown hpriority (contains_eq_false_iff.mpr he)).outcome
      | some e =>
        cases hempty : e.backlog.isEmpty with
        | false => exact (Issue.reweighted hpriority he hempty).outcome
        | true =>
          simp only [FairQueue.step, FairQueue.setPriority, FairQueue.checkPriority, hpriority, he, hempty]
          exact .reweighted he hempty
  | push t resource size =>
    cases he : q.targets.get? t with
    | none => exact (Refused.pushUnknown (contains_eq_false_iff.mpr he)).outcome
    | some e =>
      by_cases hmax : q.settings.maxBacklog ≤ e.backlog.size
      · have hwaiting : q.pendingOf t = some e.backlog.size := by
          rw [FairQueue.pendingOf, he, Option.map_some]
        exact (Refused.pushFull hwaiting hmax).outcome
      · cases hempty : e.backlog.isEmpty with
        | true => exact (Issue.woken he (Nat.not_le.mp hmax) hempty).outcome
        | false =>
          simp only [FairQueue.step, FairQueue.pushSized, he, hmax, hempty]
          exact .queued he hempty
  | peek => exact .peeked
  | pop =>
    cases hleast : q.settle.heap.least? with
    | none =>
      simp only [FairQueue.step, FairQueue.popWith, hleast]
      exact .unserved
    | some s =>
      obtain ⟨e, he, -, hnext⟩ := h.settle_least_eq_some hleast
      obtain ⟨-, hbusy, -⟩ := q.listed_plain.next?_eq_some.mp hnext
      cases hpop : e.backlog.pop? with
      | none =>
        -- The target of the top is busy.
        have hnil : e.account.backlog = [] := (Fifo.pop?_eq_none _).mp hpop
        simp [Account.isBusy, hnil] at hbusy
      | some popped =>
        obtain ⟨⟨resource, size⟩, backlog⟩ := popped
        cases hempty : backlog.isEmpty with
        | false => exact (Issue.served hleast he hpop hempty).outcome
        | true =>
          rw [FairQueue.step_pop_served hleast he hpop]
          dsimp only
          rw [FairQueue.reslotted_of_idle q s hempty]
          exact .drained hleast he hpop hempty
  | query question => exact .asked

/-! ### The target that a call is about -/

/-- The target that a call is about. A call for the next resource is about the target that it serves. -/
def Call.target? : Call ρ → Answer ρ → Option TargetId
  | .addTarget t _, _ => some t
  | .removeTarget t, _ => some t
  | .setPriority t _, _ => some t
  | .push t _ _, _ => some t
  | .pop, .delivery (some d) => some d.target
  | _, _ => none

theorem answer_ne_refused (q : FairQueue ρ) (question : Query) (error : DeliveryError) :
    q.answer question ≠ .refused error := by
  cases question with
  | _ => exact fun h => nomatch h

theorem Outcome.refused_of_eq {call : Call ρ} {answer : Answer ρ} {q' : FairQueue ρ} {error : DeliveryError}
    (h : Outcome cost q call answer q') (hanswer : answer = .refused error) : Refused q call error := by
  cases h with
  | refused hrefused =>
    cases hanswer
    exact hrefused
  | issued hissue =>
    subst hanswer
    cases hissue
  | asked => exact absurd hanswer (answer_ne_refused q _ error)
  | _ => cases hanswer

theorem Issue.get?_of_ne {call : Call ρ} {answer : Answer ρ} {p : FairQueue ρ} (h : Issue cost q call answer p t) :
    call.target? answer = some t ∧ ∀ u, t ≠ u → p.targets.get? u = q.targets.get? u := by
  cases h with
  | _ =>
    refine ⟨rfl, fun u hne => ?_⟩
    exact (Roster.get?_set _ _ _ _).trans (if_neg hne)

/-- An outcome leaves what is kept for all targets but the one that the call is about. -/
theorem Outcome.get?_of_ne {call : Call ρ} {answer : Answer ρ} {q' : FairQueue ρ}
    (h : Outcome cost q call answer q') (hu : call.target? answer ≠ some u) :
    q'.targets.get? u = q.targets.get? u := by
  have set_of_ne {t : TargetId} (e : Entry ρ) (hne : some t ≠ some u) :
      (q.targets.set t e).get? u = q.targets.get? u := by
    rw [Roster.get?_set, if_neg fun htu => hne (congrArg some htu)]
  cases h with
  | refused => rfl
  | registered => exact set_of_ne _ hu
  | removed =>
    exact (Roster.get?_erase _ _ _).trans (if_neg fun htu => hu (congrArg some htu))
  | reweighted => exact set_of_ne _ hu
  | queued => exact set_of_ne _ hu
  | drained => exact set_of_ne _ hu
  | issued hissue =>
    obtain ⟨htarget, hkept⟩ := hissue.get?_of_ne
    have hne : _ ≠ u := fun htu => hu (htarget.trans (congrArg some htu))
    rw [FairQueue.get?_issue_of_ne _ hne, hkept u hne]
  | unserved => rfl
  | peeked => rfl
  | asked => rfl

end Fair

namespace FairQueue

/-- **A call touches one target at the most.** In every state that a new queue can come to, a call is refused in
the listed cases and in no others, with the error of the first thing that is wrong with it. A refused call leaves the
queue as it was, and no call changes anything that is kept for a target which it is not about. -/
theorem touches_one_target (settings : FairSettings) (cost : Cost) (calls : List (Call ρ)) (call : Call ρ) :
    (∀ error, (((ofSettings settings).after cost calls).step cost call).1 = .refused error ↔
      Refused ((ofSettings settings).after cost calls) call error) ∧
    (∀ error, Refused ((ofSettings settings).after cost calls) call error →
      (((ofSettings settings).after cost calls).step cost call).2 = (ofSettings settings).after cost calls) ∧
    ∀ u, call.target? (((ofSettings settings).after cost calls).step cost call).1 ≠ some u →
      (((ofSettings settings).after cost calls).step cost call).2.targets.get? u =
        ((ofSettings settings).after cost calls).targets.get? u := by
  have hslotted := (sound_after cost (Sound.ofSettings settings) calls).slotted
  have houtcome := step_outcome cost hslotted call
  refine ⟨fun error => ⟨houtcome.refused_of_eq, fun hrefused => ?_⟩, fun error hrefused => ?_, fun u hu => ?_⟩
  · rw [hrefused.step]
  · rw [hrefused.step]
  · exact houtcome.get?_of_ne hu

/-- Two targets with one resource each, where no target may have more. -/
def fullHouse : List (Call Unit) :=
  [.addTarget ⟨1⟩ ⟨0x3f800000⟩, .addTarget ⟨2⟩ ⟨0x40000000⟩, .push ⟨1⟩ () 300, .push ⟨2⟩ () 100]

/-- One resource too many is refused, and serving the first target leaves the second alone. -/
theorem touches_one_target_fullHouse :
    Refused ((ofSettings ⟨2, 1⟩).after Fair.cost fullHouse) (.push ⟨1⟩ () 5) (.queueFull ⟨1⟩ 1 1) ∧
    (((ofSettings ⟨2, 1⟩).after Fair.cost fullHouse).step Fair.cost (.push ⟨1⟩ () 5)).2 =
      (ofSettings ⟨2, 1⟩).after Fair.cost fullHouse ∧
    Call.target? .pop (((ofSettings ⟨2, 1⟩).after Fair.cost fullHouse).step Fair.cost .pop).1 ≠ some ⟨2⟩ ∧
    (((ofSettings ⟨2, 1⟩).after Fair.cost fullHouse).step Fair.cost .pop).2.targets.get? ⟨2⟩ =
      ((ofSettings ⟨2, 1⟩).after Fair.cost fullHouse).targets.get? ⟨2⟩ := by
  have hmax : ((ofSettings ⟨2, 1⟩).after Fair.cost fullHouse).settings.maxBacklog = 1 := by decide +kernel
  have hwaiting : ((ofSettings ⟨2, 1⟩).after Fair.cost fullHouse).pendingOf ⟨1⟩ = some 1 := by decide +kernel
  have hfull : Refused ((ofSettings ⟨2, 1⟩).after Fair.cost fullHouse) (.push ⟨1⟩ () 5) _ :=
    .pushFull hwaiting hmax.le
  rw [hmax] at hfull
  have hserved : Call.target? .pop (((ofSettings ⟨2, 1⟩).after Fair.cost fullHouse).step Fair.cost .pop).1 ≠
      some ⟨2⟩ := by
    decide +kernel
  exact ⟨hfull, (touches_one_target ⟨2, 1⟩ Fair.cost fullHouse (.push ⟨1⟩ () 5)).2.1 _ hfull, hserved,
    (touches_one_target ⟨2, 1⟩ Fair.cost fullHouse .pop).2.2 ⟨2⟩ hserved⟩

end FairQueue

end Sluice
