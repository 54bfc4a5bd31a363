import Sluice.Proofs.Delivery.Turn
import Sluice.Proofs.Fair.Head
import Sluice.Proofs.Worker.Effect

/-!
# What rouses the reader

The reader waits for a wake-up, or for the limiter or a wake-up. Meanwhile targets come and go, priorities change and
resources are handed over. `Bearing` says what an event means to the reader, unless it is a look at the queue. It
leaves the reader as it is, with the same permit and no more in the queue. Or it changes the state and wakes the
reader. Or the reader itself goes on, and will look again. Or it is the end of the handler, which comes after that of
the reader. `Effect.bearing` says that there is nothing else. Whatever is known of a reader that waits is proved from
it.
-/

namespace Sluice

open Fair (Sound)
open FairQueue (Calm)

namespace Deliverer

variable {ρ : Type} {d d' d'' : Deliverer ρ}

/-- Whether the reader looks for a resource in an event. -/
def Event.asks : Event ρ → Bool
  | .ask => true
  | _ => false

/-- Whether an event is a move of the reader. -/
def Event.isReaders : Event ρ → Bool
  | .look => true
  | .ask => true
  | .noticeWake => true
  | .limitPasses => true
  | .readCancelled => true
  | .sendResumes => true
  | .readerLeaves => true
  | .readerFinishes => true
  | _ => false

/-! ### A reader that waits -/

/-- Whether a wait goes on until there is a wake-up, or until the limiter may admit a resource. -/
def Search.isDormant : Search → Bool
  | .asking => false
  | .idle => true
  | .limited _ woken => !woken

/-- Whether a wait goes on until there is a wake-up. -/
def Search.isIdle : Search → Bool
  | .idle => true
  | _ => false

/-- The reader waits, and nobody has woken it. -/
def Dormant (d : Deliverer ρ) : Prop := d.isReading = true ∧ d.search.isDormant = true

theorem not_dormant_of_asking (hasking : d.search = .asking) : ¬ Dormant d := by
  rintro ⟨-, hdormant⟩
  rw [hasking] at hdormant
  cases hdormant

/-- A reader that does not wait finds the wake-up at its next wait. -/
theorem wake_of_asking (hasking : d.search = .asking) : d.wake = { d with permit := true } := by
  rw [wake, hasking]
  split
  · next hidle => cases hidle
  · next hlimited => cases hlimited
  · rfl

theorem not_dormant_wake (d : Deliverer ρ) : ¬ Dormant d.wake := by
  rintro ⟨hreading, hdormant⟩
  have hreading : d.isReading = true := by
    rw [isReading, processor_wake] at hreading
    exact hreading
  cases hsearch : d.search with
  | asking =>
    rw [wake_of_asking hsearch] at hdormant
    exact not_dormant_of_asking hsearch ⟨hreading, hdormant⟩
  | idle =>
    rw [wake, hreading, hsearch] at hdormant
    cases hdormant
  | limited deadline woken =>
    rw [wake, hreading, hsearch] at hdormant
    cases woken with
    | _ => cases hdormant

/-! ### What leaves the reader as it is -/

/-- The processor has changed alone, and the reader has not begun to read. -/
structure Passes (d d' : Deliverer ρ) : Prop where
  same : ∃ processor, d' = { d with processor }
  reading : d'.isReading = true → d.isReading = true

namespace Passes

theorem step {event : Processor.Event (Delivery ρ)} {reply : Processor.Reply}
    {processor : Processor (Delivery ρ)} (hstep : d.processor.step event = some (reply, processor))
    (hlook : event ≠ .look) : Passes d { d with processor } where
  same := ⟨processor, rfl⟩
  reading hreading := by
    rw [isReading_iff] at hreading ⊢
    exact (Processor.step_effect hstep).reading hlook hreading

theorem work {event : Processor.Event (Delivery ρ)} (hwork : d.work event = some d')
    (hlook : event ≠ .look) : Passes d d' := by
  obtain ⟨reply, processor, hstep, rfl⟩ := work_eq_some.mp hwork
  exact step hstep hlook

theorem proceed (event : Processor.Event (Delivery ρ)) (hlook : event ≠ .look) :
    Passes d (d.proceed event) := by
  rcases d.proceed_eq event with ⟨reply, processor, hstep, h⟩ | ⟨-, h⟩
  · rw [h]
    exact step hstep hlook
  · rw [h]
    exact ⟨⟨d.processor, rfl⟩, id⟩

theorem handled (d : Deliverer ρ) : Passes d d.handled := proceed _ nofun

theorem dormant (k : Passes d d') (h : Dormant d') : Dormant d := by
  obtain ⟨⟨processor, rfl⟩, hreading⟩ := k
  exact ⟨hreading h.1, h.2⟩

/-- A wake-up leaves the queue as it is, too. -/
theorem queue (k : Passes d.wake d') : d'.queue = d.queue := by
  obtain ⟨⟨processor, rfl⟩, -⟩ := k
  obtain ⟨search, permit, hwake⟩ := d.wake_eq
  rw [hwake]

end Passes

/-- Nothing happens that matters to a reader that sleeps, as long as its target stays. -/
structure Undisturbed (d d' : Deliverer ρ) : Prop where
  reading : d'.isReading = true → d.isReading = true
  search : d'.search = d.search
  queue : d.queue.Calm d'.queue
  limiter : d'.limiter = d.limiter ∨ d'.limiter = (d.limiter.speed d.clock).2
  now : d.now ≤ d'.now

/-- The reader is left as it is, and no wake-up comes or goes. -/
structure Rests (d d' : Deliverer ρ) : Prop extends Undisturbed d d' where
  permit : d'.permit = d.permit
  stopped : d'.stopped = d.stopped

theorem Rests.refl (d : Deliverer ρ) : Rests d d :=
  ⟨⟨id, rfl, .same, .inl rfl, Nat.le_refl _⟩, rfl, rfl⟩

theorem Rests.passes (u : Rests d d') (k : Passes d' d'') : Rests d d'' := by
  obtain ⟨⟨processor, rfl⟩, hreading⟩ := k
  exact ⟨⟨fun h => u.reading (hreading h), u.search, u.queue, u.limiter, u.now⟩, u.permit, u.stopped⟩

/-- The handler comes to its end when the reader has ended. -/
theorem not_reading_of_finishing (hwork : d.work .receive = some d')
    (hfinishing : d'.processor.handler = .finishing) : d'.isReading = false := by
  obtain ⟨reply, processor, hstep, rfl⟩ := work_eq_some.mp hwork
  have hended : processor.reader = .ended := by
    cases Processor.step_effect hstep with
    | ignored hevent => rcases hevent with ⟨hevent, -⟩ | ⟨hevent, -⟩ <;> cases hevent
    | received => cases hfinishing
    | drained _ _ hended => exact hended
  rw [← Bool.not_eq_true, isReading_iff]
  intro hreading
  cases hended.symm.trans hreading

/-! ### What an event means to the reader -/

section

variable [Resource ρ] {event : Event ρ} {reply : Reply ρ}

/-- A call changes the state in a way that the reader is to be woken for. -/
structure Commits (d d' : Deliverer ρ) : Prop where
  processor : d'.processor = d.processor
  search : d'.search = d.search
  permit : d'.permit = d.permit
  queue : d.queue.Tended d'.queue

theorem Commits.refl (d : Deliverer ρ) : Commits d d := ⟨rfl, rfl, rfl, .same⟩

theorem Commits.dormant (c : Commits d d') (h : Dormant d') : Dormant d := by
  rw [Dormant, isReading, c.processor, c.search] at h
  exact h

/-- What an event other than a look at the queue means to the reader. -/
inductive Bearing (d : Deliverer ρ) (event : Event ρ) (d' : Deliverer ρ) : Prop
  | rests : Rests d d' → Bearing d event d'
  | roused {d₁ : Deliverer ρ} : Commits d d₁ → Passes d₁.wake d' → Bearing d event d'
  | turned : event.isReaders = true → d'.search = .asking → d'.queue = d.queue → Bearing d event d'
  | parted : d'.isReading = false → d'.search = d.search → d'.queue = d.queue → Bearing d event d'

/-- A reader that is not left as it is does not wait afterwards. -/
theorem Bearing.rests_or (b : Bearing d event d') : Rests d d' ∨ ¬ Dormant d' := by
  cases b with
  | rests u => exact .inl u
  | roused _ k => exact .inr (mt k.dormant (not_dormant_wake _))
  | turned _ hasking => exact .inr (not_dormant_of_asking hasking)
  | parted hnot =>
    refine .inr fun h => ?_
    cases hnot.symm.trans h.1

/-- Nothing is taken out of the queue in order to be delivered. -/
theorem Bearing.tended (b : Bearing d event d') : d.queue.Tended d'.queue := by
  cases b with
  | rests u => exact u.queue.tended
  | roused c k =>
    rw [k.queue]
    exact c.queue
  | turned _ _ hqueue =>
    rw [hqueue]
    exact .same
  | parted _ _ hqueue =>
    rw [hqueue]
    exact .same

theorem Effect.bearing (hasks : event.asks = false) (e : Effect d event reply d') :
    Bearing d event d' := by
  -- A target is taken out.
  have without : ∀ {t : TargetId} {backlog : List ρ} {queue : FairQueue ρ},
      d.queue.removeTarget t = .ok (backlog, queue) →
      Rests d { d with queue, sinks := d.sinks.erase t } := by
    intro t backlog queue hremove
    exact { Rests.refl d with queue := .call rfl (FairQueue.step_removeTarget Fair.cost hremove) }
  have worked : ∀ {work : Processor.Event (Delivery ρ)} {d₁ : Deliverer ρ}, d.work work = some d₁ →
      work ≠ .look → Rests d d₁ :=
    fun hwork hlook => (Rests.refl d).passes (.work hwork hlook)
  cases e with
  | refused => exact .rests (.refl d)
  | enrolled _ _ hadd =>
    exact .rests { Rests.refl d with queue := .call rfl (FairQueue.step_addTarget Fair.cost hadd) }
  | reprioritised _ hset =>
    exact .rests { Rests.refl d with queue := .call rfl (FairQueue.step_setPriority Fair.cost hset) }
  | @submitted t resource queue _ _ hpush =>
    have c : Commits d { d with queue } := ⟨rfl, rfl, rfl, .push hpush⟩
    exact .roused c ⟨⟨_, rfl⟩, id⟩
  | @limited limit limiter =>
    have c : Commits d { d with limiter } := ⟨rfl, rfl, rfl, .same⟩
    exact .roused c ⟨⟨_, rfl⟩, id⟩
  | measured => exact .rests { Rests.refl d with limiter := .inr rfl }
  | unfound => exact .rests (.refl d)
  | removed _ _ hremove => exact .rests (without hremove)
  | removing _ _ hremove =>
    have u := (without hremove).passes (.proceed .copyHandle (by simp))
    exact .rests { u with }
  | @stopping call d' _ hwork =>
    rw [tellStop] at hwork
    split at hwork
    · exact .rests (worked hwork (by simp))
    · have c : Commits d { d with stopped := true } := ⟨rfl, rfl, rfl, .same⟩
      exact .roused c (.work hwork (by simp))
  | joined hstep => exact .rests ((Rests.refl d).passes (.step hstep (by simp)))
  | waited hstep => exact .rests ((Rests.refl d).passes (.step hstep (by simp)))
  | @abandoned call =>
    have u : Rests d (d.endVisit (.remover call)) := { Rests.refl d with }
    exact .rests (u.passes (.proceed _ (by simp)))
  | worked hworks hwork =>
    cases hworks with
    | _ => exact .rests (worked hwork (by simp))
  | elapsed => exact .rests { Rests.refl d with now := Nat.le_add_right _ _ }
  | looked hwork =>
    obtain ⟨reply, processor, -, rfl⟩ := work_eq_some.mp hwork
    exact .turned rfl rfl rfl
  | asked => cases hasks
  | limitPassed => exact .turned rfl rfl rfl
  | woken => exact .turned rfl rfl rfl
  | setOut hwork => exact .rests { worked hwork (by simp) with }
  | @late delivery d₁ hwork =>
    have u : Rests d { d₁ with dropped := d.dropped + 1 } := { worked hwork (by simp) with }
    exact .rests (u.passes (.handled _))
  | closing hwork hfinishing =>
    have hnot := not_reading_of_finishing hwork hfinishing
    obtain ⟨reply, processor, -, rfl⟩ := work_eq_some.mp hwork
    exact .parted hnot rfl rfl
  | entered => exact .rests { Rests.refl d with }
  | @accepted v delivery =>
    have u : Rests d { d.endVisit .handler with
        deliveredResources := d.deliveredResources + 1
        deliveredBytes := Word.add d.deliveredBytes delivery.size } := { Rests.refl d with }
    exact .rests (u.passes (.handled _))
  | gone =>
    have u : Rests d { d.endVisit .handler with dropped := d.dropped + 1 } := { Rests.refl d with }
    exact .rests (u.passes (.handled _))
  | @orphaned v delivery backlog queue _ _ _ _ hremove =>
    have u : Rests d { d.endVisit .handler with
        queue
        sinks := d.sinks.erase delivery.target
        closedTargets := d.closedTargets + 1
        dropped := d.dropped + 1 + backlog.length } := { without hremove with }
    exact .rests (u.passes (.handled _))
  | foundClosed _ _ _ _ hremove => exact .rests { without hremove with }
  | dismissed => exact .rests { Rests.refl d with }
  | resumed =>
    have u : Rests d (d.endVisit .handler) := { Rests.refl d with }
    exact .rests (u.passes (.handled _))
  | @returned call =>
    have u : Rests d (d.endVisit (.remover call)) := { Rests.refl d with }
    exact .rests (u.passes (.proceed _ (by simp)))
  | dismissing => exact .rests { Rests.refl d with }

end

end Deliverer

end Sluice
