import Sluice.Clockwork

/-!
# What the moves of a clockwork keep

A clockwork goes through many moves, and whatever each of its tasks keeps, and each setting of its clock, is kept as
long as it runs. `settle_keeps` says so of the present instant, and `advanceTo_keeps` of the passing of time.
-/

namespace Sluice

namespace Clockwork

variable {σ : Type} {w : Clockwork σ} {P : σ → Prop} {s : σ}

theorem exhaust_keeps {move : σ → Option σ} (hmove : ∀ s s', P s → move s = some s' → P s') (fuel : Nat)
    (hs : P s) :
    P (exhaust move fuel s) := by
  induction fuel generalizing s with
  | zero => exact hs
  | succ fuel ih =>
    rw [exhaust]
    cases hnext : move s with
    | none => exact hs
    | some s' => exact ih (hmove s s' hs hnext)

/-- The tasks of the clockwork keep something. -/
def TasksKeep (w : Clockwork σ) (P : σ → Prop) : Prop :=
  ∀ task ∈ w.tasks, ∀ s s', P s → task s = some s' → P s'

theorem turn?_keeps (htasks : w.TasksKeep P) {s' : σ} (hs : P s) (hturn : w.turn? s = some s') : P s' := by
  obtain ⟨task, htask, hmoves⟩ := List.exists_of_findSome?_eq_some hturn
  obtain ⟨s₁, hfirst, rfl⟩ := Option.map_eq_some_iff.mp hmoves
  exact exhaust_keeps (htasks task htask) patience (htasks task htask s s₁ hs hfirst)

theorem settle_keeps (htasks : w.TasksKeep P) (hs : P s) : P (w.settle s) :=
  exhaust_keeps (fun _ _ => turn?_keeps htasks) patience hs

theorem advanceTo_keeps (htasks : w.TasksKeep P) (hclock : ∀ t s, P s → P (w.setClock t s)) (limit : Nat)
    (hs : P s) :
    P (w.advanceTo limit s) := by
  have within : ∀ fuel s, P s → P (w.advanceWithin limit fuel s) := by
    intro fuel
    induction fuel with
    | zero => exact fun s hs => hs
    | succ fuel ih =>
      intro s hs
      have hsettled := settle_keeps htasks hs
      rw [advanceWithin]
      cases w.nextAlarm limit (w.settle s) with
      | some t => exact ih _ (hclock t _ hsettled)
      | none => exact settle_keeps htasks (hclock limit _ hsettled)
  exact within patience s hs

end Clockwork

end Sluice
