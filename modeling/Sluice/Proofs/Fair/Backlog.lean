import Sluice.Proofs.Fair.Stock

/-!
# How a backlog grows and shrinks

A call changes what waits for a target in one of four ways: it registers the target, removes it, queues a resource for
it, or hands one out (`Call.rewait`). `Sound.pendingOf` says that no call does anything else to any backlog, and
`Sound.settings` that the bounds of a queue are fixed. So a push succeeds as long as the backlog is below its bound
(`push_of_pendingOf`), and while a queue is only drawn on, no backlog loses more than the whole queue hands out
(`Drawn`).
-/

namespace Sluice

open Fair

variable {ρ : Type}

namespace Fair

variable {cost : Cost} {p p' : PlainQueue ρ} {call : Call ρ} {answer : Answer ρ}

/-- What waits for each target after a call that is answered. -/
def Call.rewait (call : Call ρ) (answer : Answer ρ) (waiting : TargetId → Option Nat) : TargetId → Option Nat :=
  match call, answer with
  | .addTarget t _, .registered _ => fun u => if u = t then some 0 else waiting u
  | .removeTarget t, .returned _ => fun u => if u = t then none else waiting u
  | .push t _ _, .done => fun u => if u = t then (waiting u).map (· + 1) else waiting u
  | _, .delivery (some d) => fun u => if u = d.target then (waiting u).map (· - 1) else waiting u
  | _, _ => waiting

theorem Effect.waiting (hp : p.Listed) (e : Effect cost p call answer p') :
    (fun u => (p'.account u).map (·.backlog.length)) =
      call.rewait answer fun u => (p.account u).map (·.backlog.length) := by
  funext u
  -- One account is rewritten, and the others stay as they are.
  have written : ∀ {t : TargetId} {a b : Account ρ} {f : Nat → Nat}, p.account t = some a →
      b.backlog.length = f a.backlog.length →
      ((p.write t b).account u).map (·.backlog.length) =
        if u = t then ((p.account u).map (·.backlog.length)).map f else (p.account u).map (·.backlog.length) := by
    intro t a b f ha hb
    rw [PlainQueue.account_write]
    by_cases hut : u = t
    · rw [if_pos hut, if_pos hut, hut, ha, Option.map_some, Option.map_some, Option.map_some, hb]
    · rw [if_neg hut, if_neg hut]
  cases e with
  | @enrolled t priority ht =>
    show ((p.enroll t priority).account u).map _ = if u = t then some 0 else _
    rw [PlainQueue.account_enroll]
    by_cases hut : u = t
    · rw [if_pos hut, if_pos hut]
      rfl
    · rw [if_neg hut, if_neg hut]
  | @dismissed t a ht =>
    show ((p.dismiss t).account u).map _ = if u = t then none else _
    rw [PlainQueue.account_dismiss]
    by_cases hut : u = t
    · rw [if_pos hut, if_pos hut]
      rfl
    · rw [if_neg hut, if_neg hut]
  | @reprioritised t a priority ht =>
    refine (written (b := { a with priority }) (f := id) ht rfl).trans ?_
    rw [Option.map_id, id_eq, ite_self]
    rfl
  | @enqueued t a resource size ht =>
    refine written (f := (· + 1)) ht ?_
    rw [PlainQueue.backlog_filled, List.length_append, List.length_singleton]
  | @served t a resource size rest hnext hbacklog =>
    refine written (f := (· - 1)) (hp.next?_eq_some.mp hnext).1 ?_
    rw [hbacklog]
    rfl
  | quiet hquiet =>
    unfold Call.rewait
    split
    · cases hquiet
    · cases hquiet
    · cases hquiet
    · cases hquiet
    · rfl

theorem Effect.settings (e : Effect cost p call answer p') : p'.settings = p.settings := by
  cases e <;> rfl

variable {q q' : FairQueue ρ}

/-- What waits for the targets after a call. -/
theorem Sound.pendingOf (h : Sound q) (hstep : q.step cost call = (answer, q')) :
    q'.pendingOf = call.rewait answer q.pendingOf := by
  have hplain := (h.effect hstep).waiting q.listed_plain
  rw [← funext q.pendingOf_plain, ← funext q'.pendingOf_plain] at hplain
  exact hplain

/-- The bounds of a queue are fixed. -/
theorem Sound.settings (h : Sound q) (hstep : q.step cost call = (answer, q')) : q'.settings = q.settings :=
  (h.effect hstep).settings

end Fair

namespace FairQueue

variable {q q' : FairQueue ρ} {t u : TargetId} {n : Nat}

theorem pendingOf_addTarget {priority : Number.Single} {r : Nat} (h : Sound q)
    (hadd : q.addTarget t priority = .ok (r, q')) :
    q'.pendingOf u = if u = t then some 0 else q.pendingOf u :=
  congrFun (h.pendingOf (step_addTarget Fair.cost hadd)) u

theorem pendingOf_push [Resource ρ] {resource : ρ} (h : Sound q) (hpush : q.push t resource = .ok q') :
    q'.pendingOf u = if u = t then (q.pendingOf u).map (· + 1) else q.pendingOf u :=
  congrFun (h.pendingOf (step_push Fair.cost hpush)) u

/-- There is room for a resource as long as less waits than may wait. -/
theorem push_of_pendingOf [Resource ρ] (resource : ρ) (ht : q.pendingOf t = some n)
    (hroom : n < q.settings.maxBacklog) : ∃ q', q.push t resource = .ok q' := by
  obtain ⟨entry, hentry, rfl⟩ := Option.map_eq_some_iff.mp ht
  rw [push, pushSized, hentry]
  exact ⟨_, if_neg (Nat.not_le.mpr hroom)⟩

theorem delivered_push [Resource ρ] {resource : ρ} (h : Sound q) (hpush : q.push t resource = .ok q') :
    q'.delivered = q.delivered :=
  (h.pending_step (step_push Fair.cost hpush)).2

theorem settings_push [Resource ρ] {resource : ρ} (h : Sound q) (hpush : q.push t resource = .ok q') :
    q'.settings = q.settings :=
  h.settings (step_push Fair.cost hpush)

theorem settings_addTarget {priority : Number.Single} {r : Nat} (h : Sound q)
    (hadd : q.addTarget t priority = .ok (r, q')) : q'.settings = q.settings :=
  h.settings (step_addTarget Fair.cost hadd)

/-- The second queue is the first one after some of what waited was handed out. -/
structure Drawn (q q' : FairQueue ρ) : Prop where
  settings : q'.settings = q.settings
  delivered : q.delivered ≤ q'.delivered
  /-- What is gone from a backlog was handed out. -/
  waiting : ∀ t n, q.pendingOf t = some n →
    ∃ left, q'.pendingOf t = some left ∧ left ≤ n ∧ n + q.delivered ≤ left + q'.delivered

namespace Drawn

theorem refl (q : FairQueue ρ) : Drawn q q :=
  ⟨rfl, Nat.le_refl _, fun _ n ht => ⟨n, ht, Nat.le_refl n, Nat.le_refl _⟩⟩

theorem trans {q'' : FairQueue ρ} (w : Drawn q q') (w' : Drawn q' q'') : Drawn q q'' := by
  refine ⟨w'.settings.trans w.settings, w.delivered.trans w'.delivered, fun t n ht => ?_⟩
  obtain ⟨m, hm, hle, hdrawn⟩ := w.waiting t n ht
  obtain ⟨left, hleft, hle', hdrawn'⟩ := w'.waiting t m hm
  exact ⟨left, hleft, hle'.trans hle, by omega⟩

theorem peek (h : Sound q) : Drawn q q.peek.2 := by
  refine ⟨h.settings (q.step_peek Fair.cost), Nat.le_refl _,
    fun t n ht => ⟨n, ?_, Nat.le_refl n, Nat.le_refl _⟩⟩
  exact (congrFun (h.pendingOf (q.step_peek Fair.cost)) t).trans ht

/-- A pop takes one resource from one backlog. -/
theorem pop {d : Delivery ρ} (h : Sound q) (hpop : q.pop = (some d, q')) : Drawn q q' := by
  have hdelivered : q'.delivered = q.delivered + 1 := (h.pending_step (step_pop hpop)).2
  refine ⟨h.settings (step_pop hpop), by omega, fun t n ht => ?_⟩
  have hleft : q'.pendingOf t = if t = d.target then (q.pendingOf t).map (· - 1) else q.pendingOf t :=
    congrFun (h.pendingOf (step_pop hpop)) t
  rw [ht] at hleft
  by_cases htarget : t = d.target
  · rw [if_pos htarget] at hleft
    exact ⟨n - 1, hleft, Nat.sub_le n 1, by omega⟩
  · rw [if_neg htarget] at hleft
    exact ⟨n, hleft, Nat.le_refl n, by omega⟩

end Drawn

end FairQueue

end Sluice
