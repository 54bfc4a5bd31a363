import Sluice.Proofs.Pool.Effect

/-!
# Marks on the objects of a pool

Objects may look alike, so each of them is marked with the number of the factory's call that built it (`tagging`). The
marks change nothing else: a pool does not look at its objects (`step_map`), so without the marks the history is that
of the pool without marks (`happenings_tagging`).
-/

namespace Sluice

namespace Pool

variable {α β : Type} {event : Event} {call : CallId}

/-- An object with the number of the factory's call that built it. -/
structure Tagged (α : Type) where
  tag : Nat
  object : α
  deriving DecidableEq, Repr

/-- A factory that marks the objects it builds. -/
def tagging (factory : Nat → Except String α) (build : Nat) : Except String (Tagged α) :=
  (factory build).map (Tagged.mk build)

/-- The answer with other objects. -/
def Reply.map (f : α → β) : Reply α → Reply β
  | .quiet => .quiet
  | .outcome result => .outcome (result.map f)

/-- The stage with another object. -/
def Stage.map (f : α → β) : Stage α → Stage β
  | .granted => .granted
  | .admitted => .admitted
  | .looking => .looking
  | .building build => .building build
  | .holding a => .holding (f a)
  | .returning a => .returning (f a)
  | .leaving error => .leaving error

/-- The pool with other objects in the same places. -/
def map (f : α → β) (p : Pool α) : Pool β :=
  { p with idle := p.idle.map f, calls := p.calls.map fun c => (c.1, c.2.map f) }

/-- The event with other objects in the same places. -/
def Happening.map (f : α → β) (s : Happening α) : Happening β :=
  ⟨s.before.map f, s.event, s.reply.map f, s.after.map f⟩

theorem tagging_object (factory : Nat → Except String α) (build : Nat) :
    (tagging factory build).map Tagged.object = factory build := by
  rw [tagging]
  cases factory build <;> rfl

theorem tag_of_tagging {factory : Nat → Except String α} {build : Nat} {o : Tagged α}
    (hbuilt : tagging factory build = .ok o) : o.tag = build := by
  rw [tagging] at hbuilt
  cases hcall : factory build with
  | error _ => rw [hcall] at hbuilt; cases hbuilt
  | ok a => rw [hcall] at hbuilt; cases hbuilt; rfl

section

variable (f : α → β) (factory : Nat → Except String α) (p : Pool α)

@[simp]
theorem settings_map : (p.map f).settings = p.settings := rfl

@[simp]
theorem free_map : (p.map f).free = p.free := rfl

@[simp]
theorem waiting_map : (p.map f).waiting = p.waiting := rfl

@[simp]
theorem closed_map : (p.map f).closed = p.closed := rfl

@[simp]
theorem refuses_map : (p.map f).refuses = p.refuses := rfl

@[simp]
theorem numbers_map : (p.map f).numbers = p.numbers := by
  simp [numbers, map, Function.comp_def]

theorem stage?_map (call : CallId) : (p.map f).stage? call = (p.stage? call).map (Stage.map f) := by
  show (p.calls.map fun c => (c.1, c.2.map f)).lookup call = (p.calls.lookup call).map (Stage.map f)
  induction p.calls with
  | nil => rfl
  | cons c rest ih =>
    rw [List.map_cons, List.lookup_cons, List.lookup_cons, ih]
    cases call == c.1 <;> rfl

theorem setStage_map (call : CallId) (stage : Stage α) :
    (p.map f).setStage call (stage.map f) = (p.setStage call stage).map f := by
  simp only [setStage, map, List.map_map]
  congr 1
  refine List.map_congr_left fun c _ => ?_
  show (if c.1 = call then _ else _) = _
  by_cases hcall : c.1 = call <;> simp [hcall]

theorem putPermit_map : (p.map f).putPermit = p.putPermit.map f := by
  cases hwaiting : p.waiting with
  | nil => simp [putPermit, map, hwaiting]
  | cons call line => cases hrefuses : p.refuses <;> simp [putPermit, map, hwaiting, hrefuses, Stage.map]

theorem leave_map (call : CallId) : (p.map f).leave call = (p.leave call).map f := by
  rw [leave, leave, ← putPermit_map]
  simp [map, List.filter_map, Function.comp_def]

theorem keep_map (a : α) : (p.map f).keep (f a) = (p.keep a).map f := by
  simp only [keep, map, List.length_map]
  split <;> rfl

theorem proceed_map (call : CallId) (stage : Stage α) :
    (p.map f).proceed (fun build => (factory build).map f) call (stage.map f) =
      (p.proceed factory call stage).map fun r => (r.1.map f, r.2.map f) := by
  cases stage with
  | granted =>
    simp only [Stage.map, proceed, refuses_map, leave_map]
    split
    · rfl
    · exact congrArg (fun q => some (Reply.quiet, q)) (setStage_map f p call .admitted)
  | admitted =>
    have hset := setStage_map f p call (if p.closed then .leaving (some .closed) else .looking)
    have hstage : Stage.map f (if p.closed then .leaving (some .closed) else .looking) =
        if (p.map f).closed then .leaving (some .closed) else .looking := by
      cases hclosed : p.closed <;> simp [hclosed, Stage.map]
    rw [hstage] at hset
    exact congrArg (fun q => some (Reply.quiet, q)) hset
  | looking =>
    cases hidle : p.idle with
    | nil =>
      simp only [Stage.map, proceed, hidle, show (p.map f).idle = [] by simp [map, hidle]]
      exact congrArg (fun q => some (Reply.quiet, q))
        (setStage_map f { p with idle := [], builds := p.builds + 1 } call (.building p.builds))
    | cons a rest =>
      simp only [Stage.map, proceed, hidle, show (p.map f).idle = f a :: rest.map f by simp [map, hidle]]
      exact congrArg (fun q => some (Reply.outcome (.ok (f a)), q))
        (setStage_map f { p with idle := rest, reused := p.reused + 1 } call (.holding a))
  | building build =>
    simp only [Stage.map, proceed]
    cases factory build with
    | ok a =>
      exact congrArg (fun q => some (Reply.outcome (.ok (f a)), q))
        (setStage_map f { p with created := p.created + 1 } call (.holding a))
    | error reason =>
      exact congrArg (fun q => some (Reply.quiet, q)) (setStage_map f p call (.leaving (some (.factory reason))))
  | holding a => rfl
  | returning a =>
    simp only [Stage.map, proceed, keep_map]
    exact congrArg (fun q => some (Reply.quiet, q)) (setStage_map f (p.keep a) call (.leaving none))
  | leaving error =>
    cases error <;> simp only [Stage.map, proceed, leave_map] <;> rfl

theorem step_go_map (call : CallId) :
    (p.map f).step (fun build => (factory build).map f) (.go call) =
      (p.step factory (.go call)).map fun r => (r.1.map f, r.2.map f) := by
  simp only [step, stage?_map]
  cases p.stage? call with
  | some stage => exact proceed_map f factory p call stage
  | none =>
    simp only [Option.map_none, waiting_map, refuses_map]
    by_cases hwaits : call ∈ p.waiting ∧ p.refuses = true
    · simp only [hwaits]
      rfl
    · simp only [hwaits, ↓reduceIte, Option.map_none]

theorem step_cancel_map (call : CallId) :
    (p.map f).step (fun build => (factory build).map f) (.cancel call) =
      (p.step factory (.cancel call)).map fun r => (r.1.map f, r.2.map f) := by
  simp only [step, stage?_map]
  cases p.stage? call with
  | some stage =>
    cases stage with
    | granted => exact congrArg (fun q => some (Reply.quiet, q)) (leave_map f p call)
    | _ => rfl
  | none =>
    simp only [Option.map_none, waiting_map]
    by_cases hwaits : call ∈ p.waiting
    · simp only [hwaits, ↓reduceIte]
      rfl
    · simp only [hwaits, ↓reduceIte, Option.map_none]

theorem step_release_map (call : CallId) :
    (p.map f).step (fun build => (factory build).map f) (.release call) =
      (p.step factory (.release call)).map fun r => (r.1.map f, r.2.map f) := by
  simp only [step, stage?_map]
  cases p.stage? call with
  | none => rfl
  | some stage =>
    cases stage with
    | holding a =>
      simp only [Option.map_some, Stage.map, closed_map]
      by_cases hclosed : p.closed = true
      · simp only [hclosed, ↓reduceIte]
        exact congrArg (fun q => some (Reply.quiet, q))
          (setStage_map f { p with closed := true, discarded := p.discarded + 1 } call (.leaving none))
      · simp only [hclosed]
        exact congrArg (fun q => some (Reply.quiet, q)) (setStage_map f p call (.returning a))
    | _ => rfl

theorem step_discard_map (call : CallId) :
    (p.map f).step (fun build => (factory build).map f) (.discard call) =
      (p.step factory (.discard call)).map fun r => (r.1.map f, r.2.map f) := by
  simp only [step, stage?_map]
  cases p.stage? call with
  | none => rfl
  | some stage =>
    cases stage with
    | holding a =>
      exact congrArg (fun q => some (Reply.quiet, q))
        (setStage_map f { p with discarded := p.discarded + 1 } call (.leaving none))
    | _ => rfl

/-- What happens to a pool does not depend on what its objects are. -/
theorem step_map (event : Event) :
    (p.map f).step (fun build => (factory build).map f) event =
      (p.step factory event).map fun r => (r.1.map f, r.2.map f) := by
  cases event with
  | acquire call | tryAcquire call =>
    simp only [step, numbers_map, refuses_map, free_map]
    by_cases hnew : call ∈ p.numbers
    · simp only [hnew, ↓reduceIte, Option.map_none]
    by_cases hrefuses : p.refuses = true
    · simp only [hnew, hrefuses, ↓reduceIte]
      rfl
    by_cases hfree : 0 < p.free
    · simp [hnew, hrefuses, hfree, map, Reply.map, Stage.map]
    · simp only [hnew, hrefuses, hfree, ↓reduceIte]
      rfl
  | go call => exact step_go_map f factory p call
  | cancel call => exact step_cancel_map f factory p call
  | release call => exact step_release_map f factory p call
  | discard call => exact step_discard_map f factory p call
  | close => rfl
  | shut =>
    show (if p.shutting = 0 then none else _) = Option.map _ (if p.shutting = 0 then none else _)
    by_cases hshutting : p.shutting = 0
    · simp only [hshutting, ↓reduceIte, Option.map_none]
    · simp only [hshutting, ↓reduceIte]
      rfl
  | sweep =>
    show (if p.sweeping = 0 then none else _) = Option.map _ (if p.sweeping = 0 then none else _)
    by_cases hsweeping : p.sweeping = 0
    · simp only [hsweeping, ↓reduceIte, Option.map_none]
    · simp [hsweeping, map, Reply.map]

end

/-- The marks change nothing else. -/
theorem happenings_tagging (factory : Nat → Except String α) (settings : PoolSettings) (events : List Event) :
    happenings factory settings events =
      (happenings (tagging factory) settings events).map (Happening.map Tagged.object) := by
  have hfactory : (fun build => (tagging factory build).map Tagged.object) = factory :=
    funext fun build => tagging_object factory build
  have hboth : List.Forall₂ (fun s r => Happening.map Tagged.object s = r)
      (happenings (tagging factory) settings events) (happenings factory settings events) := by
    refine Schedule.alongside (R := fun p q => q = p.map Tagged.object) (fun p q event hq => ?_) rfl events
    subst hq
    have hstep := step_map Tagged.object (tagging factory) p event
    rw [hfactory] at hstep
    rw [hstep]
    cases p.step (tagging factory) event with
    | none => exact .none
    | some r => exact .some ⟨rfl, rfl⟩
  rw [← List.forall₂_map_left_iff, List.forall₂_eq_eq_eq] at hboth
  exact hboth.symm

end Pool

end Sluice
