import Mathlib.Data.List.Forall2

/-!
# Schedules

A system is given by what an event makes of a state, if it can happen, and by what it answers. A schedule is
any list of events. Those that cannot happen when their turn comes are passed over, so `occurrences` lists the
events that did happen, each with its answer and with the states before and after it.

Whatever holds at the start and is kept by one event holds of every schedule (`Schedule.induction`). What a state
keeps by itself is also known at every event (`Schedule.invariant`), and a history may be taken apart at an event
(`Schedule.split`). Two systems that stay in a relation have histories that can be compared event by event
(`Schedule.alongside`).
-/

namespace Sluice

/-- An event that happened, with its answer. -/
structure Occurrence (σ ε α : Type) where
  before : σ
  event : ε
  reply : α
  after : σ

namespace Schedule

variable {σ ε α : Type} (step : σ → ε → Option (α × σ))

/-- The state after the events of a schedule that can happen in their turn. -/
def after (s : σ) : List ε → σ
  | [] => s
  | event :: events =>
    match step s event with
    | none => after s events
    | some (_, s') => after s' events

theorem after_append (s : σ) (events more : List ε) :
    after step s (events ++ more) = after step (after step s events) more := by
  induction events generalizing s with
  | nil => rfl
  | cons event events ih =>
    rw [List.cons_append, after, after]
    cases step s event with
    | none => exact ih s
    | some result => exact ih result.2

/-- The events of a schedule that can happen in their turn. -/
def occurrences (s : σ) : List ε → List (Occurrence σ ε α)
  | [] => []
  | event :: events =>
    match step s event with
    | none => occurrences s events
    | some (reply, s') => ⟨s, event, reply, s'⟩ :: occurrences s' events

/-- What holds at the start and is kept by every event holds of every schedule. -/
theorem induction {step : σ → ε → Option (α × σ)} {P : List (Occurrence σ ε α) → σ → Prop} {s : σ}
    (start : P [] s)
    (next : ∀ h s event reply s', P h s → step s event = some (reply, s') →
      P (h ++ [⟨s, event, reply, s'⟩]) s')
    (events : List ε) : P (occurrences step s events) (after step s events) := by
  have run : ∀ h s, P h s → P (h ++ occurrences step s events) (after step s events) := by
    induction events with
    | nil =>
      intro h s hs
      rw [occurrences, List.append_nil]
      exact hs
    | cons event events ih =>
      intro h s hs
      rw [occurrences, after]
      cases hstep : step s event with
      | none => exact ih h s hs
      | some result =>
        obtain ⟨reply, s'⟩ := result
        have hrest := ih _ _ (next h s event reply s' hs hstep)
        rw [List.append_assoc] at hrest
        exact hrest
  exact run [] s start

/-- What holds at the start and is kept by every event holds before every event that happens, and at the end. -/
theorem invariant {step : σ → ε → Option (α × σ)} {I : σ → Prop} {s : σ} (start : I s)
    (next : ∀ s event reply s', I s → step s event = some (reply, s') → I s') (events : List ε) :
    I (after step s events) ∧
      ∀ o ∈ occurrences step s events, I o.before ∧ step o.before o.event = some (o.reply, o.after) := by
  refine induction (P := fun h s => I s ∧ ∀ o ∈ h, I o.before ∧ step o.before o.event = some (o.reply, o.after))
    ⟨start, fun o ho => absurd ho List.not_mem_nil⟩ ?_ events
  rintro h s event reply s' ⟨hs, hall⟩ hstep
  refine ⟨next s event reply s' hs hstep, fun o ho => ?_⟩
  rcases List.mem_append.mp ho with ho | ho
  · exact hall o ho
  · obtain rfl := List.mem_singleton.mp ho
    exact ⟨hs, hstep⟩

/-- Either both of two results are there and are related, or none of them is. -/
theorem rel_cases {β : Type} {R : α → β → Prop} {x : Option α} {y : Option β} (hrel : Option.Rel R x y) :
    x = none ∧ y = none ∨ ∃ a b, x = some a ∧ y = some b ∧ R a b := by
  cases hrel with
  | none => exact .inl ⟨rfl, rfl⟩
  | some hboth => exact .inr ⟨_, _, rfl, rfl, hboth⟩

/-- Two systems in which the same events can happen, and whose states stay in a relation, have histories that agree
event by event in whatever holds of two such events. -/
theorem alongside {σ' α' : Type} {step : σ → ε → Option (α × σ)} {step' : σ' → ε → Option (α' × σ')}
    {R : σ → σ' → Prop} {Q : Occurrence σ ε α → Occurrence σ' ε α' → Prop}
    (next : ∀ s t event, R s t →
      Option.Rel (fun r r' => R r.2 r'.2 ∧ Q ⟨s, event, r.1, r.2⟩ ⟨t, event, r'.1, r'.2⟩)
        (step s event) (step' t event))
    {s : σ} {t : σ'} (start : R s t) (events : List ε) :
    List.Forall₂ Q (occurrences step s events) (occurrences step' t events) := by
  induction events generalizing s t with
  | nil => exact .nil
  | cons event events ih =>
    rw [occurrences, occurrences]
    rcases rel_cases (next s t event start) with ⟨hnone, hnone'⟩ | ⟨r, r', hsome, hsome', hrelated, hboth⟩
    · rw [hnone, hnone']
      exact ih start
    · rw [hsome, hsome']
      exact .cons hboth (ih hrelated)

/-- A history that is split at an event is that of a schedule up to the event, the event, and a schedule after it,
which leads to the same state. -/
theorem split_after {step : σ → ε → Option (α × σ)} {s : σ} {events : List ε}
    {early late : List (Occurrence σ ε α)}
    {o : Occurrence σ ε α} (hsplit : occurrences step s events = early ++ o :: late) :
    ∃ first rest, occurrences step s first = early ∧ after step s first = o.before ∧
      step o.before o.event = some (o.reply, o.after) ∧ occurrences step o.after rest = late ∧
      after step o.after rest = after step s events := by
  induction events generalizing s early with
  | nil =>
    rw [occurrences] at hsplit
    exact absurd hsplit.symm (List.append_ne_nil_of_right_ne_nil early (List.cons_ne_nil o late))
  | cons event events ih =>
    rw [occurrences] at hsplit
    cases hstep : step s event with
    | none =>
      rw [hstep] at hsplit
      rw [after, hstep]
      exact ih hsplit
    | some result =>
      obtain ⟨reply, s'⟩ := result
      rw [hstep] at hsplit
      rw [after, hstep]
      cases early with
      | nil =>
        obtain ⟨rfl, rfl⟩ := List.cons.inj hsplit
        exact ⟨[], events, rfl, rfl, hstep, rfl, rfl⟩
      | cons first early =>
        obtain ⟨rfl, htail⟩ := List.cons.inj hsplit
        obtain ⟨before, rest, hbefore, hstate, hnext, hrest, hend⟩ := ih htail
        refine ⟨event :: before, rest, ?_, ?_, hnext, hrest, hend⟩
        · rw [occurrences, hstep]
          exact congrArg _ hbefore
        · rw [after, hstep]
          exact hstate

/-- A history that is split at an event is that of a schedule up to the event, the event, and a schedule after
it. -/
theorem split {step : σ → ε → Option (α × σ)} {s : σ} {events : List ε}
    {early late : List (Occurrence σ ε α)}
    {o : Occurrence σ ε α} (hsplit : occurrences step s events = early ++ o :: late) :
    ∃ first rest, occurrences step s first = early ∧ after step s first = o.before ∧
      step o.before o.event = some (o.reply, o.after) ∧ occurrences step o.after rest = late := by
  obtain ⟨first, rest, hearly, hbefore, hstep, hlate, -⟩ := split_after hsplit
  exact ⟨first, rest, hearly, hbefore, hstep, hlate⟩

/-- A history that is one event longer is split at that event, or before it. -/
theorem split_snoc {β : Type} {h before after : List β} {s r : β} (hsplit : h ++ [r] = before ++ s :: after) :
    (before = h ∧ s = r ∧ after = []) ∨ ∃ rest, after = rest ++ [r] ∧ h = before ++ s :: rest := by
  rcases List.eq_nil_or_concat after with rfl | ⟨rest, last, rfl⟩
  · obtain ⟨rfl, hlast⟩ := List.append_inj' hsplit rfl
    cases hlast
    exact .inl ⟨rfl, rfl, rfl⟩
  · rw [List.concat_eq_append] at hsplit ⊢
    rw [← List.cons_append, ← List.append_assoc] at hsplit
    obtain ⟨rfl, hlast⟩ := List.append_inj' hsplit rfl
    cases hlast
    exact .inr ⟨rest, rfl, rfl⟩

end Schedule

end Sluice
