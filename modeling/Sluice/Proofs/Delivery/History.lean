import Sluice.Proofs.Delivery.Effect

/-!
# Histories of a deliverer

A schedule is any list of events. Those that cannot happen when their turn comes are passed over, so
`history` lists the events that did happen, each with its answer and with the deliverer before and after it.
What holds at the start and is kept by every effect holds of every history (`history_induction`).

A history tells which registrations were made, what was accepted for whom, and what each sink was called
with. A sink is named by the number of its registration.
-/

namespace Sluice

namespace Deliverer

variable {ρ : Type}

/-! ### Schedules -/

/-- An event that happened, with its answer. -/
structure Happening (ρ : Type) where
  before : Deliverer ρ
  event : Event ρ
  reply : Reply ρ
  after : Deliverer ρ

section

variable [Resource ρ]

/-- The deliverer after the events of a schedule that can happen in their turn. -/
def after (d : Deliverer ρ) : List (Event ρ) → Deliverer ρ
  | [] => d
  | event :: events =>
    match d.step event with
    | none => d.after events
    | some (_, d') => d'.after events

/-- The events of a schedule that can happen in their turn. -/
def history (d : Deliverer ρ) : List (Event ρ) → List (Happening ρ)
  | [] => []
  | event :: events =>
    match d.step event with
    | none => d.history events
    | some (reply, d') => ⟨d, event, reply, d'⟩ :: d'.history events

/-- What holds at the start and is kept by every effect holds of every history. -/
theorem history_induction {P : List (Happening ρ) → Deliverer ρ → Prop} {d : Deliverer ρ}
    (start : P [] d)
    (next : ∀ h d event reply d', P h d → Effect d event reply d' → P (h ++ [⟨d, event, reply, d'⟩]) d')
    (events : List (Event ρ)) : P (d.history events) (d.after events) := by
  have run : ∀ h d, P h d → P (h ++ d.history events) (d.after events) := by
    induction events with
    | nil => exact fun h d hd => (List.append_nil h).symm ▸ hd
    | cons event events ih =>
      intro h d hd
      rw [history, after]
      cases hstep : d.step event with
      | none => exact ih h d hd
      | some result =>
        obtain ⟨reply, d'⟩ := result
        have hrest := ih _ _ (next h d event reply d' hd (step_effect hstep))
        rw [List.append_assoc] at hrest
        exact hrest
  exact run [] d start

end

/-! ### What a history tells -/

/-- A resource that was accepted for a target, with the sink that the target had at that time. -/
structure Submission (ρ : Type) where
  target : TargetId
  sink : Option Nat
  resource : ρ

/-- The resource that a visit brings to a sink. -/
def Visit.brings (v : Visit ρ) (sink : Nat) : List ρ :=
  match v.errand with
  | .deliver delivery => if v.sink = sink then [delivery.resource] else []
  | .dismiss _ => []

/-- Whether a visit brings a resource. -/
def Visit.delivers (v : Visit ρ) : Bool :=
  match v.errand with
  | .deliver _ => true
  | .dismiss _ => false

theorem Visit.delivers_eq_true {v : Visit ρ} :
    v.delivers = true ↔ ∃ delivery, v.errand = .deliver delivery := by
  rw [delivers]
  cases v.errand with
  | deliver delivery => exact iff_of_true rfl ⟨delivery, rfl⟩
  | dismiss backlog => simp

theorem Visit.delivers_eq_false {v : Visit ρ} :
    v.delivers = false ↔ ∃ backlog, v.errand = .dismiss backlog := by
  rw [delivers]
  cases v.errand with
  | deliver delivery => simp
  | dismiss backlog => exact iff_of_true rfl ⟨backlog, rfl⟩

theorem Visit.brings_of_dismissal {v : Visit ρ} (hdismissal : v.delivers = false) (sink : Nat) :
    v.brings sink = [] := by
  obtain ⟨backlog, herrand⟩ := delivers_eq_false.mp hdismissal
  rw [brings, herrand]

namespace Happening

/-- The registration that an event makes: the target and its sink. -/
def registered (s : Happening ρ) : List (TargetId × Nat) :=
  match s.event, s.reply with
  | .addTarget t _, .result (.ok ()) => ((s.after.sinks.get? t).map (t, ·)).toList
  | _, _ => []

/-- What is accepted by an event. -/
def submitted (s : Happening ρ) : List (Submission ρ) :=
  match s.event, s.reply with
  | .submit t resource, .result (.ok ()) => [⟨t, s.before.sinks.get? t, resource⟩]
  | _, _ => []

/-- What a sink is called with. -/
def delivered (sink : Nat) (s : Happening ρ) : List ρ :=
  match s.event with
  | .enter visitor => (s.before.visitOf? visitor).toList.flatMap (·.brings sink)
  | _ => []

end Happening

/-- What happens to a new deliverer in a schedule. -/
def happenings [Resource ρ] (settings : DelivererSettings) (events : List (Event ρ)) :
    List (Happening ρ) :=
  (ofSettings settings).history events

/-- The registrations of a history, in order. -/
def registrations (h : List (Happening ρ)) : List (TargetId × Nat) := h.flatMap (·.registered)

/-- What was accepted, in order. -/
def submissions (h : List (Happening ρ)) : List (Submission ρ) := h.flatMap (·.submitted)

/-- What was accepted for a target while a sink was registered for it, in order. -/
def submittedTo (t : TargetId) (sink : Nat) (h : List (Happening ρ)) : List ρ :=
  ((submissions h).filter fun s => s.target = t ∧ s.sink = some sink).map (·.resource)

/-- What a sink was called with, in order. -/
def deliveredTo (sink : Nat) (h : List (Happening ρ)) : List ρ := h.flatMap (·.delivered sink)

/-- What was accepted while a sink was registered, in order. -/
def submittedUnder (sink : Nat) (h : List (Happening ρ)) : List ρ :=
  ((submissions h).filter (·.sink == some sink)).map (·.resource)

section

variable (h : List (Happening ρ)) (s : Happening ρ) (sink : Nat)

theorem registrations_snoc : registrations (h ++ [s]) = registrations h ++ s.registered := by
  simp only [registrations, List.flatMap_append, List.flatMap_singleton]

theorem submissions_snoc : submissions (h ++ [s]) = submissions h ++ s.submitted := by
  simp only [submissions, List.flatMap_append, List.flatMap_singleton]

theorem submittedUnder_snoc : submittedUnder sink (h ++ [s]) = submittedUnder sink h ++
    (s.submitted.filter (·.sink == some sink)).map (·.resource) := by
  rw [submittedUnder, submissions_snoc, List.filter_append, List.map_append]
  rfl

/-- A resource is accepted while a target has a sink, or none. -/
theorem submittedUnder_snoc_submission {t : TargetId} {current : Option Nat} {resource : ρ}
    (hs : s.submitted = [⟨t, current, resource⟩]) :
    submittedUnder sink (h ++ [s]) =
      submittedUnder sink h ++ if current = some sink then [resource] else [] := by
  rw [submittedUnder_snoc, hs, List.filter_cons, List.filter_nil]
  by_cases hsink : current = some sink
  · rw [if_pos hsink, if_pos (by simpa using hsink)]
    rfl
  · rw [if_neg hsink, if_neg (by simpa using hsink)]
    rfl

theorem deliveredTo_snoc : deliveredTo sink (h ++ [s]) = deliveredTo sink h ++ s.delivered sink := by
  simp only [deliveredTo, List.flatMap_append, List.flatMap_singleton]

variable {s}

theorem registrations_snoc_nil (hs : s.registered = []) :
    registrations (h ++ [s]) = registrations h := by
  rw [registrations_snoc, hs, List.append_nil]

theorem submissions_snoc_nil (hs : s.submitted = []) : submissions (h ++ [s]) = submissions h := by
  rw [submissions_snoc, hs, List.append_nil]

theorem submittedUnder_snoc_nil (hs : s.submitted = []) :
    submittedUnder sink (h ++ [s]) = submittedUnder sink h := by
  rw [submittedUnder, submissions_snoc_nil h hs, submittedUnder]

theorem deliveredTo_snoc_nil (hs : s.delivered sink = []) :
    deliveredTo sink (h ++ [s]) = deliveredTo sink h := by
  rw [deliveredTo_snoc, hs, List.append_nil]

end

end Deliverer

end Sluice
