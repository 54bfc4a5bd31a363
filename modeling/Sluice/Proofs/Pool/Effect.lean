import Mathlib.Data.List.Nodup
import Sluice.Proofs.Schedule
import Sluice.Worker.Pool

/-!
# What an event can do to a pool

`Effect` lists the ways in which an event changes a pool, with its answer and with what is known when it happens. A
call with a permit is shown at its place among the others, so what an event does to the calls can be counted. That
the place is the only one of its number is `Distinct`, which holds of every schedule (`distinct_after`), and
`step_effect` says that every event that can happen has one of these effects.

Many moves change nothing but the stage of a call, and they are `Moves`. A call is over in three ways, which are
`Leaves`, and `Puts` says where its permit goes.
-/

namespace Sluice

namespace Pool

variable {α : Type} {factory : Nat → Except String α} {p p' q : Pool α} {event : Event} {reply : Reply α}
  {call : CallId} {stage : Stage α} {first rest : List (CallId × Stage α)}

/-- An event that happened to a pool. -/
abbrev Happening (α : Type) : Type := Occurrence (Pool α) Event (Reply α)

/-- What happens to a new pool in a schedule. -/
def happenings (factory : Nat → Except String α) (settings : PoolSettings) (events : List Event) :
    List (Happening α) :=
  Schedule.occurrences (step factory) (ofSettings settings) events

/-- A new pool after a schedule. -/
def afterEvents (factory : Nat → Except String α) (settings : PoolSettings) (events : List Event) : Pool α :=
  Schedule.after (step factory) (ofSettings settings) events

/-- A call begins that asks for an object. -/
def Event.asks (event : Event) (call : CallId) : Prop := event = .acquire call ∨ event = .tryAcquire call

/-- Whether a call has found the pool open, and has no object yet. -/
def Stage.seeks : Stage α → Bool
  | .looking => true
  | .building _ => true
  | _ => false

/-- No two calls bear the same number. -/
def Distinct (p : Pool α) : Prop := p.numbers.Nodup

/-! ### The effects -/

/-- With an event a call comes from one stage to another, and nothing else changes. -/
inductive Moves (factory : Nat → Except String α) (p : Pool α) : Event → CallId → Stage α → Stage α → Prop
  | resumed {call : CallId} : p.refuses = false → Moves factory p (.go call) call .granted .admitted
  | found {call : CallId} : p.closed = false → Moves factory p (.go call) call .admitted .looking
  | barred {call : CallId} :
      p.closed = true → Moves factory p (.go call) call .admitted (.leaving (some .closed))
  | failed {call : CallId} {build : Nat} {reason : String} :
      factory build = .error reason →
      Moves factory p (.go call) call (.building build) (.leaving (some (.factory reason)))
  | returned {call : CallId} {a : α} :
      p.closed = false → Moves factory p (.release call) call (.holding a) (.returning a)

/-- With an event an object is dropped that a call has. -/
inductive Sheds (p : Pool α) : Event → CallId → Stage α → Prop
  | discarded {call : CallId} {a : α} : Sheds p (.discard call) call (.holding a)
  | closed {call : CallId} {a : α} : p.closed = true → Sheds p (.release call) call (.holding a)
  | full {call : CallId} {a : α} :
      p.settings.maxIdle ≤ p.idle.length → Sheds p (.go call) call (.returning a)

/-- With an event a call is over, and it answers something. -/
inductive Leaves (p : Pool α) : Event → Reply α → CallId → Stage α → Prop
  | refused {call : CallId} :
      p.refuses = true → Leaves p (.go call) (.outcome (.error .closed)) call .granted
  | withdrawn {call : CallId} : Leaves p (.cancel call) .quiet call .granted
  | returned {call : CallId} : Leaves p (.go call) .quiet call (.leaving none)
  | answered {call : CallId} {error : PoolError} :
      Leaves p (.go call) (.outcome (.error error)) call (.leaving (some error))

/-- A permit is free again, or goes to the first call of the line. -/
inductive Puts (p : Pool α) : Pool α → Prop
  | freed : Puts p { p with free := p.free + 1 }
  | passed {call : CallId} {line : List CallId} :
      p.waiting = call :: line → p.refuses = false →
      Puts p { p with waiting := line, calls := p.calls ++ [(call, .granted)] }

/-- The changes that an event can make, with its answer. -/
inductive Effect (factory : Nat → Except String α) (p : Pool α) : Event → Reply α → Pool α → Prop
  | begun {event : Event} {call : CallId} :
      event.asks call → call ∉ p.numbers → p.refuses = false → 0 < p.free →
      Effect factory p event .quiet { p with free := p.free - 1, calls := p.calls ++ [(call, .admitted)] }
  | queued {call : CallId} :
      call ∉ p.numbers → p.refuses = false → p.free = 0 →
      Effect factory p (.acquire call) .quiet { p with waiting := p.waiting ++ [call] }
  | exhausted {call : CallId} :
      call ∉ p.numbers → p.refuses = false → p.free = 0 →
      Effect factory p (.tryAcquire call) (.outcome (.error (.exhausted p.settings.maxSize))) p
  | refused {event : Event} {call : CallId} :
      event.asks call → call ∉ p.numbers → p.refuses = true →
        Effect factory p event (.outcome (.error .closed)) p
  | refusedInLine {call : CallId} :
      p.refuses = true → call ∈ p.waiting →
      Effect factory p (.go call) (.outcome (.error .closed)) (p.leaveLine call)
  | withdrawn {call : CallId} :
      call ∈ p.waiting → Effect factory p (.cancel call) .quiet (p.leaveLine call)
  | moved {event : Event} {call : CallId} {stage next : Stage α} {first rest : List (CallId × Stage α)} :
      p.calls = first ++ (call, stage) :: rest → Moves factory p event call stage next →
      Effect factory p event .quiet { p with calls := first ++ (call, next) :: rest }
  /-- A call gets the object that was given back last. -/
  | reused {call : CallId} {a : α} {others : List α} {first rest : List (CallId × Stage α)} :
      p.calls = first ++ (call, .looking) :: rest → p.idle = a :: others →
      Effect factory p (.go call) (.outcome (.ok a))
        { p with idle := others, reused := p.reused + 1, calls := first ++ (call, .holding a) :: rest }
  /-- No object is kept, and the factory is called. -/
  | ordered {call : CallId} {first rest : List (CallId × Stage α)} :
      p.calls = first ++ (call, .looking) :: rest → p.idle = [] →
      Effect factory p (.go call) .quiet
        { p with builds := p.builds + 1, calls := first ++ (call, .building p.builds) :: rest }
  | built {call : CallId} {build : Nat} {a : α} {first rest : List (CallId × Stage α)} :
      p.calls = first ++ (call, .building build) :: rest → factory build = .ok a →
      Effect factory p (.go call) (.outcome (.ok a))
        { p with created := p.created + 1, calls := first ++ (call, .holding a) :: rest }
  | kept {call : CallId} {a : α} {first rest : List (CallId × Stage α)} :
      p.calls = first ++ (call, .returning a) :: rest → p.idle.length < p.settings.maxIdle →
      Effect factory p (.go call) .quiet
        { p with idle := a :: p.idle, calls := first ++ (call, .leaving none) :: rest }
  | dropped {event : Event} {call : CallId} {stage : Stage α} {first rest : List (CallId × Stage α)} :
      p.calls = first ++ (call, stage) :: rest → Sheds p event call stage →
      Effect factory p event .quiet
        { p with discarded := p.discarded + 1, calls := first ++ (call, .leaving none) :: rest }
  | left {event : Event} {reply : Reply α} {call : CallId} {stage : Stage α} {p' : Pool α}
      {first rest : List (CallId × Stage α)} :
      p.calls = first ++ (call, stage) :: rest → Leaves p event reply call stage →
      Puts { p with calls := first ++ rest } p' → Effect factory p event reply p'
  | closed :
      Effect factory p .close .quiet { p with closed := true, shutting := p.shutting + 1 }
  | shut :
      0 < p.shutting →
      Effect factory p .shut .quiet
        { p with refuses := true, shutting := p.shutting - 1, sweeping := p.sweeping + 1 }
  | swept :
      0 < p.sweeping →
      Effect factory p .sweep .quiet
        { p with idle := [], expelled := p.expelled + p.idle.length, sweeping := p.sweeping - 1 }

/-! ### The place of a call -/

/-- A call with a permit has a place among the others, and no other bears its number. -/
theorem Distinct.place (d : p.Distinct) (hstage : p.stage? call = some stage) :
    ∃ first rest, p.calls = first ++ (call, stage) :: rest ∧ ∀ c ∈ first ++ rest, c.1 ≠ call := by
  obtain ⟨first, rest, hsplit, -⟩ := List.lookup_eq_some_iff.mp hstage
  have hnodup : (p.calls.map (·.1)).Nodup := (List.nodup_append.mp d).1
  rw [hsplit, List.map_append, List.map_cons, List.perm_middle.nodup_iff, ← List.map_append] at hnodup
  refine ⟨first, rest, hsplit, fun c hc hcall => (List.nodup_cons.mp hnodup).1 ?_⟩
  exact List.mem_map.mpr ⟨c, hc, hcall⟩

/-- A call that is among those with a permit is found by its number. -/
theorem Distinct.stage?_of_mem (d : p.Distinct) (hmem : (call, stage) ∈ p.calls) : p.stage? call = some stage := by
  obtain ⟨first, rest, hsplit⟩ := List.append_of_mem hmem
  have hnodup : (p.calls.map (·.1)).Nodup := (List.nodup_append.mp d).1
  rw [hsplit, List.map_append, List.map_cons] at hnodup
  refine List.lookup_eq_some_iff.mpr ⟨first, rest, hsplit, fun c hc => bne_iff_ne.mpr fun hcall => ?_⟩
  exact (List.nodup_append.mp hnodup).2.2 c.1 (List.mem_map.mpr ⟨c, hc, rfl⟩) call List.mem_cons_self hcall.symm

/-- Only the one call comes to another stage. -/
theorem restaged (hsplit : p.calls = first ++ (call, stage) :: rest) (hothers : ∀ c ∈ first ++ rest, c.1 ≠ call)
    (next : Stage α) :
    (p.calls.map fun c => if c.1 = call then (call, next) else c) = first ++ (call, next) :: rest := by
  have hsame (calls : List (CallId × Stage α)) (hsub : calls ⊆ first ++ rest) :
      (calls.map fun c => if c.1 = call then (call, next) else c) = calls :=
    (List.map_congr_left fun c hc => if_neg (hothers c (hsub hc))).trans (List.map_id calls)
  rw [hsplit, List.map_append, List.map_cons, if_pos rfl, hsame first (List.subset_append_left _ _),
    hsame rest (List.subset_append_right _ _)]

theorem putPermit_spec (p : Pool α) : Puts p p.putPermit := by
  rw [putPermit]
  split
  · exact .freed
  · next hwaiting =>
    split
    · exact .freed
    · next hrefuses => exact .passed hwaiting (Bool.eq_false_iff.mpr hrefuses)

theorem leave_spec (hsplit : p.calls = first ++ (call, stage) :: rest)
    (hothers : ∀ c ∈ first ++ rest, c.1 ≠ call) :
    Puts { p with calls := first ++ rest } (p.leave call) := by
  have hgone : p.calls.filter (·.1 != call) = first ++ rest := by
    have hkeep : (first ++ rest).filter (·.1 != call) = first ++ rest :=
      List.filter_eq_self.mpr fun c hc => bne_iff_ne.mpr (hothers c hc)
    rw [hsplit, List.filter_append, List.filter_cons_of_neg (by simp), ← List.filter_append, hkeep]
  rw [leave, hgone]
  exact putPermit_spec _

/-! ### Every event has one of the effects -/

/-- A call that begins is refused, gets a permit, or finds none. -/
theorem asks_effect (hasks : event.asks call) (hstep : p.step factory event = some (reply, p')) :
    Effect factory p event reply p' := by
  rcases hasks with rfl | rfl
  all_goals
    simp only [step] at hstep
    split at hstep
    · cases hstep
    next hnew =>
    split at hstep
    · next hrefuses =>
      cases hstep
      first
        | exact .refused (.inl rfl) hnew hrefuses
        | exact .refused (.inr rfl) hnew hrefuses
    next hadmits =>
    have hadmits : p.refuses = false := Bool.eq_false_iff.mpr hadmits
    split at hstep
    · next hfree =>
      cases hstep
      first
        | exact .begun (.inl rfl) hnew hadmits hfree
        | exact .begun (.inr rfl) hnew hadmits hfree
    next hnone =>
    cases hstep
    first
      | exact .queued hnew hadmits (Nat.eq_zero_of_not_pos hnone)
      | exact .exhausted hnew hadmits (Nat.eq_zero_of_not_pos hnone)

/-- A call with a permit makes its next move. -/
theorem proceed_effect (hsplit : p.calls = first ++ (call, stage) :: rest)
    (hothers : ∀ c ∈ first ++ rest, c.1 ≠ call) (hstep : p.proceed factory call stage = some (reply, p')) :
    Effect factory p (.go call) reply p' := by
  cases stage with
  | granted =>
    simp only [proceed] at hstep
    split at hstep
    · next hrefuses =>
      cases hstep
      exact .left hsplit (.refused hrefuses) (leave_spec hsplit hothers)
    · next hadmits =>
      cases hstep
      simp only [setStage, restaged hsplit hothers]
      exact .moved hsplit (.resumed (Bool.eq_false_iff.mpr hadmits))
  | admitted =>
    cases hstep
    simp only [setStage, restaged hsplit hothers]
    split
    · next hclosed => exact .moved hsplit (.barred hclosed)
    · next hopen => exact .moved hsplit (.found (Bool.eq_false_iff.mpr hopen))
  | looking =>
    simp only [proceed] at hstep
    split at hstep
    · next a others hidle =>
      cases hstep
      simp only [setStage, restaged hsplit hothers]
      exact .reused hsplit hidle
    · next hidle =>
      cases hstep
      simp only [setStage, restaged hsplit hothers]
      exact .ordered hsplit hidle
  | building build =>
    simp only [proceed] at hstep
    split at hstep
    · next a hbuilt =>
      cases hstep
      simp only [setStage, restaged hsplit hothers]
      exact .built hsplit hbuilt
    · next reason hfailed =>
      cases hstep
      simp only [setStage, restaged hsplit hothers]
      exact .moved hsplit (.failed hfailed)
  | holding => cases hstep
  | returning a =>
    cases hstep
    rw [keep]
    split
    · next hroom =>
      simp only [setStage, restaged hsplit hothers]
      exact .kept hsplit hroom
    · next hfull =>
      simp only [setStage, restaged hsplit hothers]
      exact .dropped hsplit (.full (Nat.le_of_not_lt hfull))
  | leaving error =>
    cases error with
    | none =>
      cases hstep
      exact .left hsplit .returned (leave_spec hsplit hothers)
    | some error =>
      cases hstep
      exact .left hsplit .answered (leave_spec hsplit hothers)

theorem go_effect (d : p.Distinct) (hstep : p.step factory (.go call) = some (reply, p')) :
    Effect factory p (.go call) reply p' := by
  simp only [step] at hstep
  split at hstep
  · next stage hstage =>
    obtain ⟨first, rest, hsplit, hothers⟩ := d.place hstage
    exact proceed_effect hsplit hothers hstep
  · split at hstep
    · next hwaits =>
      cases hstep
      exact .refusedInLine hwaits.2 hwaits.1
    · cases hstep

theorem cancel_effect (d : p.Distinct) (hstep : p.step factory (.cancel call) = some (reply, p')) :
    Effect factory p (.cancel call) reply p' := by
  simp only [step] at hstep
  split at hstep
  · next hstage =>
    cases hstep
    obtain ⟨first, rest, hsplit, hothers⟩ := d.place hstage
    exact .left hsplit .withdrawn (leave_spec hsplit hothers)
  · cases hstep
  · split at hstep
    · next hwaits =>
      cases hstep
      exact .withdrawn hwaits
    · cases hstep

theorem release_effect (d : p.Distinct) (hstep : p.step factory (.release call) = some (reply, p')) :
    Effect factory p (.release call) reply p' := by
  simp only [step] at hstep
  split at hstep
  · next a hstage =>
    obtain ⟨first, rest, hsplit, hothers⟩ := d.place hstage
    split at hstep
    · next hclosed =>
      cases hstep
      simp only [setStage, restaged hsplit hothers]
      exact .dropped hsplit (.closed hclosed)
    · next hopen =>
      cases hstep
      simp only [setStage, restaged hsplit hothers]
      exact .moved hsplit (.returned (Bool.eq_false_iff.mpr hopen))
  · cases hstep

theorem discard_effect (d : p.Distinct) (hstep : p.step factory (.discard call) = some (reply, p')) :
    Effect factory p (.discard call) reply p' := by
  simp only [step] at hstep
  split at hstep
  · next a hstage =>
    obtain ⟨first, rest, hsplit, hothers⟩ := d.place hstage
    cases hstep
    simp only [setStage, restaged hsplit hothers]
    exact .dropped hsplit .discarded
  · cases hstep

/-- Every event that can happen has one of the effects. -/
theorem step_effect (d : p.Distinct) (hstep : p.step factory event = some (reply, p')) :
    Effect factory p event reply p' := by
  cases event with
  | acquire call => exact asks_effect (.inl rfl) hstep
  | tryAcquire call => exact asks_effect (.inr rfl) hstep
  | go call => exact go_effect d hstep
  | cancel call => exact cancel_effect d hstep
  | release call => exact release_effect d hstep
  | discard call => exact discard_effect d hstep
  | close =>
    cases hstep
    exact .closed
  | shut =>
    simp only [step] at hstep
    split at hstep
    · cases hstep
    · next hshutting =>
      cases hstep
      exact .shut (Nat.pos_of_ne_zero hshutting)
  | sweep =>
    simp only [step] at hstep
    split at hstep
    · cases hstep
    · next hsweeping =>
      cases hstep
      exact .swept (Nat.pos_of_ne_zero hsweeping)

/-! ### Numbers -/

namespace Distinct

/-- A call comes to another stage. -/
theorem move (d : p.Distinct) (hsplit : p.calls = first ++ (call, stage) :: rest) {next : Stage α}
    (hcalls : q.calls = first ++ (call, next) :: rest) (hwaiting : q.waiting = p.waiting) : q.Distinct := by
  have hsame : q.numbers = p.numbers := by simp [numbers, hcalls, hwaiting, hsplit]
  rw [Distinct, hsame]
  exact d

/-- A call is over, and its permit may go to the first call of the line. -/
theorem leave (d : p.Distinct) (hsplit : p.calls = first ++ (call, stage) :: rest)
    (hputs : Puts { p with calls := first ++ rest } p') : p'.Distinct := by
  have hsub : ((first ++ rest).map (·.1)).Sublist (p.calls.map (·.1)) := by
    rw [hsplit]
    exact (List.Sublist.append_left (List.sublist_cons_self _ _) first).map _
  cases hputs with
  | freed => exact d.sublist (hsub.append (List.Sublist.refl _))
  | @passed other line hwaiting =>
    have hsame : numbers { p with waiting := line, calls := first ++ rest ++ [(other, Stage.granted)] } =
        (first ++ rest).map (·.1) ++ p.waiting := by
      rw [hwaiting]
      simp [numbers]
    rw [Distinct, hsame]
    exact d.sublist (hsub.append (List.Sublist.refl _))

/-- Every event keeps the numbers apart. -/
theorem effect (d : p.Distinct) (e : Effect factory p event reply p') : p'.Distinct := by
  cases e with
  | begun _ hnew =>
    rw [Distinct, numbers, List.map_append, List.append_assoc]
    exact List.perm_middle.nodup_iff.mpr (List.nodup_cons.mpr ⟨hnew, d⟩)
  | queued hnew =>
    rw [Distinct, numbers, ← List.append_assoc]
    exact List.perm_append_comm.nodup_iff.mpr (List.nodup_cons.mpr ⟨hnew, d⟩)
  | exhausted => exact d
  | refused => exact d
  | refusedInLine => exact d.sublist (List.Sublist.append_left List.filter_sublist _)
  | withdrawn => exact d.sublist (List.Sublist.append_left List.filter_sublist _)
  | moved hsplit => exact d.move hsplit rfl rfl
  | reused hsplit => exact d.move hsplit rfl rfl
  | ordered hsplit => exact d.move hsplit rfl rfl
  | built hsplit => exact d.move hsplit rfl rfl
  | kept hsplit => exact d.move hsplit rfl rfl
  | dropped hsplit => exact d.move hsplit rfl rfl
  | left hsplit _ hputs => exact d.leave hsplit hputs
  | closed => exact d
  | shut => exact d
  | swept => exact d

end Distinct

/-- A closed pool stays closed. -/
theorem Effect.closed_of_closed (e : Effect factory p event reply p') (hclosed : p.closed = true) :
    p'.closed = true := by
  cases e with
  | left _ _ hputs => cases hputs <;> exact hclosed
  | closed => rfl
  | _ => exact hclosed

/-- Whatever holds of a new pool and is kept by every effect holds of every schedule. -/
theorem induction {P : List (Happening α) → Pool α → Prop} {settings : PoolSettings}
    (start : P [] (ofSettings settings))
    (next : ∀ h p event reply p', p.Distinct → P h p → Effect factory p event reply p' →
      P (h ++ [⟨p, event, reply, p'⟩]) p') (events : List Event) :
    P (happenings factory settings events) (afterEvents factory settings events) := by
  refine (Schedule.induction (P := fun h p => p.Distinct ∧ P h p) ⟨List.nodup_nil, start⟩ ?_ events).2
  rintro h p event reply p' ⟨d, hp⟩ hstep
  have e := step_effect d hstep
  exact ⟨d.effect e, next h p event reply p' d hp e⟩

/-- No two calls bear the same number after a schedule. -/
theorem distinct_after (factory : Nat → Except String α) (settings : PoolSettings) (events : List Event) :
    (afterEvents factory settings events).Distinct :=
  induction (P := fun _ p => p.Distinct) List.nodup_nil (fun _ _ _ _ _ d _ e => d.effect e) events

end Pool

end Sluice
