import Mathlib.Data.Fintype.EquivFin
import Mathlib.Data.List.Forall2
import Sluice.Proofs.Daemon.Stopping

/-!
# What a refused signal leaves behind

A signal is counted before it is sent, and it stays counted when the daemon refuses it. `refused_unnoticed_iff` says
what can be seen of that, for every schedule. The number of attempts and the running calls are as before. From the
signal on the daemon looks as if it were solving, and a call that waits from now on returns that the daemon has
stopped. So it looks as before if and only if a signal was left unsolved when the daemon ended; then no later answer
tells the difference either. If all signals were solved, the refused one is noticed (`noticed_stopSolved`).

A daemon refuses signals when its task has ended (`Tended.closed_iff`). What is left to be told is that the count makes
no difference as long as it is not published: two such daemons stay `Alike`.
-/

namespace Sluice

namespace Daemon

variable {d d' : Daemon} {event : Event} {reply : Reply} {h early late : List Happening} {s : Happening} {call : CallId}

/-! ### What can be seen -/

/-- What a handle shows without waiting. -/
structure View where
  rounds : Nat
  solving : Bool
  deriving DecidableEq, Repr

/-- What a handle shows at present. -/
def view (d : Daemon) : View := ⟨d.rounds, d.isSolving⟩

/-- A call that begins to wait until the signals so far are solved returns at once, with a result. -/
def Settles (d : Daemon) (result : Except WorkerError Unit) : Prop :=
  ∀ call, d.calls.lookup call = none → ∃ d₁ d₂,
    d.step (.awaitSolved call) = some (.quiet, d₁) ∧ d₁.step (.resume call) = some (.settled result, d₂)

/-- The same event with the same answer, after which the handles show the same. -/
def SameSight (r r' : Happening) : Prop :=
  r.event = r'.event ∧ r.reply = r'.reply ∧ r'.after.view = r.after.view

/-! ### What the running calls of a daemon that has ended are answered -/

theorem step_resume_of_none (hcall : d.calls.lookup call = none) : d.step (.resume call) = none := by
  simp only [step, hcall]

theorem step_resume_of_solved {target : Nat} (hended : d.phase = .ended)
    (hcall : d.calls.lookup call = some (.solved target)) :
    d.step (.resume call) =
      some (.settled (if target ≤ d.solvedThrough then .ok () else .error .shutdown), d.endCall call) := by
  simp only [step, hcall, hasEnded, hended, beq_self_eq_true, if_true]
  split <;> rfl

theorem step_resume_of_room (hclosed : d.commands.closed = true) (hcall : d.calls.lookup call = some .room) :
    d.step (.resume call) =
      (d.commands.resume call).map fun r => (.stopped, ({ d with commands := r.2 } : Daemon).endCall call) := by
  simp only [step, hcall]
  rcases hresume : d.commands.resume call with _ | ⟨answer, commands⟩
  · rfl
  · cases Channel.resume_spec hresume with
    | accepted hopen => cases hopen.symm.trans hclosed
    | closed => rfl

theorem step_resume_of_answer (hcall : d.calls.lookup call = some .answer) :
    d.step (.resume call) = if d.owesAnswer call then none else some (.stopped, d.endCall call) := by
  simp only [step, hcall]

/-- What a running call is answered does not depend on how many signals there were. -/
theorem reply_resume_recount (d : Daemon) (count : Nat) (call : CallId) :
    (({ d with requested := count } : Daemon).step (.resume call)).map Prod.fst =
      (d.step (.resume call)).map Prod.fst := by
  simp only [step]
  rcases d.calls.lookup call with _ | (target | _ | _)
  · rfl
  · by_cases hle : target ≤ d.solvedThrough
    · simp only [if_pos hle, Option.map_some]
    · by_cases hended : d.phase = .ended <;> simp [hle, hasEnded, hended]
  · rcases d.commands.resume call with _ | ⟨_ | _ | _, commands⟩ <;> rfl
  · show Option.map _ (if d.owesAnswer call then _ else _) = Option.map _ (if d.owesAnswer call then _ else _)
    by_cases howes : d.owesAnswer call = true
    · rw [if_pos howes, if_pos howes]
    · rw [if_neg howes, if_neg howes, Option.map_some, Option.map_some]

/-- There is one result only with which a call could return. -/
theorem Settles.unique {result result' : Except WorkerError Unit} (k : Settles d result) (k' : Settles d result') :
    result = result' := by
  obtain ⟨call, hcall⟩ := Infinite.exists_notMem_finset (d.calls.map Prod.fst).toFinset
  have hnew : d.calls.lookup call = none := by
    refine List.lookup_eq_none_iff.mpr fun c hc => ?_
    refine bne_iff_ne.mpr fun heq => hcall ?_
    exact List.mem_toFinset.mpr (List.mem_map.mpr ⟨c, hc, heq.symm⟩)
  obtain ⟨d₁, d₂, hbegin, hend⟩ := k call hnew
  obtain ⟨d₁', d₂', hbegin', hend'⟩ := k' call hnew
  cases hbegin.symm.trans hbegin'
  cases hend.symm.trans hend'
  rfl

theorem settles_of_ended (hended : d.phase = .ended) (hhandles : d.handles ≠ 0) :
    Settles d (if d.isSolving then .error .shutdown else .ok ()) := by
  intro call hnew
  have hstep : d.step (.awaitSolved call) =
      some (.quiet, { d with calls := d.calls ++ [(call, .solved d.requested)] }) := if_neg hhandles
  have hcall : (d.calls ++ [(call, Waiting.solved d.requested)]).lookup call = some (.solved d.requested) := by
    rw [List.lookup_append, hnew]
    simp
  have hanswer := step_resume_of_solved (d := { d with calls := d.calls ++ [(call, .solved d.requested)] }) hended hcall
  have hresult : (if d.isSolving then .error .shutdown else .ok () : Except WorkerError Unit) =
      if d.requested ≤ d.solvedThrough then .ok () else .error .shutdown := by
    rw [isSolving]
    rcases Nat.lt_or_ge d.solvedThrough d.requested with hlt | hge
    · simp [hlt, Nat.not_le_of_lt hlt]
    · simp [hge, Nat.not_lt_of_le hge]
  rw [hresult]
  exact ⟨_, _, hstep, hanswer⟩

/-! ### Daemons that nobody can tell apart -/

/-- Two calls wait for the same, or both of them for more signals to be solved than ever will be. -/
inductive AlikeWaiting (solved : Nat) : Waiting → Waiting → Prop
  | same (waiting : Waiting) : AlikeWaiting solved waiting waiting
  | vain {target target' : Nat} :
      solved < target → solved < target' → AlikeWaiting solved (.solved target) (.solved target')

/-- Two running calls have one number and wait for alike things. -/
def AlikeCall (solved : Nat) (c c' : CallId × Waiting) : Prop := c.1 = c'.1 ∧ AlikeWaiting solved c.2 c'.2

/-- Two daemons that have ended with signals unsolved, and differ in how many there were. -/
inductive Alike (d : Daemon) : Daemon → Prop
  | intro {count : Nat} {calls : List (CallId × Waiting)} :
      d.phase = .ended → d.commands.closed = true → d.solvedThrough < d.requested → d.solvedThrough < count →
      List.Forall₂ (AlikeCall d.solvedThrough) d.calls calls → Alike d { d with requested := count, calls }

theorem AlikeCall.refl {solved : Nat} (calls : List (CallId × Waiting)) :
    List.Forall₂ (AlikeCall solved) calls calls :=
  List.forall₂_same.mpr fun c _ => ⟨rfl, .same c.2⟩

/-- The calls with other numbers stay alike when one ends. -/
theorem AlikeCall.filter {solved : Nat} {calls calls' : List (CallId × Waiting)}
    (hcalls : List.Forall₂ (AlikeCall solved) calls calls') (call : CallId) :
    List.Forall₂ (AlikeCall solved) (calls.filter (·.1 != call)) (calls'.filter (·.1 != call)) := by
  refine List.rel_filter (R := AlikeCall solved) (fun c c' hsame => ?_) hcalls
  simp [hsame.1]

theorem AlikeCall.lookup {solved : Nat} {calls calls' : List (CallId × Waiting)}
    (hcalls : List.Forall₂ (AlikeCall solved) calls calls') (call : CallId) :
    Option.Rel (AlikeWaiting solved) (calls.lookup call) (calls'.lookup call) := by
  induction hcalls with
  | nil => exact .none
  | @cons c c' rest rest' hsame _ ih =>
    rw [List.lookup_cons, List.lookup_cons, ← hsame.1]
    cases call == c.1 with
    | true => exact .some hsame.2
    | false => exact ih

namespace Alike

theorem view_eq (r : Alike d d') : d'.view = d.view := by
  cases r with
  | intro _ _ hunsolved hunsolved' =>
    simp [view, isSolving, hunsolved, hunsolved']

/-- A call goes on alike. -/
theorem resume (r : Alike d d') (call : CallId) :
    Option.Rel (fun a b => a.1 = b.1 ∧ Alike a.2 b.2) (d.step (.resume call)) (d'.step (.resume call)) := by
  obtain ⟨hended, hclosed, hunsolved, hunsolved', hcalls⟩ := r
  rename_i count calls
  have hends : Alike (d.endCall call) (({ d with requested := count, calls } : Daemon).endCall call) :=
    .intro hended hclosed hunsolved hunsolved' (AlikeCall.filter hcalls call)
  rcases Schedule.rel_cases (AlikeCall.lookup hcalls call) with
    ⟨hbefore, hafter⟩ | ⟨waiting, waiting', hbefore, hafter, halike⟩
  · rw [step_resume_of_none hbefore, step_resume_of_none hafter]
    exact .none
  cases halike with
  | vain hlt hlt' =>
    rw [step_resume_of_solved hended hbefore,
      step_resume_of_solved (d := { d with requested := count, calls }) hended hafter,
      if_neg (Nat.not_le_of_lt hlt), if_neg (Nat.not_le_of_lt hlt')]
    exact .some ⟨rfl, hends⟩
  | same =>
    cases waiting with
    | solved target =>
      rw [step_resume_of_solved hended hbefore,
        step_resume_of_solved (d := { d with requested := count, calls }) hended hafter]
      exact .some ⟨rfl, hends⟩
    | room =>
      rw [step_resume_of_room hclosed hbefore,
        step_resume_of_room (d := { d with requested := count, calls }) hclosed hafter]
      rcases hresume : d.commands.resume call with _ | ⟨answer, commands⟩
      · exact .none
      · cases Channel.resume_spec hresume with
        | accepted hopen => cases hopen.symm.trans hclosed
        | closed =>
          refine .some ⟨rfl, ?_⟩
          exact Alike.intro (d := ({ d with commands := d.commands.withdraw call } : Daemon).endCall call) hended
            hclosed hunsolved hunsolved' (AlikeCall.filter hcalls call)
    | answer =>
      rw [step_resume_of_answer hbefore,
        step_resume_of_answer (d := { d with requested := count, calls }) hafter]
      show Option.Rel _ (if d.owesAnswer call then _ else _) (if d.owesAnswer call then _ else _)
      cases d.owesAnswer call with
      | true => exact .none
      | false => exact .some ⟨rfl, hends⟩

/-- Whatever happens to one of them can happen to the other one, with the same answer. -/
theorem step (r : Alike d d') (event : Event) :
    Option.Rel (fun a b => a.1 = b.1 ∧ Alike a.2 b.2) (d.step event) (d'.step event) := by
  have hresume := r.resume
  obtain ⟨hended, hclosed, hunsolved, hunsolved', hcalls⟩ := r
  cases event with
  | signal =>
    have hoffer : d.commands.offer .stateChange = (.closed, d.commands) := by rw [Channel.offer, if_pos hclosed]
    simp only [Daemon.step, hoffer]
    split
    · exact .none
    · exact .some ⟨rfl, .intro hended hclosed (Nat.lt_succ_of_lt hunsolved) (Nat.lt_succ_of_lt hunsolved') hcalls⟩
  | awaitSolved call =>
    simp only [Daemon.step]
    split
    · exact .none
    · refine .some ⟨rfl, .intro hended hclosed hunsolved hunsolved' ?_⟩
      exact List.rel_append hcalls (.cons ⟨rfl, .vain hunsolved hunsolved'⟩ .nil)
  | requestStop call =>
    have hsend : d.commands.send call (.stop call) = (.closed, d.commands) := by
      rw [Channel.send, Channel.offer, if_pos hclosed]
    simp only [Daemon.step, hsend]
    split
    · exact .none
    · exact .some ⟨rfl, .intro hended hclosed hunsolved hunsolved' hcalls⟩
  | resume call => exact hresume call
  | cancel call =>
    exact .some ⟨rfl, .intro hended hclosed hunsolved hunsolved' (AlikeCall.filter hcalls call)⟩
  | copyHandle =>
    simp only [Daemon.step]
    split
    · exact .none
    · exact .some ⟨rfl, .intro hended hclosed hunsolved hunsolved' hcalls⟩
  | dropHandle =>
    simp only [Daemon.step]
    split
    · exact .none
    · exact .some ⟨rfl, .intro hended hclosed hunsolved hunsolved' hcalls⟩
  -- The task of a daemon that has ended does not move.
  | takeCommand =>
    simp only [Daemon.step, hended]
    exact .none
  | attemptReturns solved =>
    simp only [Daemon.step, hended]
    exact .none
  | pauseEnds =>
    simp only [Daemon.step, hended]
    exact .none
  | pauseInterrupted =>
    simp only [Daemon.step, hended]
    exact .none

/-- What happens to both of them leaves them alike, and shows the same. -/
theorem next (r : Alike d d') (event : Event) :
    Option.Rel (fun a b => Alike a.2 b.2 ∧ SameSight ⟨d, event, a.1, a.2⟩ ⟨d', event, b.1, b.2⟩)
      (d.step event) (d'.step event) := by
  rcases Schedule.rel_cases (r.step event) with ⟨hnone, hnone'⟩ | ⟨a, b, hsome, hsome', hreply, halike⟩
  · rw [hnone, hnone']
    exact .none
  · rw [hsome, hsome']
    exact .some ⟨halike, rfl, hreply, halike.view_eq⟩

end Alike

/-! ### A signal is refused -/

/-- A daemon refuses a signal when it has ended, and counts it. -/
theorem Tended.of_refused (c : Tended h d) (e : Effect d event (.signalled (.error .shutdown)) d') :
    d.handles ≠ 0 ∧ d.phase = .ended ∧ d.commands.closed = true ∧
      d' = { d with requested := d.requested + 1 } := by
  cases e with
  | missed hhandles hclosed => exact ⟨hhandles, c.closed_iff.mp hclosed, hclosed, rfl⟩

/-- Whatever happens to a daemon that had ended with signals unsolved happens alike after a refused signal. -/
theorem alike_of_unsolved (hended : d.phase = .ended) (hclosed : d.commands.closed = true)
    (hsolving : d.isSolving = true) : Alike d { d with requested := d.requested + 1 } := by
  have hunsolved : d.solvedThrough < d.requested := of_decide_eq_true hsolving
  exact .intro hended hclosed hunsolved (Nat.lt_succ_of_lt hunsolved) (AlikeCall.refl d.calls)

/-- A refused signal is counted, and nothing else changes: not the number of attempts, and not what a running call
is answered. From then on the daemon looks as if it were solving, and a call that begins to wait returns that it has
stopped. That was so before if and only if a signal was unsolved when the daemon ended, and then nothing that happens
later tells the difference. -/
theorem refused_unnoticed_iff (settings : DaemonSettings) (events : List Event) {early late : List Happening}
    {s : Happening} (hsplit : happenings settings events = early ++ s :: late)
    (hrefused : s.reply = .signalled (.error .shutdown)) :
    s.after = { s.before with requested := s.before.requested + 1 } ∧
      (∀ call, (s.after.step (.resume call)).map Prod.fst = (s.before.step (.resume call)).map Prod.fst) ∧
      s.after.view = ⟨s.before.rounds, true⟩ ∧ Settles s.after (.error .shutdown) ∧
      Settles s.before (if s.before.isSolving then .error .shutdown else .ok ()) ∧
      (s.after.view = s.before.view ∧ (∀ result, Settles s.after result ↔ Settles s.before result) ↔
        s.before.isSolving = true) ∧
      (s.before.isSolving = true → ∀ more,
        List.Forall₂ SameSight (Schedule.occurrences step s.before more)
          (Schedule.occurrences step s.after more)) := by
  obtain ⟨first, -, -, hstate, hstep, -⟩ := Schedule.split hsplit
  have c : Tended (happenings settings first) s.before := hstate ▸ tended settings first
  have hle : s.before.solvedThrough ≤ s.before.requested := (covered_before hsplit).solved_le
  rw [hrefused] at hstep
  obtain ⟨hhandles, hended, hclosed, hafter⟩ := c.of_refused (step_effect hstep)
  have hsolving : s.after.isSolving = true := by
    rw [hafter, isSolving]
    exact decide_eq_true (Nat.lt_succ_of_le hle)
  have hview : s.after.view = ⟨s.before.rounds, true⟩ := by
    rw [view, hsolving, hafter]
  have hsettles : Settles s.after (.error .shutdown) := by
    have hended' : s.after.phase = .ended := by rw [hafter]; exact hended
    have hhandles' : s.after.handles ≠ 0 := by rw [hafter]; exact hhandles
    have := settles_of_ended hended' hhandles'
    rwa [hsolving] at this
  have hsettled := settles_of_ended hended hhandles
  refine ⟨hafter, fun call => ?_, hview, hsettles, hsettled, ⟨fun hsame => ?_, fun hunsolved => ?_⟩,
    fun hunsolved more => Schedule.alongside (R := Alike) (fun _ _ event r => r.next event) ?_ more⟩
  · rw [hafter]
    exact reply_resume_recount s.before _ call
  · have hsame := hsame.1
    rw [hview, view] at hsame
    exact (View.mk.inj hsame).2.symm
  · rw [hunsolved] at hsettled
    refine ⟨by rw [hview, view, hunsolved], fun result => ⟨fun k => ?_, fun k => ?_⟩⟩
    · rw [k.unique hsettles]
      exact hsettled
    · rw [k.unique hsettled]
      exact hsettles
  · rw [hafter]
    exact alike_of_unsolved hended hclosed hunsolved

/-- A schedule with a daemon that is stopped while it pauses after an attempt that failed, and a signal that comes too
late. -/
def stopUnsolved : List Event :=
  [.signal, .takeCommand, .attemptReturns false, .requestStop 1, .pauseInterrupted, .resume 1, .signal]

theorem refused_unnoticed_iff_stopUnsolved :
    let h := happenings .small stopUnsolved
    ∃ early s, h = early ++ [s] ∧ s.reply = .signalled (.error .shutdown) ∧ s.before.isSolving = true ∧
      s.after.view = s.before.view ∧ ∀ result, Settles s.after result ↔ Settles s.before result := by
  intro h
  have hsplit : h = h.take 6 ++ [h[6]] := rfl
  have hunsolved : h[6].before.isSolving = true := by decide
  obtain ⟨-, -, -, -, -, hsame, -⟩ := refused_unnoticed_iff .small stopUnsolved hsplit rfl
  exact ⟨_, _, hsplit, rfl, hunsolved, hsame.mpr hunsolved⟩

/-- A schedule with a daemon that has solved its state and is stopped, and a signal that comes too late. -/
def stopSolved : List Event :=
  [.signal, .takeCommand, .attemptReturns true, .requestStop 1, .takeCommand, .resume 1, .signal]

/-- A refused signal can change what the handles show, and the result of a call that begins to wait. -/
theorem noticed_stopSolved :
    ∃ early s, happenings .small stopSolved = early ++ [s] ∧ s.reply = .signalled (.error .shutdown) ∧
      s.before.isSolving = false ∧ s.after.isSolving = true ∧
      Settles s.before (.ok ()) ∧ Settles s.after (.error .shutdown) := by
  let h := happenings .small stopSolved
  have hsplit : h = h.take 6 ++ [h[6]] := rfl
  refine ⟨_, _, hsplit, rfl, by decide, by decide, ?_, ?_⟩
  · exact settles_of_ended (d := h[6].before) (by decide) (by decide)
  · exact settles_of_ended (d := h[6].after) (by decide) (by decide)

end Daemon

end Sluice
