import Sluice.Proofs.Daemon.Effect

/-!
# What counts as solved was solved after the signal

A daemon counts signals and publishes how many of them are solved, and a call that waits for the state to be solved
compares the two counts. That says nothing yet about the attempts. `solved_after_signal` says, for every schedule,
that a signal which counts as solved is covered: there is an attempt that began after it and has returned that the
state is solved.

The invariant is `Covered`. An attempt takes with it, when it begins, a count of the signals so far, or the count of
the attempt before; in both cases these signals were there before it began. So the count that it publishes when it
succeeds is one of signals that it covers, whatever has been signalled meanwhile. The invariant speaks of the first
signals of a history, up to some count, and of how the history goes on after each of them (`AfterSignals`).
-/

namespace Sluice

namespace Daemon

variable {d d' : Daemon} {event : Event} {reply : Reply} {h early late : List Happening} {s : Happening}

/-! ### What a history tells -/

/-- How many signals there were. -/
def signalCount (h : List Happening) : Nat := h.countP (·.event == .signal)

/-- The attempt with a number begins. -/
def Begins (s : Happening) (n : Nat) : Prop := s.before.rounds + 1 = n ∧ s.after.rounds = n

/-- The attempt with a number returns that it has solved the state. -/
def Solves (s : Happening) (n : Nat) : Prop := s.event = .attemptReturns true ∧ s.before.rounds = n

/-- The attempt with a number has begun. -/
def HasBegun (n : Nat) (h : List Happening) : Prop := ∃ b ∈ h, Begins b n

/-- Some attempt has begun and has returned that it has solved the state. -/
def HasSolved (h : List Happening) : Prop := ∃ n b r, Begins b n ∧ Solves r n ∧ [b, r].Sublist h

/-- After each of the first `count` signals a history goes on in a certain way. -/
def AfterSignals (P : List Happening → Prop) (h : List Happening) (count : Nat) : Prop :=
  ∀ early s late, h = early ++ s :: late → s.event = .signal → signalCount early < count → P late

theorem signalCount_snoc (h : List Happening) (s : Happening) :
    signalCount (h ++ [s]) = signalCount h + if s.event = .signal then 1 else 0 := by
  simp [signalCount, List.countP_append, List.countP_singleton]

/-- A signal is not among those before it. -/
theorem signalCount_lt (hsignal : s.event = .signal) : signalCount early < signalCount (early ++ s :: late) := by
  simp [signalCount, hsignal]

theorem HasBegun.snoc {n : Nat} (b : HasBegun n h) (s : Happening) : HasBegun n (h ++ [s]) := by
  obtain ⟨o, ho, hbegins⟩ := b
  exact ⟨o, List.mem_append_left _ ho, hbegins⟩

theorem HasSolved.snoc (hsolved : HasSolved h) (s : Happening) : HasSolved (h ++ [s]) := by
  obtain ⟨n, b, r, hbegins, hsolves, hsub⟩ := hsolved
  exact ⟨n, b, r, hbegins, hsolves, hsub.trans (List.sublist_append_left h [s])⟩

/-- An attempt that has begun returns that it has solved the state. -/
theorem HasBegun.solved {n : Nat} (b : HasBegun n h) (hsolves : Solves s n) : HasSolved (h ++ [s]) := by
  obtain ⟨o, ho, hbegins⟩ := b
  refine ⟨n, o, s, hbegins, hsolves, ?_⟩
  exact (List.singleton_sublist.mpr ho).append (List.Sublist.refl [s])

namespace AfterSignals

variable {P Q : List Happening → Prop} {count : Nat}

/-- One event more. The new event is none of the first signals, if those have been counted already. -/
theorem snoc (a : AfterSignals P h count) (hcount : count ≤ signalCount h)
    (hnext : ∀ late, P late → Q (late ++ [s])) : AfterSignals Q (h ++ [s]) count := by
  intro early r late hsplit hsignal hlt
  rcases Schedule.split_snoc hsplit with ⟨rfl, -, -⟩ | ⟨rest, rfl, hbefore⟩
  · omega
  · exact hnext rest (a early r rest hbefore hsignal hlt)

/-- An attempt begins after all signals so far. -/
theorem of_begins {n : Nat} (hcount : count ≤ signalCount h) (hbegins : Begins s n) :
    AfterSignals (HasBegun n) (h ++ [s]) count := by
  have a : AfterSignals (fun _ => True) h count := fun _ _ _ _ _ _ => trivial
  exact a.snoc hcount fun late _ => ⟨s, List.mem_append_right _ List.mem_cons_self, hbegins⟩

theorem of_max {count' : Nat} (a : AfterSignals P h count) (a' : AfterSignals P h count') :
    AfterSignals P h (max count count') := by
  intro early s late hsplit hsignal hlt
  rcases Nat.lt_or_ge (signalCount early) count with hfirst | hfirst
  · exact a early s late hsplit hsignal hfirst
  · exact a' early s late hsplit hsignal (by omega)

end AfterSignals

/-! ### The invariant -/

/-- How many signals the task is to solve at present. -/
def Phase.aim : Phase → Nat
  | .solving target _ => target
  | .pausing target => target
  | _ => 0

/-- The counts of a daemon are about attempts that its history tells of. -/
structure Covered (h : List Happening) (d : Daemon) : Prop where
  requested : signalCount h = d.requested
  solved_le : d.solvedThrough ≤ d.requested
  aim_le : d.phase.aim ≤ d.requested
  /-- An attempt in progress began after all signals that it is to solve. -/
  begun : ∀ target stopping, d.phase = .solving target stopping → AfterSignals (HasBegun d.rounds) h target
  solved : AfterSignals HasSolved h d.solvedThrough

namespace Covered

theorem start (settings : DaemonSettings) : Covered [] (ofSettings settings) where
  requested := rfl
  solved_le := Nat.le_refl 0
  aim_le := Nat.le_refl 0
  begun := nofun
  solved early s late hsplit := by simp at hsplit

/-- What is solved stays so. -/
theorem solved_snoc (c : Covered h d) (s : Happening) : AfterSignals HasSolved (h ++ [s]) d.solvedThrough := by
  refine c.solved.snoc ?_ fun late hlate => hlate.snoc s
  rw [c.requested]
  exact c.solved_le

/-- An attempt is to solve signals that have been counted. -/
theorem le_signalCount (c : Covered h d) {target : Nat} {stopping : Option CallId}
    (hsolving : d.phase = .solving target stopping) : target ≤ signalCount h := by
  have haim := c.aim_le
  rw [hsolving] at haim
  rw [c.requested]
  exact haim

/-- A signal is counted or a call moves, and the task waits on. -/
theorem of_call (c : Covered h d) (hrequested : d'.requested = d.requested + if event = .signal then 1 else 0)
    (hsolved : d'.solvedThrough = d.solvedThrough) (hphase : d'.phase = d.phase)
    (hrounds : d'.rounds = d.rounds) : Covered (h ++ [⟨d, event, reply, d'⟩]) d' where
  requested := by rw [signalCount_snoc, c.requested, hrequested]
  solved_le := by
    have := c.solved_le
    omega
  aim_le := by
    have := c.aim_le
    rw [hphase]
    omega
  begun target stopping hsolving := by
    rw [hphase] at hsolving
    rw [hrounds]
    exact (c.begun target stopping hsolving).snoc (c.le_signalCount hsolving) fun late hlate => hlate.snoc _
  solved := by
    rw [hsolved]
    exact c.solved_snoc _

/-- An attempt begins that is to solve signals which have been counted. -/
theorem of_attempt (c : Covered h d) (hevent : event ≠ .signal) {commands : Channel Command} {target : Nat}
    {stopping : Option CallId} (htarget : target ≤ d.requested) :
    Covered (h ++ [⟨d, event, reply, ({ d with commands } : Daemon).attempt target stopping⟩])
      (({ d with commands } : Daemon).attempt target stopping) where
  requested := by
    rw [signalCount_snoc, if_neg hevent, c.requested]
    rfl
  solved_le := c.solved_le
  aim_le := htarget
  begun target' stopping' hsolving := by
    cases hsolving
    refine AfterSignals.of_begins ?_ ⟨rfl, rfl⟩
    rw [c.requested]
    exact htarget
  solved := c.solved_snoc _

/-- The task waits for something other than an attempt, and nothing is published. -/
theorem of_unsolved (c : Covered h d) (hevent : event ≠ .signal) (hrequested : d'.requested = d.requested)
    (hsolved : d'.solvedThrough = d.solvedThrough) (haim : d'.phase.aim ≤ d.phase.aim)
    (hphase : ∀ target stopping, d'.phase ≠ .solving target stopping) :
    Covered (h ++ [⟨d, event, reply, d'⟩]) d' where
  requested := by rw [signalCount_snoc, if_neg hevent, c.requested, hrequested]; rfl
  solved_le := by
    have := c.solved_le
    omega
  aim_le := by
    have := c.aim_le
    omega
  begun target stopping hsolving := absurd hsolving (hphase target stopping)
  solved := by
    rw [hsolved]
    exact c.solved_snoc _

/-- An attempt returns that it has solved the state, and the signals before its beginning are published. -/
theorem of_solved (c : Covered h d) {target : Nat} {stopping : Option CallId}
    (hsolving : d.phase = .solving target stopping) (hrequested : d'.requested = d.requested)
    (hsolved : d'.solvedThrough = max d.solvedThrough target) (haim : d'.phase.aim = 0)
    (hphase : ∀ target stopping, d'.phase ≠ .solving target stopping) :
    Covered (h ++ [⟨d, .attemptReturns true, reply, d'⟩]) d' := by
  have hle := c.solved_le
  have htarget := c.le_signalCount hsolving
  constructor
  · rw [signalCount_snoc, if_neg nofun, c.requested, hrequested]
    rfl
  · rw [c.requested] at htarget
    omega
  · omega
  · exact fun target stopping hsolving => absurd hsolving (hphase target stopping)
  · rw [hsolved]
    refine AfterSignals.of_max (c.solved_snoc _) ?_
    exact (c.begun target stopping hsolving).snoc htarget fun late hlate => hlate.solved ⟨rfl, rfl⟩

/-- Every event keeps the invariant. -/
theorem effect (c : Covered h d) (e : Effect d event reply d') : Covered (h ++ [⟨d, event, reply, d'⟩]) d' := by
  cases e with
  | queued => exact c.of_call rfl rfl rfl rfl
  | folded => exact c.of_call rfl rfl rfl rfl
  | missed => exact c.of_call rfl rfl rfl rfl
  | awaiting => exact c.of_call rfl rfl rfl rfl
  | stopping => exact c.of_call rfl rfl rfl rfl
  | stopMissed => exact c.of_call rfl rfl rfl rfl
  | settled => exact c.of_call rfl rfl rfl rfl
  | unsettled => exact c.of_call rfl rfl rfl rfl
  | stopSent => exact c.of_call rfl rfl rfl rfl
  | stopRefused => exact c.of_call rfl rfl rfl rfl
  | stopAnswered => exact c.of_call rfl rfl rfl rfl
  | cancelled => exact c.of_call rfl rfl rfl rfl
  | copied => exact c.of_call rfl rfl rfl rfl
  | released => exact c.of_call rfl rfl rfl rfl
  | begun => exact c.of_attempt (by nofun) (Nat.le_refl _)
  | stopTaken hreceives => exact c.of_unsolved hreceives.ne_signal rfl rfl (Nat.zero_le _) nofun
  | forsaken hreceives => exact c.of_unsolved hreceives.ne_signal rfl rfl (Nat.zero_le _) nofun
  | solved hsolving => exact c.of_solved hsolving rfl rfl rfl nofun
  | failed hsolving => exact c.of_unsolved nofun rfl rfl (by rw [hsolving]; exact Nat.le_refl _) nofun
  | solvedLast hsolving => exact c.of_solved hsolving rfl rfl rfl nofun
  | failedLast => exact c.of_unsolved nofun rfl rfl (Nat.zero_le _) nofun
  | retried hpausing =>
    refine c.of_attempt (by nofun) ?_
    have := c.aim_le
    rw [hpausing] at this
    exact this
  | interrupted => exact c.of_attempt (by nofun) (Nat.le_refl _)

end Covered

/-- Every schedule keeps the invariant. -/
theorem covered (settings : DaemonSettings) (events : List Event) :
    Covered (happenings settings events) (afterEvents settings events) := by
  refine Schedule.induction (Covered.start settings) ?_ events
  intro h d event reply d' c hstep
  exact c.effect (step_effect hstep)

/-- The invariant holds before every event of a schedule. -/
theorem covered_before {settings : DaemonSettings} {events : List Event}
    (hsplit : happenings settings events = early ++ s :: late) : Covered early s.before := by
  obtain ⟨first, -, hearly, hbefore, -, -⟩ := Schedule.split hsplit
  rw [← hearly, ← hbefore]
  exact covered settings first

/-! ### The calls that wait for the state to be solved -/

/-- The call with a number waits for no less than some count of signals, if it waits for the state to be solved. -/
structure Awaits (call : CallId) (count : Nat) (d : Daemon) : Prop where
  le_requested : count ≤ d.requested
  le_target : ∀ target, (call, Waiting.solved target) ∈ d.calls → count ≤ target

namespace Awaits

variable {call : CallId} {count : Nat}

/-- The running calls that wait for the state to be solved did so before, or one begins. -/
theorem of_calls (a : Awaits call count d) (hrequested : d.requested ≤ d'.requested)
    (hcalls : ∀ other target, (other, Waiting.solved target) ∈ d'.calls →
      (other, Waiting.solved target) ∈ d.calls ∨ target = d.requested) : Awaits call count d' where
  le_requested := Nat.le_trans a.le_requested hrequested
  le_target target hmem := by
    rcases hcalls call target hmem with hbefore | rfl
    · exact a.le_target target hbefore
    · exact a.le_requested

theorem of_same (a : Awaits call count d) (hrequested : d.requested ≤ d'.requested) (hcalls : d'.calls = d.calls) :
    Awaits call count d' := by
  refine a.of_calls hrequested fun other target hmem => .inl ?_
  rw [hcalls] at hmem
  exact hmem

/-- A call ends. -/
theorem of_filter (a : Awaits call count d) (hrequested : d'.requested = d.requested) {gone : CallId}
    (hcalls : d'.calls = d.calls.filter (·.1 != gone)) : Awaits call count d' := by
  refine a.of_calls (Nat.le_of_eq hrequested.symm) fun other target hmem => .inl ?_
  rw [hcalls] at hmem
  exact (List.mem_filter.mp hmem).1

/-- Every event keeps it. -/
theorem effect (a : Awaits call count d) (e : Effect d event reply d') : Awaits call count d' := by
  cases e with
  | queued => exact a.of_same (Nat.le_succ _) rfl
  | folded => exact a.of_same (Nat.le_succ _) rfl
  | missed => exact a.of_same (Nat.le_succ _) rfl
  | awaiting =>
    refine a.of_calls (Nat.le_refl _) fun other target hmem => ?_
    rcases List.mem_append.mp hmem with hmem | hmem
    · exact .inl hmem
    · cases List.mem_singleton.mp hmem
      exact .inr rfl
  | stopping _ _ hwaiting =>
    refine a.of_calls (Nat.le_refl _) fun other target hmem => .inl ?_
    rcases List.mem_append.mp hmem with hmem | hmem
    · exact hmem
    · cases List.mem_singleton.mp hmem
      rcases hwaiting with ⟨-, hwaiting⟩ | ⟨-, hwaiting⟩ <;> cases hwaiting
  | settled => exact a.of_filter rfl rfl
  | unsettled => exact a.of_filter rfl rfl
  | stopSent =>
    refine a.of_calls (Nat.le_refl _) fun other target hmem => .inl ?_
    obtain ⟨c, hc, heq⟩ := List.mem_map.mp hmem
    split at heq
    · cases heq
    · rw [← heq]
      exact hc
  | stopRefused => exact a.of_filter rfl rfl
  | stopAnswered => exact a.of_filter rfl rfl
  | cancelled => exact a.of_filter rfl rfl
  | _ => exact a.of_same (Nat.le_refl _) rfl

end Awaits

/-- A call that begins under a new number waits for all signals so far. -/
theorem Effect.awaits {call : CallId} (e : Effect d (.awaitSolved call) reply d')
    (hnew : d.calls.lookup call = none) : Awaits call d.requested d' := by
  cases e with
  | awaiting =>
    refine ⟨Nat.le_refl _, fun target hmem => ?_⟩
    rcases List.mem_append.mp hmem with hmem | hmem
    · have hne := List.lookup_eq_none_iff.mp hnew _ hmem
      simp at hne
    · cases List.mem_singleton.mp hmem
      exact Nat.le_refl _
  | stopTaken hreceives => cases hreceives
  | forsaken hreceives => cases hreceives

/-- A call returns that the state is solved when as many signals are solved as it waits for. -/
theorem Effect.target_le {call : CallId} (e : Effect d (.resume call) (.settled (.ok ())) d') :
    ∃ target, (call, Waiting.solved target) ∈ d.calls ∧ target ≤ d.solvedThrough := by
  cases e with
  | @settled _ target hlookup hle => exact ⟨target, Channel.mem_of_lookup hlookup, hle⟩

/-! ### Solved signals are covered -/

/-- When nothing is left to be solved, an attempt began after each signal and has returned that the state is solved.
The same is true of each signal before a call that waits for the state to be solved, when the call returns that
it is. -/
theorem solved_after_signal (settings : DaemonSettings) (events : List Event) {early late : List Happening}
    {s : Happening} (hsplit : happenings settings events = early ++ s :: late) (hsignal : s.event = .signal) :
    ((afterEvents settings events).isSolving = false → HasSolved late) ∧
      ∀ first a between r rest call, late = first ++ a :: (between ++ r :: rest) →
        a.event = .awaitSolved call → a.before.calls.lookup call = none →
        r.event = .resume call → r.reply = .settled (.ok ()) → HasSolved (first ++ a :: between) := by
  constructor
  · intro hsolved
    have c := covered settings events
    refine c.solved early s late hsplit hsignal ?_
    have hlt : signalCount early < (afterEvents settings events).requested := by
      rw [← c.requested, hsplit]
      exact signalCount_lt hsignal
    rw [isSolving, decide_eq_false_iff_not] at hsolved
    omega
  · rintro first a between r rest call rfl hawait hnew hresume hreply
    have hbegins : happenings settings events = (early ++ s :: first) ++ a :: (between ++ r :: rest) := by
      rw [hsplit, List.append_assoc, List.cons_append]
    have hreturns : happenings settings events = (early ++ s :: (first ++ a :: between)) ++ r :: rest := by
      rw [hsplit, List.append_assoc, List.cons_append, List.append_assoc, List.cons_append]
    obtain ⟨-, following, -, -, hstep, hafter⟩ := Schedule.split hbegins
    obtain ⟨meanwhile, -, -, hreturn, hstep', -⟩ := Schedule.split hafter
    rw [hawait] at hstep
    rw [hresume, hreply] at hstep'
    -- The call waits for all signals before it, and for no fewer ones when it returns.
    have w : Awaits call a.before.requested r.before := by
      rw [← hreturn]
      exact (Schedule.invariant (I := Awaits call a.before.requested) ((step_effect hstep).awaits hnew)
        (fun d event reply d' w hstep => w.effect (step_effect hstep)) meanwhile).1
    obtain ⟨target, hmem, hle⟩ := (step_effect hstep').target_le
    have htarget := w.le_target target hmem
    have hcount : signalCount early < a.before.requested := by
      rw [← (covered_before hbegins).requested]
      exact signalCount_lt hsignal
    exact (covered_before hreturns).solved early s _ rfl hsignal (by omega)

/-- A schedule with a signal that comes during an attempt which succeeds. The next attempt fails, and the one after
it covers the signal. -/
def lateSignal : List Event :=
  [.signal, .takeCommand, .signal, .awaitSolved 1, .attemptReturns true, .takeCommand, .attemptReturns false,
    .pauseEnds, .attemptReturns true, .resume 1]

theorem solved_after_signal_lateSignal :
    let h := happenings .small lateSignal
    ∃ early s a between r, h = early ++ s :: a :: (between ++ [r]) ∧ s.event = .signal ∧
      signalCount early = 1 ∧ a.event = .awaitSolved 1 ∧ r.reply = .settled (.ok ()) ∧
      (afterEvents .small lateSignal).isSolving = false ∧ HasSolved (a :: (between ++ [r])) ∧
      HasSolved (a :: between) := by
  intro h
  have hsplit : h = h.take 2 ++ h[2] :: h[3] :: ((h.drop 4).take 5 ++ [h[9]]) := rfl
  have hsolved : (afterEvents .small lateSignal).isSolving = false := by decide
  obtain ⟨hall, hcall⟩ := solved_after_signal .small lateSignal hsplit rfl
  exact ⟨_, _, _, _, _, hsplit, rfl, rfl, rfl, rfl, hsolved, hall hsolved,
    hcall [] _ _ _ [] 1 rfl rfl rfl rfl rfl⟩

end Daemon

end Sluice
