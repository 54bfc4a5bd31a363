import Sluice.Proofs.Timer.Stopping

/-!
# A timer wakes its action on time

A history of a timer tells when the countdown was last started anew, and with which period (`lastRestart`): when the
timer was set up, when a wake-up was over, or when the task took a reset or a new period. `wakes_on_time` says, for
every schedule, that each wake-up begins at the first instant of the clock that is not before the end of that
countdown, and when all earlier ones are over; that a timer which waits with no command queued does wake its action
then, if nothing happens but that time passes; and that nothing of this happens any more once a call has returned from
a stop or the action has ended the timer.

The invariant is `Timed`. Time does not pass while a deadline has come, so the clock never goes beyond the first
instant that is not before it; and when the deadline has come, the clock is not before that instant either.
-/

namespace Sluice

namespace Timer

variable {t t' : Timer} {event : Event} {reply : Reply} {period : Nat} {h : List Happening} {s : Happening}

/-! ### What a history tells -/

/-- The period with which the countdown starts anew at an event, if it does and the one in force is known. -/
def restart? (present : Nat) (s : Happening) : Option Nat :=
  match s.event with
  | .woken outcome => outcome.period? present
  | .takeCommand => s.before.commands.messages.head?.bind (·.period? present)
  | _ => none

/-- A start of the countdown: the instant in milliseconds, and the period in nanoseconds that is in force from then
on. -/
structure Restart where
  instant : Nat
  period : Nat

/-- The end of the countdown, in nanoseconds. -/
def Restart.deadline (r : Restart) : Nat := inNanos r.instant + r.period

/-- The last start of the countdown of a timer that was set up with a period. -/
def lastRestart (period : Nat) (h : List Happening) : Restart :=
  h.foldl (fun last s =>
    match restart? last.period s with
    | some period => ⟨s.before.now, period⟩
    | none => last) ⟨0, period⟩

/-- A wake-up is over. -/
def Event.isReturn : Event → Bool
  | .woken _ => true
  | _ => false

/-- How many wake-ups began. -/
def wakings (h : List Happening) : Nat := h.countP (·.event == .wake)

/-- How many wake-ups are over. -/
def wakingsOver (h : List Happening) : Nat := h.countP (·.event.isReturn)

theorem lastRestart_snoc (period : Nat) (h : List Happening) (s : Happening) :
    lastRestart period (h ++ [s]) =
      match restart? (lastRestart period h).period s with
      | some next => ⟨s.before.now, next⟩
      | none => lastRestart period h := by
  rw [lastRestart, List.foldl_append]
  rfl

theorem wakings_snoc (h : List Happening) (s : Happening) :
    wakings (h ++ [s]) = wakings h + if s.event == .wake then 1 else 0 := by
  rw [wakings, List.countP_append, List.countP_singleton]
  rfl

theorem wakingsOver_snoc (h : List Happening) (s : Happening) :
    wakingsOver (h ++ [s]) = wakingsOver h + if s.event.isReturn then 1 else 0 := by
  rw [wakingsOver, List.countP_append, List.countP_singleton]
  rfl

/-! ### The invariant -/

/-- What a timer knows of its countdown and of its wake-ups is what the history tells. -/
structure Timed (period : Nat) (h : List Happening) (t : Timer) : Prop where
  period_eq : t.period = (lastRestart period h).period
  deadline_eq : ∀ deadline, t.phase = .waiting deadline → deadline = (lastRestart period h).deadline
  now_le : ∀ deadline, t.phase = .waiting deadline → t.now ≤ firstInstant deadline
  wakings_eq : wakings h = wakingsOver h + if t.phase = .waking then 1 else 0
  wakeUps_eq : t.wakeUps = wakings h

/-- An event that neither begins nor ends a wake-up, and does not start the countdown anew. -/
structure Passive (period : Nat) (h : List Happening) (s : Happening) : Prop where
  ne_wake : (s.event == .wake) = false
  not_return : s.event.isReturn = false
  restart_eq : restart? (lastRestart period h).period s = none

namespace Timed

theorem start (period : Nat) : Timed period [] (ofNanos period) where
  period_eq := rfl
  deadline_eq deadline hwaiting := by
    cases hwaiting
    show period = inNanos 0 + period
    rw [inNanos, Nat.zero_mul, Nat.zero_add]
  now_le _ _ := Nat.zero_le _
  wakings_eq := rfl
  wakeUps_eq := rfl

/-- The task waits on for the same, or it ends. -/
theorem passive (c : Timed period h t) (p : Passive period h s) (hperiod : t'.period = t.period)
    (hwakeUps : t'.wakeUps = t.wakeUps) (hphase : t'.phase = t.phase ∨ t'.phase = .ended ∧ t.phase ≠ .waking)
    (hnow : ∀ deadline, t.phase = .waiting deadline → t'.now ≤ firstInstant deadline) :
    Timed period (h ++ [s]) t' := by
  have hlast : lastRestart period (h ++ [s]) = lastRestart period h := by rw [lastRestart_snoc, p.restart_eq]
  have hwakings : wakings (h ++ [s]) = wakings h := by rw [wakings_snoc, p.ne_wake]; rfl
  have hover : wakingsOver (h ++ [s]) = wakingsOver h := by rw [wakingsOver_snoc, p.not_return]; rfl
  have hcounts := c.wakings_eq
  constructor
  · rw [hlast, hperiod]
    exact c.period_eq
  · intro deadline hwaiting
    rw [hlast]
    rcases hphase with hphase | ⟨hphase, -⟩
    · exact c.deadline_eq deadline (hphase.symm.trans hwaiting)
    · cases hphase.symm.trans hwaiting
  · intro deadline hwaiting
    rcases hphase with hphase | ⟨hphase, -⟩
    · exact hnow deadline (hphase.symm.trans hwaiting)
    · cases hphase.symm.trans hwaiting
  · rw [hwakings, hover]
    rcases hphase with hphase | ⟨hphase, hnot⟩
    · rw [hphase]
      exact hcounts
    · rw [if_neg hnot] at hcounts
      rw [hphase]
      exact hcounts
  · rw [hwakings, hwakeUps]
    exact c.wakeUps_eq

/-- The countdown starts anew. -/
theorem restart (c : Timed period h t) {next : Nat} (hbefore : s.before = t) (hwake : (s.event == .wake) = false)
    (hover : s.event.isReturn = decide (t.phase = .waking)) (hrestart : restart? t.period s = some next)
    (commands : Channel Command) : Timed period (h ++ [s]) ({ t with commands, period := next } : Timer).restart := by
  have hlast : lastRestart period (h ++ [s]) = ⟨t.now, next⟩ := by
    rw [lastRestart_snoc, ← c.period_eq, hrestart, hbefore]
  have hwakings : wakings (h ++ [s]) = wakings h := by rw [wakings_snoc, hwake]; rfl
  have hcounts := c.wakings_eq
  constructor
  · rw [hlast]
    rfl
  · intro deadline hwaiting
    cases hwaiting
    rw [hlast]
    rfl
  · intro deadline hwaiting
    cases hwaiting
    show t.now ≤ firstInstant (inNanos t.now + next)
    rw [firstInstant, inNanos]
    omega
  · rw [hwakings, wakingsOver_snoc, hover]
    show wakings h = wakingsOver h + (if decide (t.phase = .waking) = true then 1 else 0) + 0
    rw [hcounts]
    simp
  · rw [hwakings]
    exact c.wakeUps_eq

/-- A wake-up begins. -/
theorem wake (c : Timed period h t) {deadline : Nat} (hwaiting : t.phase = .waiting deadline) :
    Timed period (h ++ [⟨t, .wake, reply, t'⟩]) { t with phase := .waking, wakeUps := t.wakeUps + 1 } := by
  have hlast : lastRestart period (h ++ [⟨t, .wake, reply, t'⟩]) = lastRestart period h := by
    rw [lastRestart_snoc]
    rfl
  have hcounts := c.wakings_eq
  rw [if_neg (by rw [hwaiting]; nofun)] at hcounts
  constructor
  · rw [hlast]
    exact c.period_eq
  · nofun
  · nofun
  · rw [wakings_snoc, wakingsOver_snoc]
    show wakings h + 1 = wakingsOver h + 0 + 1
    rw [hcounts]
  · rw [wakings_snoc]
    exact congrArg (· + 1) c.wakeUps_eq

/-- A wake-up is over, and the action ends the timer. -/
theorem last (c : Timed period h t) (hwaking : t.phase = .waking) :
    Timed period (h ++ [⟨t, .woken .stop, reply, t'⟩]) t.finish := by
  have hlast : lastRestart period (h ++ [⟨t, .woken .stop, reply, t'⟩]) = lastRestart period h := by
    rw [lastRestart_snoc]
    rfl
  have hcounts := c.wakings_eq
  rw [if_pos hwaking] at hcounts
  constructor
  · rw [hlast]
    exact c.period_eq
  · nofun
  · nofun
  · rw [wakings_snoc, wakingsOver_snoc]
    exact hcounts
  · rw [wakings_snoc]
    exact c.wakeUps_eq

/-- Time does not pass when a deadline has come. -/
theorem not_due (hsettled : t.isSettled = true) {deadline : Nat} (hwaiting : t.phase = .waiting deadline) :
    ¬ deadline ≤ inNanos t.now := by
  rw [isSettled, isDue, hwaiting] at hsettled
  simp only [Bool.and_eq_true] at hsettled
  simpa using hsettled.1.1

/-- Every event keeps the invariant. -/
theorem effect (c : Timed period h t) (e : Effect t event reply t') :
    Timed period (h ++ [⟨t, event, reply, t'⟩]) t' := by
  have by_call (hevent : Passive period h ⟨t, event, reply, t'⟩) (hperiod : t'.period = t.period)
      (hwakeUps : t'.wakeUps = t.wakeUps) (hphase : t'.phase = t.phase) (hnow : t'.now = t.now) :
      Timed period (h ++ [⟨t, event, reply, t'⟩]) t' :=
    c.passive hevent hperiod hwakeUps (.inl hphase) fun deadline hwaiting => hnow ▸ c.now_le deadline hwaiting
  have of_sends {call : CallId} {command : Command} (hsends : Sends call event command) :
      Passive period h ⟨t, event, reply, t'⟩ := by
    cases hsends with
    | reset => exact ⟨rfl, rfl, rfl⟩
    | setPeriod => exact ⟨rfl, rfl, rfl⟩
  cases e with
  | sent _ hsends => exact by_call (of_sends hsends) rfl rfl rfl rfl
  | sendWaits _ hsends => exact by_call (of_sends hsends) rfl rfl rfl rfl
  | sendMissed _ hsends => exact by_call (of_sends hsends) rfl rfl rfl rfl
  | stopping => exact by_call ⟨rfl, rfl, rfl⟩ rfl rfl rfl rfl
  | stopMissed => exact by_call ⟨rfl, rfl, rfl⟩ rfl rfl rfl rfl
  | lateSent => exact by_call ⟨rfl, rfl, rfl⟩ rfl rfl rfl rfl
  | lateMissed => exact by_call ⟨rfl, rfl, rfl⟩ rfl rfl rfl rfl
  | stopSent => exact by_call ⟨rfl, rfl, rfl⟩ rfl rfl rfl rfl
  | stopRefused => exact by_call ⟨rfl, rfl, rfl⟩ rfl rfl rfl rfl
  | stopAnswered => exact by_call ⟨rfl, rfl, rfl⟩ rfl rfl rfl rfl
  | cancelled => exact by_call ⟨rfl, rfl, rfl⟩ rfl rfl rfl rfl
  | copied => exact by_call ⟨rfl, rfl, rfl⟩ rfl rfl rfl rfl
  | released => exact by_call ⟨rfl, rfl, rfl⟩ rfl rfl rfl rfl
  | woke hwaiting => exact c.wake hwaiting
  | returned hwaking hperiod =>
    refine c.restart (s := ⟨t, .woken _, .quiet, _⟩) rfl rfl ?_ hperiod t.commands
    rw [hwaking]
    rfl
  | returnedLast hwaking => exact c.last hwaking
  | restarted hwaiting hreceive hperiod =>
    refine c.restart rfl rfl ?_ ?_ _
    · rw [hwaiting]
      rfl
    · show t.commands.messages.head?.bind _ = _
      rw [Channel.messages_of_receive hreceive]
      exact hperiod
  | stopTaken hwaiting hreceive =>
    refine c.passive ⟨rfl, rfl, ?_⟩ rfl rfl (.inr ⟨rfl, by rw [hwaiting]; nofun⟩) c.now_le
    show t.commands.messages.head?.bind _ = _
    rw [Channel.messages_of_receive hreceive]
    rfl
  | forsaken hwaiting hmessages =>
    refine c.passive ⟨rfl, rfl, ?_⟩ rfl rfl (.inr ⟨rfl, by rw [hwaiting]; nofun⟩) c.now_le
    show t.commands.messages.head?.bind _ = _
    rw [hmessages]
    rfl
  | ticked hsettled =>
    refine c.passive ⟨rfl, rfl, rfl⟩ rfl rfl (.inl rfl) fun deadline hwaiting => ?_
    exact Nat.lt_of_not_le fun hpassed => not_due hsettled hwaiting (firstInstant_le_iff.mp hpassed)

/-- A wake-up begins at the first instant that is not before the end of the countdown, and when no other is under
way. -/
theorem of_wake (c : Timed period h t) (e : Effect t .wake reply t') :
    (lastRestart period h).deadline ≤ inNanos t.now ∧ t.now = firstInstant (lastRestart period h).deadline ∧
      wakings h = wakingsOver h := by
  cases e with
  | woke hwaiting hpassed =>
    obtain rfl := c.deadline_eq _ hwaiting
    refine ⟨hpassed, Nat.le_antisymm (c.now_le _ hwaiting) (firstInstant_le_iff.mpr hpassed), ?_⟩
    have hcounts := c.wakings_eq
    rw [if_neg (by rw [hwaiting]; nofun)] at hcounts
    exact hcounts
  | sent _ hsends => cases hsends
  | sendWaits _ hsends => cases hsends
  | sendMissed _ hsends => cases hsends

end Timed

/-- The invariant holds of every schedule. -/
theorem timed (period : Nat) (events : List Event) :
    Timed period (happenings period events) (afterEvents period events) :=
  Schedule.induction (P := fun h t => Timed period h t) (Timed.start period)
    (fun _ _ _ _ _ c hstep => c.effect (step_effect hstep)) events

/-! ### A timer that nobody disturbs -/

/-- There is nothing to be done but to wait for the deadline: no command is queued, and no call can go on. -/
structure Undisturbed (t : Timer) : Prop where
  messages_eq : t.commands.messages = []
  attended : t.isForsaken = false
  calls_wait : ∀ c ∈ t.calls, t.resumeCall c.1 = none

/-- What a call can do does not depend on the clock. -/
theorem resumeCall_now (t : Timer) (now : Nat) (call : CallId) :
    ({ t with now } : Timer).resumeCall call = (t.resumeCall call).map fun r => (r.1, { r.2 with now }) := by
  rw [resumeCall, resumeCall]
  cases t.calls.lookup call with
  | none => rfl
  | some waiting =>
    cases waiting with
    | room =>
      cases t.commands.resume call with
      | none => rfl
      | some answer => rcases answer with ⟨_ | _ | _, commands⟩ <;> rfl
    | stopRoom =>
      cases t.commands.resume call with
      | none => rfl
      | some answer => rcases answer with ⟨_ | _ | _, commands⟩ <;> rfl
    | answer =>
      show (if t.owesAnswer call then none else _) = _
      cases t.owesAnswer call <;> rfl

namespace Undisturbed

/-- Nothing is to be done at a later instant either. -/
theorem at_instant (u : Undisturbed t) (now : Nat) : Undisturbed { t with now } where
  messages_eq := u.messages_eq
  attended := u.attended
  calls_wait c hc := by rw [resumeCall_now, u.calls_wait c hc, Option.map_none]

/-- Time passes as long as the deadline has not come. -/
theorem isSettled_eq (u : Undisturbed t) {deadline : Nat} (hwaiting : t.phase = .waiting deadline) :
    t.isSettled = !decide (deadline ≤ inNanos t.now) := by
  have hdue : t.isDue = decide (deadline ≤ inNanos t.now) := by rw [isDue, hwaiting]
  have htake : t.takeCommand = none := by
    rw [takeCommand, hwaiting, (Channel.receive_eq_none _).mpr u.messages_eq]
    exact if_neg (Bool.eq_false_iff.mp u.attended)
  have hcalls : (t.calls.all fun c => (t.resumeCall c.1).isNone) = true :=
    List.all_eq_true.mpr fun c hc => by rw [u.calls_wait c hc]; rfl
  rw [isSettled, hdue, htake, hcalls, Bool.and_true]
  exact Bool.and_true _

/-- It waits until the deadline has come, and wakes its action then. -/
theorem wakes (u : Undisturbed t) {deadline : Nat} (hwaiting : t.phase = .waiting deadline)
    (hnow : t.now ≤ firstInstant deadline) (n : Nat) (hn : firstInstant deadline ≤ t.now + n) :
    Schedule.after step t (List.replicate n .tick ++ [.wake]) =
      { t with now := firstInstant deadline, phase := .waking, wakeUps := t.wakeUps + 1 } := by
  induction n generalizing t with
  | zero =>
    have hinstant : t.now = firstInstant deadline := Nat.le_antisymm hnow hn
    have hdue : t.isDue = true := by
      rw [isDue, hwaiting]
      exact decide_eq_true (firstInstant_le_iff.mp hn)
    rw [List.replicate_zero, List.nil_append, Schedule.after, step, if_pos hdue, ← hinstant]
    rfl
  | succ n ih =>
    rw [List.replicate_succ, List.cons_append, Schedule.after, step, u.isSettled_eq hwaiting]
    by_cases hpassed : deadline ≤ inNanos t.now
    · -- The deadline has come, so the clock stands still.
      rw [decide_eq_true hpassed]
      exact ih u hwaiting hnow (Nat.le_trans (firstInstant_le_iff.mpr hpassed) (Nat.le_add_right _ _))
    · have hlater : t.now + 1 ≤ firstInstant deadline :=
        Nat.lt_of_not_le fun hle => hpassed (firstInstant_le_iff.mp hle)
      rw [decide_eq_false hpassed]
      exact ih (u.at_instant (t.now + 1)) hwaiting hlater (by rw [Nat.add_right_comm]; exact hn)

end Undisturbed

/-! ### The schedule of the wake-ups -/

/-- Each wake-up begins when all earlier ones are over, not before the end of the last countdown and at the first
instant that is not before it. When a call has returned from a stop, or the action has ended the timer, no wake-up
begins, no wake-up is counted, and resets and new periods are refused. The timer waits for the end of the last
countdown and never beyond the first instant that is not before it, when it wakes its action unless it is disturbed. -/
theorem wakes_on_time (period : Nat) (events : List Event) :
    (∀ early s late, happenings period events = early ++ s :: late →
      (s.event = .wake →
        (lastRestart period early).deadline ≤ inNanos s.before.now ∧
          s.before.now = firstInstant (lastRestart period early).deadline ∧ wakings early = wakingsOver early) ∧
      (s.reply = .stopped ∨ s.event = .woken .stop →
        ∀ r ∈ late, r.event ≠ .wake ∧ r.after.wakeUps = s.after.wakeUps ∧
          (r.event.isSend = true → r.reply = .sent (.error .shutdown)) ∧ r.reply ≠ .sent (.ok ()))) ∧
    (afterEvents period events).wakeUps = wakings (happenings period events) ∧
    ∀ deadline, (afterEvents period events).phase = .waiting deadline →
      deadline = (lastRestart period (happenings period events)).deadline ∧
      (afterEvents period events).now ≤ firstInstant deadline ∧
      (Undisturbed (afterEvents period events) →
        ∀ n, firstInstant deadline ≤ (afterEvents period events).now + n →
          Schedule.after step (afterEvents period events) (List.replicate n .tick ++ [.wake]) =
            { afterEvents period events with
              now := firstInstant deadline
              phase := .waking
              wakeUps := (afterEvents period events).wakeUps + 1 }) := by
  have c := timed period events
  refine ⟨fun early s late hsplit => ⟨fun hwake => ?_, fun hstops r hr => ?_⟩, c.wakeUps_eq,
    fun deadline hwaiting =>
    ⟨c.deadline_eq deadline hwaiting, c.now_le deadline hwaiting, fun u n hn =>
      u.wakes hwaiting (c.now_le deadline hwaiting) n hn⟩⟩
  · obtain ⟨first, -, rfl, hstate, hstep, -⟩ := Schedule.split hsplit
    have before : Timed period (happenings period first) s.before := hstate ▸ timed period first
    rw [hwake] at hstep
    exact before.of_wake (step_effect hstep)
  · obtain ⟨-, hall⟩ := over_of_stopped hsplit hstops
    obtain ⟨hwakeUps, i⟩ := hall r hr
    exact ⟨i.ne_wake, hwakeUps, i.refused, i.not_sent⟩

/-- A period of a millisecond and a half ends between two instants of the clock. -/
example : (happenings 1500000 [.tick, .wake, .tick, .wake, .woken .stop, .wake]).map (·.event) =
    [.tick, .tick, .wake, .woken .stop] := by
  decide

end Timer

end Sluice
