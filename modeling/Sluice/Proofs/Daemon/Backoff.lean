import Sluice.Proofs.Daemon.Effect
import Sluice.Scenario.Daemon

/-!
# How many attempts begin without a pause

An attempt that fails is followed by a pause, which a signal ends. The signals that have piled up by then are taken one
by one: each of them ends the pause after the attempt that the one before it has caused. So what bounds the attempts
until the daemon has paused for its full delay (`HasRested`) is the number of the signals in the channel when the
attempt fails, and `rounds_le_of_unrested` says that for every schedule with a clock. The bound is attained without
any time passing. It is one if the channel has room for no more, or if a single signal came during an attempt that
began with none left over; with two signals it is two (`rounds_twoSignals`).

The reason is that every attempt is paid for, with a signal that the task takes out of the channel or with a pause
that has come to its end (`Turnover.paid`).
-/

namespace Sluice

namespace Daemon

variable {d d' : Daemon} {event : Event} {reply : Reply} {capacity : Nat}

/-! ### The signals in the channel -/

/-- How many signals stand before the first request to stop. -/
def ahead (commands : List Command) : Nat := (commands.takeWhile (· == .stateChange)).length

/-- How many signals the task receives before it learns that it has to stop, or that there is nothing more. -/
def signalsAhead (d : Daemon) : Nat := ahead d.commands.messages

theorem ahead_cons_signal (commands : List Command) : ahead (.stateChange :: commands) = ahead commands + 1 := by
  simp [ahead]

theorem ahead_le_length (commands : List Command) : ahead commands ≤ commands.length :=
  (List.takeWhile_prefix _).length_le

/-- A command that comes last adds a signal at most. -/
theorem ahead_concat_le (commands : List Command) (command : Command) :
    ahead (commands ++ [command]) ≤ ahead commands + if command = .stateChange then 1 else 0 := by
  induction commands with
  | nil => cases command <;> simp [ahead]
  | cons first rest ih =>
    cases first with
    | stateChange =>
      rw [List.cons_append, ahead_cons_signal, ahead_cons_signal]
      omega
    | stop call => simp [ahead]

/-- When there are signals ahead, the first command is one of them. -/
theorem exists_of_signalsAhead {count : Nat} (hahead : d.signalsAhead = count + 1) :
    ∃ commands, d.commands.receive = some (.stateChange, commands) ∧ ahead commands.messages = count := by
  rw [signalsAhead] at hahead
  rcases hreceive : d.commands.receive with _ | ⟨command, commands⟩
  · rw [d.commands.receive_eq_none.mp hreceive] at hahead
    cases hahead
  · rw [Channel.messages_of_receive hreceive] at hahead
    cases command with
    | stateChange =>
      rw [ahead_cons_signal] at hahead
      exact ⟨commands, rfl, Nat.succ.inj hahead⟩
    | stop call => simp [ahead] at hahead

/-! ### Every attempt is paid for -/

/-- The channel holds no more than it has room for, and no signal waits for room. -/
structure Stocked (capacity : Nat) (d : Daemon) : Prop where
  capacity_eq : d.commands.capacity = capacity
  length_le : d.commands.messages.length ≤ capacity
  waiting_ne : ∀ w ∈ d.commands.waiting, w.2 ≠ .stateChange

/-- What an event makes of the queued commands and of the number of the attempts. -/
inductive Turnover (d : Daemon) (event : Event) (d' : Daemon) : Prop
  | kept :
      d'.commands.messages = d.commands.messages → d'.rounds = d.rounds + (if event = .pauseEnds then 1 else 0) →
      Turnover d event d'
  | sent {command : Command} :
      (command = .stateChange → event = .signal) → d.commands.messages.length < d.commands.capacity →
      d'.commands.messages = d.commands.messages ++ [command] → d'.rounds = d.rounds → Turnover d event d'
  /-- A signal is taken, or all commands with it, and an attempt begins. -/
  | taken {rest : List Command} :
      d.commands.messages = .stateChange :: rest →
      d'.commands.messages = rest ∨ event = .takeCommand ∧ d'.commands.messages = [] →
      d'.rounds = d.rounds + 1 → Turnover d event d'
  | ended : d'.commands.messages = [] → d'.rounds = d.rounds → Turnover d event d'

/-- What an event makes of the room and of those who wait for it. -/
theorem Effect.line (e : Effect d event reply d') :
    d'.commands.capacity = d.commands.capacity ∧
      ∀ w ∈ d'.commands.waiting, w ∈ d.commands.waiting ∨ w.2 ≠ .stateChange := by
  cases e with
  | queued _ hoffer =>
    cases Channel.offer_spec hoffer with
    | accepted => exact ⟨rfl, fun _ => .inl⟩
  | stopping _ hsend hanswer =>
    cases Channel.send_spec hsend with
    | accepted => exact ⟨rfl, fun _ => .inl⟩
    | full =>
      refine ⟨rfl, fun w hw => ?_⟩
      rcases List.mem_append.mp hw with hw | hw
      · exact .inl hw
      · cases List.mem_singleton.mp hw
        exact .inr nofun
    | closed => simp at hanswer
  | stopSent _ hresume =>
    cases Channel.resume_spec hresume with
    | accepted => exact ⟨rfl, fun w hw => .inl (List.mem_filter.mp hw).1⟩
  | stopRefused _ hresume =>
    cases Channel.resume_spec hresume with
    | closed => exact ⟨rfl, fun w hw => .inl (List.mem_filter.mp hw).1⟩
  | cancelled => exact ⟨rfl, fun w hw => .inl (List.mem_filter.mp hw).1⟩
  | begun _ hreceive =>
    obtain ⟨queue, rfl⟩ := Channel.receive_spec hreceive
    exact ⟨rfl, fun _ => .inl⟩
  | stopTaken _ hreceive =>
    obtain ⟨queue, rfl⟩ := Channel.receive_spec hreceive
    exact ⟨rfl, fun _ => .inl⟩
  | interrupted _ hreceive =>
    obtain ⟨queue, rfl⟩ := Channel.receive_spec hreceive
    exact ⟨rfl, fun _ => .inl⟩
  | _ => exact ⟨rfl, fun _ => .inl⟩

/-- Every event has one of the effects on the queued commands. -/
theorem Effect.turnover (e : Effect d event reply d') (k : Stocked capacity d) : Turnover d event d' := by
  cases e with
  | queued _ hoffer =>
    exact .sent (fun _ => rfl) (Channel.room_of_offer hoffer).2.1 (Channel.messages_of_offer hoffer) rfl
  | stopping _ hsend hanswer =>
    rcases hanswer with ⟨rfl, rfl⟩ | ⟨rfl, rfl⟩
    · cases Channel.send_spec hsend with
      | accepted =>
        have hoffer := Channel.offer_of_send hsend
        have hroom := (Channel.room_of_offer hoffer).2.1
        exact .sent (fun hsignal => by cases hsignal) hroom (Channel.messages_of_offer hoffer) rfl
    · cases Channel.send_spec hsend with
      | full => exact .kept rfl rfl
  | stopSent _ hresume =>
    cases Channel.resume_spec hresume with
    | accepted _ hwaiting hroom =>
      refine .sent (fun hsignal => absurd hsignal (k.waiting_ne _ (Channel.mem_of_lookup hwaiting))) hroom ?_ rfl
      exact Channel.messages_push _ _
  | stopRefused _ hresume =>
    cases Channel.resume_spec hresume with
    | closed => exact .kept rfl rfl
  | cancelled => exact .kept rfl rfl
  | begun _ hreceive => exact .taken (Channel.messages_of_receive hreceive) (.inr ⟨rfl, rfl⟩) rfl
  | stopTaken => exact .ended rfl rfl
  | forsaken => exact .ended rfl rfl
  | solvedLast => exact .ended rfl rfl
  | failedLast => exact .ended rfl rfl
  | interrupted _ hreceive => exact .taken (Channel.messages_of_receive hreceive) (.inl rfl) rfl
  | _ => exact .kept rfl rfl

namespace Turnover

/-- An attempt begins when a pause has come to its end, or it takes a signal. -/
theorem paid (t : Turnover d event d') :
    d'.rounds ≤ d.rounds + (if event = .pauseEnds then 1 else 0) ∧
        d'.signalsAhead ≤ d.signalsAhead + (if event = .signal then 1 else 0) ∨
      d'.rounds = d.rounds + 1 ∧ d'.signalsAhead < d.signalsAhead := by
  rw [signalsAhead, signalsAhead]
  cases t with
  | kept hmessages hrounds =>
    rw [hmessages]
    exact .inl ⟨Nat.le_of_eq hrounds, Nat.le_add_right _ _⟩
  | @sent command hsignal _ hmessages hrounds =>
    have hle := ahead_concat_le d.commands.messages command
    rw [hmessages, hrounds]
    refine .inl ⟨Nat.le_add_right _ _, Nat.le_trans hle (Nat.add_le_add_left ?_ _)⟩
    split
    · next hcommand => exact Nat.le_of_eq (if_pos (hsignal hcommand)).symm
    · exact Nat.zero_le _
  | taken hmessages hrest hrounds =>
    rw [hmessages, ahead_cons_signal]
    refine .inr ⟨hrounds, ?_⟩
    rcases hrest with hrest | ⟨-, hnone⟩
    · rw [hrest]
      exact Nat.lt_succ_self _
    · rw [hnone]
      exact Nat.succ_pos _
  | ended hnone hrounds =>
    rw [hnone, hrounds]
    exact .inl ⟨Nat.le_add_right _ _, Nat.zero_le _⟩

end Turnover

namespace Stocked

theorem start (settings : DaemonSettings) : Stocked settings.capacity (ofSettings settings) :=
  ⟨rfl, Nat.zero_le _, nofun⟩

/-- Every event keeps the invariant. -/
theorem effect (k : Stocked capacity d) (e : Effect d event reply d') : Stocked capacity d' := by
  obtain ⟨hcapacity, hwaiting⟩ := e.line
  refine ⟨hcapacity.trans k.capacity_eq, ?_, fun w hw => (hwaiting w hw).elim (k.waiting_ne w) id⟩
  have hle := k.length_le
  cases e.turnover k with
  | kept hmessages => rwa [hmessages]
  | sent _ hroom hmessages =>
    rw [hmessages, List.length_append, List.length_singleton, ← k.capacity_eq]
    exact hroom
  | taken hmessages hrest =>
    rw [hmessages, List.length_cons] at hle
    rcases hrest with hrest | ⟨-, hnone⟩
    · rw [hrest]
      omega
    · rw [hnone]
      exact Nat.zero_le _
  | ended hnone =>
    rw [hnone]
    exact Nat.zero_le _

end Stocked

end Daemon

/-! ### Daemons on a clock -/

namespace Scenario.DaemonRun

open Daemon

variable {r r' : DaemonRun} {m : Move} {reply : Reply} {settings : DaemonSettings} {capacity : Nat}

/-- What can happen to a daemon on a clock. -/
inductive Move where
  | event (event : Event)
  /-- A millisecond passes. -/
  | tick
  deriving DecidableEq, Repr

/-- What a move does, if it can be made. A pause is not over before its time has come. -/
def move (r : DaemonRun) : Move → Option (Reply × DaemonRun)
  | .event event => if event = .pauseEnds ∧ r.clock < r.wakeAt then none else r.occur event
  | .tick => some (.quiet, { r with clock := r.clock + 1 })

/-- An idle daemon, at the beginning of time. What its attempts return is up to the moves. -/
def ofSettings (settings : DaemonSettings) : DaemonRun where
  daemon := .ofSettings settings
  retryDelay := settings.retryDelay
  script := []
  usual := ⟨0, false⟩

/-- A move that was made. -/
abbrev Moment : Type := Occurrence DaemonRun Move Reply

/-- What happens to a new daemon in a schedule with a clock. -/
def moments (settings : DaemonSettings) (moves : List Move) : List Moment :=
  Schedule.occurrences move (ofSettings settings) moves

/-- A new daemon after a schedule with a clock. -/
def afterMoves (settings : DaemonSettings) (moves : List Move) : DaemonRun :=
  Schedule.after move (ofSettings settings) moves

/-- The daemon pauses, and it has done so for its full delay. -/
def HasRested (r : DaemonRun) : Prop := r.isPausing = true ∧ r.wakeAt ≤ r.clock

instance (r : DaemonRun) : Decidable r.HasRested := inferInstanceAs (Decidable (_ ∧ _))

/-- How many signals there were. -/
def signals (h : List Moment) : Nat := h.countP (·.event == .event .signal)

theorem signals_snoc (h : List Moment) (r : DaemonRun) (m : Move) (reply : Reply) (r' : DaemonRun) :
    signals (h ++ [⟨r, m, reply, r'⟩]) = signals h + if m = .event .signal then 1 else 0 := by
  simp [signals, List.countP_append, List.countP_singleton]

/-! ### What a move does -/

section

variable (d : Daemon) (r : DaemonRun)

@[simp]
theorem daemon_arm : (arm d r).daemon = r.daemon := by
  unfold arm
  split <;> [rfl; split <;> rfl]

@[simp]
theorem clock_arm : (arm d r).clock = r.clock := by
  unfold arm
  split <;> [rfl; split <;> rfl]

@[simp]
theorem retryDelay_arm : (arm d r).retryDelay = r.retryDelay := by
  unfold arm
  split <;> [rfl; split <;> rfl]

end

/-- A move is an event at the present instant, or lets a millisecond pass. -/
theorem move_cases (hmove : r.move m = some (reply, r')) :
    (∃ event, m = .event event ∧ Effect r.daemon event reply r'.daemon ∧
      r' = arm r.daemon { r with daemon := r'.daemon } ∧ (event = .pauseEnds → r.HasRested)) ∨
    m = .tick ∧ r' = { r with clock := r.clock + 1 } := by
  cases m with
  | tick =>
    cases hmove
    exact .inr ⟨rfl, rfl⟩
  | event event =>
    rw [move] at hmove
    split at hmove
    · cases hmove
    · next hready =>
      obtain ⟨⟨answer, d⟩, hstep, heq⟩ := Option.map_eq_some_iff.mp hmove
      cases heq
      have e := step_effect hstep
      refine .inl ⟨event, rfl, by rwa [daemon_arm], by rw [daemon_arm], ?_⟩
      rintro rfl
      cases e with
      | retried hpausing =>
        exact ⟨by simp [isPausing, hpausing], Nat.le_of_not_lt fun hlt => hready ⟨rfl, hlt⟩⟩
      | stopTaken hreceives => cases hreceives
      | forsaken hreceives => cases hreceives

theorem retryDelay_move (hmove : r.move m = some (reply, r')) : r'.retryDelay = r.retryDelay := by
  rcases move_cases hmove with ⟨-, -, -, harm, -⟩ | ⟨-, rfl⟩
  · rw [harm, retryDelay_arm]
  · rfl

/-- A pause begins, and its end is a full delay away. -/
theorem move_failed {target : Nat} (hsolving : r.daemon.phase = .solving target none) :
    r.move (.event (.attemptReturns false)) = some (.quiet,
      { r with
        daemon := { r.daemon with phase := .pausing target }
        wakeAt := wakeTime r.clock r.retryDelay }) := by
  simp [move, occur, step, hsolving, arm]

/-- An attempt that fails leads to a pause of the full delay, or is the last one. -/
theorem pauses_of_failed (hmove : r.move (.event (.attemptReturns false)) = some (reply, r')) :
    (∃ target, r'.daemon.phase = .pausing target ∧ r'.wakeAt = wakeTime r'.clock r'.retryDelay) ∨
      r'.daemon.commands.messages = [] := by
  rcases move_cases hmove with ⟨event, heq, e, -⟩ | ⟨hnot, -⟩
  · cases heq
    generalize hdaemon : r'.daemon = d at e
    cases e with
    | failed hsolving =>
      rw [move_failed hsolving] at hmove
      cases hmove
      exact .inl ⟨_, rfl, rfl⟩
    | failedLast => exact .inr rfl
    | stopTaken hreceives => cases hreceives
    | forsaken hreceives => cases hreceives
  · cases hnot

/-- A daemon that is as its settings want it, with no more commands than its channel has room for. -/
structure Supplied (settings : DaemonSettings) (r : DaemonRun) : Prop where
  stocked : Stocked settings.capacity r.daemon
  delay_eq : r.retryDelay = settings.retryDelay

theorem Supplied.next (k : Supplied settings r) (hmove : r.move m = some (reply, r')) : Supplied settings r' := by
  refine ⟨?_, (retryDelay_move hmove).trans k.delay_eq⟩
  rcases move_cases hmove with ⟨event, -, e, -⟩ | ⟨-, rfl⟩
  · exact k.stocked.effect e
  · exact k.stocked

/-- It is so before every move of a schedule. -/
theorem supplied_before {moves : List Move} {early late : List Moment} {s : Moment}
    (hsplit : moments settings moves = early ++ s :: late) : Supplied settings s.before := by
  obtain ⟨first, -, -, hbefore, -, -⟩ := Schedule.split hsplit
  rw [← hbefore]
  exact (Schedule.invariant (I := Supplied settings) ⟨Stocked.start settings, rfl⟩
    (fun _ _ _ _ k hmove => k.next hmove) first).1

/-! ### Every attempt is paid for, on the clock -/

theorem move_paid (k : Stocked capacity r.daemon) (hmove : r.move m = some (reply, r')) :
    Stocked capacity r'.daemon ∧
      r'.daemon.signalsAhead ≤ r.daemon.signalsAhead + (if m = .event .signal then 1 else 0) ∧
      (¬ r.HasRested → r'.daemon.rounds + r'.daemon.signalsAhead ≤
        r.daemon.rounds + r.daemon.signalsAhead + if m = .event .signal then 1 else 0) := by
  rcases move_cases hmove with ⟨event, rfl, e, -, hready⟩ | ⟨rfl, rfl⟩
  · have hpaid := (e.turnover k).paid
    refine ⟨k.effect e, ?_, fun hrested => ?_⟩
    · simp only [Move.event.injEq]
      omega
    · have hnot : event ≠ .pauseEnds := fun hends => hrested (hready hends)
      rw [if_neg hnot] at hpaid
      simp only [Move.event.injEq]
      omega
  · exact ⟨k, Nat.le_add_right _ _, fun _ => Nat.le_add_right _ _⟩

/-- In any schedule the signals in the channel do not become more, but for those that come; and as long as no pause
has come to its end, an attempt takes one of them. -/
theorem paid (k : Stocked capacity r.daemon) (moves : List Move) :
    let h := Schedule.occurrences move r moves
    let q := Schedule.after move r moves
    Stocked capacity q.daemon ∧ q.daemon.signalsAhead ≤ r.daemon.signalsAhead + signals h ∧
      ((∀ o ∈ h, ¬ o.before.HasRested) →
        q.daemon.rounds + q.daemon.signalsAhead ≤ r.daemon.rounds + r.daemon.signalsAhead + signals h) := by
  refine Schedule.induction (P := fun h q => Stocked capacity q.daemon ∧
    q.daemon.signalsAhead ≤ r.daemon.signalsAhead + signals h ∧
      ((∀ o ∈ h, ¬ o.before.HasRested) →
        q.daemon.rounds + q.daemon.signalsAhead ≤ r.daemon.rounds + r.daemon.signalsAhead + signals h))
    ⟨k, Nat.le_refl _, fun _ => Nat.le_refl _⟩ ?_ moves
  rintro h q m reply q' ⟨k, hahead, hrounds⟩ hmove
  obtain ⟨k', hahead', hrounds'⟩ := move_paid k hmove
  rw [signals_snoc]
  refine ⟨k', by omega, fun hunrested => ?_⟩
  have hbefore := hrounds fun o ho => hunrested o (List.mem_append_left _ ho)
  have hnext := hrounds' (hunrested _ (List.mem_append_right _ List.mem_cons_self))
  omega

/-! ### The bound is attained -/

/-- Signals end pauses, and the attempts that they cause fail. -/
def retries : Nat → List Move
  | 0 => []
  | count + 1 => .event .pauseInterrupted :: .event (.attemptReturns false) :: retries count

/-- A signal in the channel ends a pause, and the attempt that it causes fails at once. -/
theorem retry {target : Nat} {commands : Channel Command} (hpausing : r.daemon.phase = .pausing target)
    (hreceive : r.daemon.commands.receive = some (.stateChange, commands)) :
    ∃ r₁ r₂, r.move (.event .pauseInterrupted) = some (.quiet, r₁) ∧
      r₁.move (.event (.attemptReturns false)) = some (.quiet, r₂) ∧ ¬ r₁.HasRested ∧
      r₂.daemon.phase = .pausing r.daemon.requested ∧ r₂.daemon.commands = commands ∧
      r₂.daemon.rounds = r.daemon.rounds + 1 ∧ r₂.clock = r.clock ∧ r₂.retryDelay = r.retryDelay ∧
      r₂.wakeAt = wakeTime r₂.clock r₂.retryDelay := by
  let r₁ := arm r.daemon { r with daemon := ({ r.daemon with commands } : Daemon).attempt r.daemon.requested none }
  have hfirst : r.move (.event .pauseInterrupted) = some (.quiet, r₁) := by
    simp [move, occur, step, hpausing, hreceive, r₁]
  have hdaemon : r₁.daemon = ({ r.daemon with commands } : Daemon).attempt r.daemon.requested none := daemon_arm _ _
  have hsolving : r₁.daemon.phase = .solving r.daemon.requested none := by rw [hdaemon]; rfl
  refine ⟨r₁, _, hfirst, move_failed hsolving, ?_, rfl, ?_, ?_, clock_arm _ _, retryDelay_arm _ _, rfl⟩
  · rintro ⟨hpauses, -⟩
    simp [isPausing, hsolving] at hpauses
  · show r₁.daemon.commands = commands
    rw [hdaemon]
    rfl
  · show r₁.daemon.rounds = r.daemon.rounds + 1
    rw [hdaemon]
    rfl

/-- Each signal in the channel causes an attempt of its own, at once. -/
theorem rounds_retries {target : Nat} (hdelay : 0 < r.retryDelay) (hpausing : r.daemon.phase = .pausing target)
    (hawake : r.clock < r.wakeAt) (count : Nat) (hcount : r.daemon.signalsAhead = count) :
    (∀ o ∈ Schedule.occurrences move r (retries count), ¬ o.before.HasRested) ∧
      (Schedule.after move r (retries count)).daemon.rounds = r.daemon.rounds + count ∧
      (Schedule.after move r (retries count)).clock = r.clock := by
  induction count generalizing r target with
  | zero => exact ⟨fun o ho => absurd ho List.not_mem_nil, rfl, rfl⟩
  | succ count ih =>
    obtain ⟨commands, hreceive, hahead⟩ := exists_of_signalsAhead hcount
    obtain ⟨r₁, r₂, hfirst, hsecond, hbusy, hphase, hcommands, hrounds, hclock, hsame, hwake⟩ :=
      retry hpausing hreceive
    have hawake' : r₂.clock < r₂.wakeAt := by
      rw [hwake, wakeTime, hsame, longestSleep]
      omega
    have hahead' : r₂.daemon.signalsAhead = count := by rw [signalsAhead, hcommands, hahead]
    obtain ⟨hunrested, hafter, hnow⟩ := ih (hsame.symm ▸ hdelay) hphase hawake' hahead'
    simp only [retries, Schedule.occurrences, Schedule.after, hfirst, hsecond]
    refine ⟨fun o ho => ?_, by omega, hnow.trans hclock⟩
    rcases List.mem_cons.mp ho with rfl | ho
    · exact fun hrested => Nat.not_lt_of_le hrested.2 hawake
    · rcases List.mem_cons.mp ho with rfl | ho
      · exact hbusy
      · exact hunrested o ho

/-! ### Attempts before the end of a pause -/

/-- The task has received the signals that were there when a round begins. -/
theorem signalsAhead_of_takeCommand (hmove : r.move (.event .takeCommand) = some (reply, r')) :
    r'.daemon.signalsAhead = 0 := by
  rcases move_cases hmove with ⟨event, heq, e, -⟩ | ⟨hnot, -⟩
  · cases heq
    generalize r'.daemon = d at e
    cases e <;> rfl
  · cases hnot

/-- After an attempt that fails, and as long as no further signal comes and no pause of the full delay has passed,
there are no more attempts than signals in the channel. These are no more than the channel has room for, and no more
than have come since any earlier moment and were there then; a round begins with none. So many attempts can begin
without any time passing. -/
theorem rounds_le_of_unrested (settings : DaemonSettings) (moves : List Move) {early late : List Moment} {s : Moment}
    (hsplit : moments settings moves = early ++ s :: late) (hfailed : s.event = .event (.attemptReturns false))
    (hunrested : ∀ o ∈ late, o.event ≠ .event .signal ∧ ¬ o.before.HasRested) :
    (afterMoves settings moves).daemon.rounds ≤ s.after.daemon.rounds + s.after.daemon.signalsAhead ∧
      s.after.daemon.signalsAhead ≤ settings.capacity ∧
      (∀ first b during, early = first ++ b :: during →
        s.after.daemon.signalsAhead ≤ b.after.daemon.signalsAhead + signals during ∧
        (b.event = .event .takeCommand → b.after.daemon.signalsAhead = 0)) ∧
      (0 < settings.retryDelay → let more := retries s.after.daemon.signalsAhead
        (∀ o ∈ Schedule.occurrences move s.after more, ¬ o.before.HasRested) ∧
        (Schedule.after move s.after more).daemon.rounds = s.after.daemon.rounds + s.after.daemon.signalsAhead ∧
        (Schedule.after move s.after more).clock = s.after.clock) := by
  obtain ⟨before, rest, hearly, hstate, hmove, hlate, hend⟩ := Schedule.split_after hsplit
  have k := supplied_before hsplit
  have k' := k.next hmove
  rw [hfailed] at hmove
  refine ⟨?_, ?_, fun first b during hbetween => ?_, fun hdelay => ?_⟩
  · obtain ⟨-, -, hrounds⟩ := paid k'.stocked rest
    rw [hlate, hend] at hrounds
    have hnone : signals late = 0 := by
      refine List.countP_eq_zero.mpr fun o ho => ?_
      simpa using (hunrested o ho).1
    have := hrounds fun o ho => (hunrested o ho).2
    rw [hnone] at this
    exact Nat.le_trans (Nat.le_add_right _ _) this
  · exact Nat.le_trans (ahead_le_length _) k'.stocked.length_le
  · obtain ⟨-, between, -, -, hbegins, hduring, hlast⟩ := Schedule.split_after (hearly.trans hbetween)
    have kb := (supplied_before (hearly.trans hbetween)).next hbegins
    obtain ⟨-, hahead, -⟩ := paid kb.stocked between
    rw [hduring, hlast, hstate] at hahead
    refine ⟨Nat.le_trans (move_paid k.stocked hmove).2.1 hahead, fun htakes => ?_⟩
    rw [htakes] at hbegins
    exact signalsAhead_of_takeCommand hbegins
  · rcases pauses_of_failed hmove with ⟨target, hpausing, hwake⟩ | hnone
    · have hdelay' : 0 < s.after.retryDelay := by
        rw [k'.delay_eq]
        exact hdelay
      refine rounds_retries hdelay' hpausing ?_ _ rfl
      rw [hwake, wakeTime, longestSleep]
      omega
    · have hahead : s.after.daemon.signalsAhead = 0 := by rw [signalsAhead, hnone]; rfl
      rw [hahead]
      exact ⟨fun o ho => absurd ho List.not_mem_nil, rfl, rfl⟩

/-- A schedule with one signal during an attempt that fails. The attempt that it causes fails as well. -/
def oneSignal : List Move :=
  [.event .signal, .event .takeCommand, .event .signal, .event (.attemptReturns false)] ++ retries 1 ++ [.tick]

theorem rounds_le_of_unrested_oneSignal :
    let h := moments ⟨100, 4⟩ oneSignal
    ∃ early s late, h = early ++ s :: late ∧ s.event = .event (.attemptReturns false) ∧
      (∀ o ∈ late, o.event ≠ .event .signal ∧ ¬ o.before.HasRested) ∧
      (afterMoves ⟨100, 4⟩ oneSignal).daemon.rounds ≤ s.after.daemon.rounds + 1 := by
  intro h
  have hsplit : h = h.take 3 ++ h[3] :: h.drop 4 := rfl
  have hunrested : ∀ o ∈ h.drop 4, o.event ≠ .event .signal ∧ ¬ o.before.HasRested := by decide
  obtain ⟨hrounds, -⟩ := rounds_le_of_unrested ⟨100, 4⟩ oneSignal hsplit rfl hunrested
  exact ⟨_, _, _, hsplit, rfl, hunrested, hrounds⟩

/-- A schedule with two signals during an attempt that fails, and so do the attempts that they cause. -/
def twoSignals : List Move :=
  [.event .signal, .event .takeCommand, .tick, .event .signal, .event .signal, .event (.attemptReturns false)] ++
    retries 2

/-- Signals that came during one attempt can cause more than one attempt, although the daemon has not paused. -/
theorem rounds_twoSignals :
    let h := moments ⟨100, 4⟩ twoSignals
    ∃ early s late, h = early ++ s :: late ∧ s.event = .event (.attemptReturns false) ∧
      (∀ o ∈ late, o.event ≠ .event .signal ∧ ¬ o.before.HasRested) ∧
      (afterMoves ⟨100, 4⟩ twoSignals).daemon.rounds = s.after.daemon.rounds + 2 ∧
      (afterMoves ⟨100, 4⟩ twoSignals).clock = s.after.clock := by
  intro h
  have hsplit : h = h.take 5 ++ h[5] :: h.drop 6 := rfl
  exact ⟨_, _, _, hsplit, rfl, by decide, by decide, by decide⟩

end Scenario.DaemonRun

end Sluice
