import Sluice.Proofs.Daemon.Coverage

/-!
# An idle daemon has no signal left

A signal that finds the channel of the commands full is not queued: something that is queued stands for it. And the
task looks at the count of the signals at three points only. `solved_when_idle` says for every schedule that it
misses none: when the task is idle and the channel is vacant, all signals are solved.

The invariant is `Heeded`. The task has a count of signals in view (`inView`), which it will publish in the end if no
command comes. If more signals than these have been counted, the channel is not vacant, so something will make the
task look again. A signal leaves something in the channel, or finds it full; the task that takes a command out of it
has all signals in view at once; and a request to stop that goes from the line into the channel stays there.

A signal takes a full channel for one with a signal in it, and it may be full of a request to stop. What the channel
holds may even be nothing but the room that has been given to such a request. `unheard_signal` is a schedule in which
the task is idle with no command queued, and a signal that was accepted is not solved: not if the request is sent,
which ends the daemon, and not if its call is given up at that very point, which takes the room back, and with it what
stood for the signal. So `solved_when_idle` speaks of the schedules in which no room is wasted like this, and tells
what there is in front of a channel with no message. A call that is given up while it waits for room does no harm.
-/

namespace Sluice

namespace Daemon

variable {d d' : Daemon} {event : Event} {reply : Reply} {capacity : Nat}

/-- How many signals will be solved in the end if no command comes any more. A daemon that is about to end need not
see any other signal. -/
def inView (d : Daemon) : Nat :=
  match d.phase with
  | .idle => d.solvedThrough
  | .solving target none => target
  | .pausing target => target
  | .solving _ (some _) => d.requested
  | .ended => d.requested

/-- A call is given up that has been given room for its request and has not sent it yet. -/
def wastesRoom (s : Happening) : Bool :=
  match s.event with
  | .cancel call =>
    match s.before.commands.resume call with
    | some (.accepted, _) => true
    | _ => false
  | _ => false

/-- There is something in the channel, or in front of it, if the task has not all signals in view. -/
structure Heeded (capacity : Nat) (d : Daemon) : Prop where
  capacity_eq : d.commands.capacity = capacity
  ended : d.commands.closed = true → d.phase = .ended
  notice : d.inView < d.requested → ¬ d.commands.Vacant

namespace Heeded

theorem start (settings : DaemonSettings) : Heeded settings.capacity (ofSettings settings) where
  capacity_eq := rfl
  ended := nofun
  notice hlt := absurd hlt (Nat.lt_irrefl 0)

/-- The task has all signals in view, or has ended. -/
theorem of_view (hcapacity : d.commands.capacity = capacity) (hended : d.commands.closed = true → d.phase = .ended)
    (hview : d.requested ≤ d.inView) : Heeded capacity d :=
  ⟨hcapacity, hended, fun hlt => absurd hlt (Nat.not_lt_of_le hview)⟩

/-- The channel is not touched, and the task has no fewer signals in view than before. -/
theorem of_same (n : Heeded capacity d) (hcommands : d'.commands = d.commands)
    (hended : d.phase = .ended → d'.phase = .ended) (hrequested : d'.requested = d.requested)
    (hview : d.inView ≤ d'.inView) : Heeded capacity d' where
  capacity_eq := by
    rw [hcommands]
    exact n.capacity_eq
  ended hclosed := by
    rw [hcommands] at hclosed
    exact hended (n.ended hclosed)
  notice hlt := by
    rw [hcommands]
    exact n.notice (by omega)

/-- The channel is open, and it is not vacant. -/
theorem of_notice (n : Heeded capacity d) (hcapacity : d'.commands.capacity = d.commands.capacity)
    (hopen : d'.commands.closed = false) (hnotice : ¬ d'.commands.Vacant) : Heeded capacity d' where
  capacity_eq := hcapacity.trans n.capacity_eq
  ended hclosed := by cases hopen.symm.trans hclosed
  notice _ := hnotice

/-- The channel is closed, so the daemon has ended. -/
theorem of_closed (n : Heeded capacity d) (hclosed : d.commands.closed = true)
    (hcapacity : d'.commands.capacity = d.commands.capacity) (hphase : d'.phase = d.phase) :
    Heeded capacity d' := by
  have hended : d'.phase = .ended := hphase.trans (n.ended hclosed)
  refine of_view (hcapacity.trans n.capacity_eq) (fun _ => hended) ?_
  simp [inView, hended]

/-- The daemon ends. -/
theorem of_finish (hcapacity : d.commands.capacity = capacity) : Heeded capacity d.finish :=
  of_view hcapacity (fun _ => rfl) (Nat.le_refl _)

/-- A round begins, with all signals in view. -/
theorem of_attempt (n : Heeded capacity d) {queue : Fifo Command} (hopen : d.commands.closed = false)
    (stopping : Option CallId) :
    Heeded capacity (({ d with commands := { d.commands with queue } } : Daemon).attempt d.requested stopping) := by
  refine of_view n.capacity_eq (fun hclosed => ?_) ?_
  · cases hopen.symm.trans hclosed
  · cases stopping <;> exact Nat.le_refl _

/-- A call is given up that has not been given any room. -/
theorem of_cancel (n : Heeded capacity d) (hcapacity : 0 < capacity) {call : CallId}
    (hkept : wastesRoom ⟨d, .cancel call, reply, d'⟩ = false) :
    Heeded capacity { d.endCall call with commands := d.commands.withdraw call } := by
  cases hclosed : d.commands.closed with
  | true => exact n.of_closed hclosed rfl rfl
  | false =>
    refine ⟨n.capacity_eq, fun hshut => ?_, fun hlt => ?_⟩
    · cases hclosed.symm.trans hshut
    · refine Channel.not_vacant_withdraw hclosed (by rw [n.capacity_eq]; exact hcapacity) (n.notice hlt) ?_
      intro commands hresume
      simp [wastesRoom, hresume] at hkept

/-- Every event keeps it. -/
theorem effect (n : Heeded capacity d) (hcapacity : 0 < capacity) (e : Effect d event reply d')
    (hkept : wastesRoom ⟨d, event, reply, d'⟩ = false) : Heeded capacity d' := by
  have isOpen : d.phase ≠ .ended → d.commands.closed = false := by
    intro hphase
    rw [Bool.eq_false_iff]
    exact fun hclosed => hphase (n.ended hclosed)
  cases e with
  | queued _ hoffer =>
    cases Channel.offer_spec hoffer with
    | accepted hopen => exact n.of_notice rfl hopen (Channel.not_vacant_push _ _)
  | folded _ hopen hfull =>
    refine n.of_notice rfl hopen (Channel.not_vacant_of_full ?_ hfull)
    rw [n.capacity_eq]
    exact hcapacity
  | missed _ hclosed => exact n.of_closed hclosed rfl rfl
  | awaiting => exact n.of_same rfl id rfl (Nat.le_refl _)
  | stopping _ hsend hanswer =>
    cases Channel.send_spec hsend with
    | accepted hopen => exact n.of_notice rfl hopen (Channel.not_vacant_push _ _)
    | full hopen => exact n.of_notice rfl hopen fun hvacant => by simpa using hvacant.waiting_eq
    | closed => rcases hanswer with ⟨hanswer, -⟩ | ⟨hanswer, -⟩ <;> cases hanswer
  | stopMissed => exact n
  | settled => exact n.of_same rfl id rfl (Nat.le_refl _)
  | unsettled => exact n.of_same rfl id rfl (Nat.le_refl _)
  | stopSent _ hresume =>
    cases Channel.resume_spec hresume with
    | accepted hopen => exact n.of_notice rfl hopen (Channel.not_vacant_push _ _)
  | stopRefused _ hresume =>
    cases Channel.resume_spec hresume with
    | closed hclosed => exact n.of_closed hclosed rfl rfl
  | stopAnswered => exact n.of_same rfl id rfl (Nat.le_refl _)
  | cancelled => exact n.of_cancel hcapacity hkept
  | copied => exact n.of_same rfl id rfl (Nat.le_refl _)
  | released => exact n.of_same rfl id rfl (Nat.le_refl _)
  | begun hidle hreceive =>
    obtain ⟨queue, rfl⟩ := Channel.receive_spec hreceive
    exact n.of_attempt (isOpen (by rw [hidle]; nofun)) _
  | stopTaken _ hreceive => exact of_finish ((Channel.capacity_of_receive hreceive).trans n.capacity_eq)
  | forsaken => exact of_finish n.capacity_eq
  | solved hsolving =>
    refine n.of_same rfl (fun hended => ?_) rfl ?_
    · cases hsolving.symm.trans hended
    · rw [inView, hsolving]
      exact Nat.le_max_right _ _
  | failed hsolving =>
    refine n.of_same rfl (fun hended => ?_) rfl ?_
    · cases hsolving.symm.trans hended
    · rw [inView, hsolving]
      exact Nat.le_refl _
  | solvedLast => exact of_finish n.capacity_eq
  | failedLast => exact of_finish n.capacity_eq
  | retried hpausing =>
    refine n.of_same rfl (fun hended => ?_) rfl ?_
    · cases hpausing.symm.trans hended
    · rw [inView, hpausing]
      exact Nat.le_refl _
  | interrupted hpausing hreceive =>
    obtain ⟨queue, rfl⟩ := Channel.receive_spec hreceive
    exact n.of_attempt (isOpen (by rw [hpausing]; nofun)) _

end Heeded

/-- Every schedule keeps it in which no room is wasted. -/
theorem heeded (settings : DaemonSettings) (events : List Event) (hcapacity : 0 < settings.capacity)
    (hkept : ∀ s ∈ happenings settings events, wastesRoom s = false) :
    Heeded settings.capacity (afterEvents settings events) := by
  refine Schedule.induction
    (P := fun h d => (∀ s ∈ h, wastesRoom s = false) → Heeded settings.capacity d)
    (fun _ => Heeded.start settings) ?_ events hkept
  intro h d event reply d' n hstep hkept
  refine (n fun s hs => hkept s (List.mem_append_left _ hs)).effect hcapacity (step_effect hstep) ?_
  exact hkept _ (List.mem_append_right _ List.mem_cons_self)

/-! ### Solved when idle -/

/-- When the task is idle and no command is queued, all signals that were counted are solved, unless a request to stop
has been given room in the channel, and then its call can send it at once. In particular all signals are solved when
no room of the channel is taken or given away. -/
theorem solved_when_idle (settings : DaemonSettings) (hcapacity : 1 ≤ settings.capacity) (events : List Event)
    (hkept : ∀ s ∈ happenings settings events, wastesRoom s = false) :
    let h := happenings settings events
    let d := afterEvents settings events
    d.phase = .idle → d.commands.messages = [] →
      (d.commands.waiting = [] → signalCount h = d.solvedThrough ∧ d.isSolving = false) ∧
      ∀ call command rest, d.commands.waiting = (call, command) :: rest →
        ∃ commands, d.commands.resume call = some (.accepted, commands) := by
  intro h d hidle hmessages
  have n : Heeded settings.capacity d := heeded settings events hcapacity hkept
  have c : Covered h d := covered settings events
  refine ⟨fun hwaiting => ?_, fun call command rest hfirst => ?_⟩
  · have hle := c.solved_le
    have hsolved : d.solvedThrough = d.requested := by
      have hview : d.inView = d.solvedThrough := by rw [inView, hidle]
      rcases Nat.lt_or_ge d.inView d.requested with hlt | hge
      · exact absurd ⟨hmessages, hwaiting⟩ (n.notice hlt)
      · omega
    refine ⟨c.requested.trans hsolved.symm, ?_⟩
    rw [isSolving, hsolved]
    simp
  · refine Channel.resume_first ?_ ?_ hfirst
    · rw [Bool.eq_false_iff]
      intro hclosed
      cases hidle.symm.trans (n.ended hclosed)
    · rw [hmessages, n.capacity_eq]
      exact hcapacity

/-- A schedule with signals that find the channel full and with a request to stop that is given up while it waits for
room. -/
def foldedSignals : List Event :=
  [.signal, .takeCommand, .signal, .requestStop 1, .signal, .attemptReturns false, .cancel 1, .pauseInterrupted,
    .signal, .signal, .attemptReturns true, .takeCommand, .attemptReturns true]

theorem solved_when_idle_foldedSignals :
    let h := happenings ⟨0, 1⟩ foldedSignals
    let d := afterEvents ⟨0, 1⟩ foldedSignals
    (∀ s ∈ h, wastesRoom s = false) ∧ d.phase = .idle ∧ d.commands.messages = [] ∧ d.commands.waiting = [] ∧
      signalCount h = 5 ∧ signalCount h = d.solvedThrough := by
  intro h d
  have hkept : ∀ s ∈ h, wastesRoom s = false := by decide
  have hidle : d.phase = .idle := by decide
  have hmessages : d.commands.messages = [] := by decide
  have hwaiting : d.commands.waiting = [] := by decide
  obtain ⟨hsolved, -⟩ := solved_when_idle ⟨0, 1⟩ (by decide) foldedSignals hkept hidle hmessages
  exact ⟨hkept, hidle, hmessages, hwaiting, by decide, (hsolved hwaiting).1⟩

/-- The last signal finds no room, since the room has been given to a request to stop that is not sent yet. -/
def unheardSignal : List Event :=
  [.signal, .takeCommand, .signal, .requestStop 1, .attemptReturns true, .takeCommand, .attemptReturns true, .signal]

/-- The task is idle and no command is queued, no call was given up, every signal was accepted, and the last one is
not solved. The request is sent and ends the daemon, or its call is given up and the daemon stays idle. Both leave
the signal unsolved, and nothing is left that could make the task look again. -/
theorem unheard_signal :
    let h := happenings ⟨0, 1⟩ unheardSignal
    let d := afterEvents ⟨0, 1⟩ unheardSignal
    let stopped := afterEvents ⟨0, 1⟩ (unheardSignal ++ [.resume 1, .takeCommand])
    let leftAlone := afterEvents ⟨0, 1⟩ (unheardSignal ++ [.cancel 1])
    h.map (·.reply) = [.signalled (.ok ()), .quiet, .signalled (.ok ()), .quiet, .quiet, .quiet, .quiet,
        .signalled (.ok ())] ∧
      (∀ s ∈ h, wastesRoom s = false) ∧
      (d.phase = .idle ∧ d.commands.messages = [] ∧ signalCount h = 3 ∧ d.solvedThrough = 2) ∧
      (stopped.hasEnded = true ∧ stopped.isSolving = true) ∧
      leftAlone.phase = .idle ∧ leftAlone.commands.messages = [] ∧ leftAlone.commands.waiting = [] ∧
        leftAlone.isSolving = true := by
  refine ⟨rfl, by decide, by decide, by decide, by decide⟩

end Daemon

end Sluice
