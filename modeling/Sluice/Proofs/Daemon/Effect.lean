import Sluice.Proofs.Schedule
import Sluice.Proofs.Worker.Channel
import Sluice.Worker.Daemon

/-!
# What an event can do to a daemon

`Effect` lists the ways in which an event changes a daemon, with its answer and with what is known when it happens.
`step_effect` says that every event that can happen has one of these effects. What is told about the schedules of a
daemon rests on it, and not on `step`.
-/

namespace Sluice

namespace Daemon

variable {d d' : Daemon} {event : Event} {reply : Reply}

/-- An event that happened to a daemon. -/
abbrev Happening : Type := Occurrence Daemon Event Reply

/-- What happens to a new daemon in a schedule. -/
def happenings (settings : DaemonSettings) (events : List Event) : List Happening :=
  Schedule.occurrences step (ofSettings settings) events

/-- A new daemon after a schedule. -/
def afterEvents (settings : DaemonSettings) (events : List Event) : Daemon :=
  Schedule.after step (ofSettings settings) events

/-- With an event the task receives a command, or learns that there will be none. -/
inductive Receives (d : Daemon) : Event → Prop
  | idle : d.phase = .idle → Receives d .takeCommand
  | pausing {target : Nat} : d.phase = .pausing target → Receives d .pauseInterrupted

theorem Receives.ne_signal (r : Receives d event) : event ≠ .signal := by
  cases r <;> nofun

/-- The changes that an event can make, with its answer. -/
inductive Effect (d : Daemon) : Event → Reply → Daemon → Prop
  /-- A signal is counted and queued. -/
  | queued {commands : Channel Command} :
      d.handles ≠ 0 → d.commands.offer .stateChange = (.accepted, commands) →
      Effect d .signal (.signalled (.ok ())) { d with requested := d.requested + 1, commands }
  /-- A signal is counted, and what is queued stands for it. -/
  | folded :
      d.handles ≠ 0 → d.commands.closed = false →
      d.commands.capacity ≤ d.commands.messages.length + d.commands.waiting.length →
      Effect d .signal (.signalled (.ok ())) { d with requested := d.requested + 1 }
  | missed :
      d.handles ≠ 0 → d.commands.closed = true →
      Effect d .signal (.signalled (.error .shutdown)) { d with requested := d.requested + 1 }
  | awaiting {call : CallId} :
      d.handles ≠ 0 →
      Effect d (.awaitSolved call) .quiet { d with calls := d.calls ++ [(call, .solved d.requested)] }
  /-- A request to stop is sent, or waits for room. -/
  | stopping {call : CallId} {answer : Admission} {commands : Channel Command} {waiting : Waiting} :
      d.handles ≠ 0 → d.commands.send call (.stop call) = (answer, commands) →
      answer = .accepted ∧ waiting = .answer ∨ answer = .full ∧ waiting = .room →
      Effect d (.requestStop call) .quiet { d with commands, calls := d.calls ++ [(call, waiting)] }
  | stopMissed {call : CallId} :
      d.handles ≠ 0 → d.commands.closed = true → Effect d (.requestStop call) .stopped d
  | settled {call : CallId} {target : Nat} :
      d.calls.lookup call = some (.solved target) → target ≤ d.solvedThrough →
      Effect d (.resume call) (.settled (.ok ())) (d.endCall call)
  | unsettled {call : CallId} {target : Nat} :
      d.calls.lookup call = some (.solved target) → d.solvedThrough < target → d.phase = .ended →
      Effect d (.resume call) (.settled (.error .shutdown)) (d.endCall call)
  | stopSent {call : CallId} {commands : Channel Command} :
      d.calls.lookup call = some .room → d.commands.resume call = some (.accepted, commands) →
      Effect d (.resume call) .quiet (({ d with commands } : Daemon).setCall call .answer)
  | stopRefused {call : CallId} {commands : Channel Command} :
      d.calls.lookup call = some .room → d.commands.resume call = some (.closed, commands) →
      Effect d (.resume call) .stopped (({ d with commands } : Daemon).endCall call)
  | stopAnswered {call : CallId} :
      d.calls.lookup call = some .answer → d.owesAnswer call = false →
      Effect d (.resume call) .stopped (d.endCall call)
  | cancelled {call : CallId} :
      Effect d (.cancel call) .quiet { d.endCall call with commands := d.commands.withdraw call }
  | copied : d.handles ≠ 0 → Effect d .copyHandle .quiet { d with handles := d.handles + 1 }
  | released : d.handles ≠ 0 → Effect d .dropHandle .quiet { d with handles := d.handles - 1 }
  /-- The idle task takes a signal and begins a round. -/
  | begun {commands : Channel Command} :
      d.phase = .idle → d.commands.receive = some (.stateChange, commands) →
      Effect d .takeCommand .quiet ({ d with commands } : Daemon).beginRound
  | stopTaken {event : Event} {call : CallId} {commands : Channel Command} :
      Receives d event → d.commands.receive = some (.stop call, commands) →
      Effect d event .quiet ({ d with commands } : Daemon).finish
  | forsaken {event : Event} :
      Receives d event → d.commands.messages = [] → d.isForsaken = true → Effect d event .quiet d.finish
  | solved {target : Nat} :
      d.phase = .solving target none →
      Effect d (.attemptReturns true) .quiet
        { d with solvedThrough := max d.solvedThrough target, phase := .idle }
  | failed {target : Nat} :
      d.phase = .solving target none →
      Effect d (.attemptReturns false) .quiet { d with phase := .pausing target }
  | solvedLast {target : Nat} {call : CallId} :
      d.phase = .solving target (some call) →
      Effect d (.attemptReturns true) .quiet
        ({ d with solvedThrough := max d.solvedThrough target } : Daemon).finish
  | failedLast {target : Nat} {call : CallId} :
      d.phase = .solving target (some call) → Effect d (.attemptReturns false) .quiet d.finish
  /-- The pause is over, and the next attempt covers what the last one did. -/
  | retried {target : Nat} :
      d.phase = .pausing target → Effect d .pauseEnds .quiet (d.attempt target none)
  /-- A signal ends the pause, and the next attempt covers all signals. -/
  | interrupted {target : Nat} {commands : Channel Command} :
      d.phase = .pausing target → d.commands.receive = some (.stateChange, commands) →
      Effect d .pauseInterrupted .quiet (({ d with commands } : Daemon).attempt d.requested none)

/-! ### Every event has one of the effects -/

theorem signal_effect (hstep : d.step .signal = some (reply, d')) : Effect d .signal reply d' := by
  simp only [step] at hstep
  split at hstep
  · cases hstep
  · next hhandles =>
    rcases hoffer : d.commands.offer .stateChange with ⟨answer, commands⟩
    rw [hoffer] at hstep
    cases Channel.offer_spec hoffer with
    | accepted =>
      cases hstep
      exact .queued hhandles hoffer
    | full hopen hfull =>
      cases hstep
      exact .folded hhandles hopen hfull
    | closed hclosed =>
      cases hstep
      exact .missed hhandles hclosed

theorem requestStop_effect {call : CallId} (hstep : d.step (.requestStop call) = some (reply, d')) :
    Effect d (.requestStop call) reply d' := by
  simp only [step] at hstep
  split at hstep
  · cases hstep
  · next hhandles =>
    rcases hsend : d.commands.send call (.stop call) with ⟨answer, commands⟩
    rw [hsend] at hstep
    cases answer with
    | accepted =>
      cases hstep
      exact .stopping hhandles hsend (.inl ⟨rfl, rfl⟩)
    | full =>
      cases hstep
      exact .stopping hhandles hsend (.inr ⟨rfl, rfl⟩)
    | closed =>
      cases hstep
      cases Channel.send_spec hsend with
      | closed hclosed => exact .stopMissed hhandles hclosed

theorem resume_effect {call : CallId} (hstep : d.step (.resume call) = some (reply, d')) :
    Effect d (.resume call) reply d' := by
  simp only [step] at hstep
  split at hstep
  · cases hstep
  · next target hcall =>
    split at hstep
    · next hle =>
      cases hstep
      exact .settled hcall hle
    · next hlt =>
      split at hstep
      · next hended =>
        cases hstep
        exact .unsettled hcall (Nat.lt_of_not_le hlt) (eq_of_beq hended)
      · cases hstep
  · next hcall =>
    rcases hresume : d.commands.resume call with _ | ⟨answer, commands⟩
    · rw [hresume] at hstep
      cases hstep
    · rw [hresume] at hstep
      cases Channel.resume_spec hresume with
      | accepted =>
        cases hstep
        exact .stopSent hcall hresume
      | closed =>
        cases hstep
        exact .stopRefused hcall hresume
  · next hcall =>
    split at hstep
    · cases hstep
    · next howes =>
      cases hstep
      exact .stopAnswered hcall (Bool.eq_false_iff.mpr howes)

theorem takeCommand_effect (hstep : d.step .takeCommand = some (reply, d')) :
    Effect d .takeCommand reply d' := by
  simp only [step] at hstep
  split at hstep
  · cases hstep
  · next hnot =>
    have hidle : d.phase = .idle := Decidable.not_not.mp hnot
    split at hstep
    · next commands hreceive =>
      cases hstep
      exact .begun hidle hreceive
    · next call commands hreceive =>
      cases hstep
      exact .stopTaken (.idle hidle) hreceive
    · next hnone =>
      split at hstep
      · next hforsaken =>
        cases hstep
        exact .forsaken (.idle hidle) (d.commands.receive_eq_none.mp hnone) hforsaken
      · cases hstep

theorem attemptReturns_effect {solved : Bool} (hstep : d.step (.attemptReturns solved) = some (reply, d')) :
    Effect d (.attemptReturns solved) reply d' := by
  simp only [step] at hstep
  split at hstep
  · next target stopping hsolving =>
    cases stopping with
    | some call =>
      cases hstep
      cases solved with
      | true => exact .solvedLast hsolving
      | false => exact .failedLast hsolving
    | none =>
      cases hstep
      cases solved with
      | true => exact .solved hsolving
      | false => exact .failed hsolving
  · cases hstep

theorem pauseInterrupted_effect (hstep : d.step .pauseInterrupted = some (reply, d')) :
    Effect d .pauseInterrupted reply d' := by
  simp only [step] at hstep
  split at hstep
  · next target hpausing =>
    split at hstep
    · next commands hreceive =>
      cases hstep
      exact .interrupted hpausing hreceive
    · next call commands hreceive =>
      cases hstep
      exact .stopTaken (.pausing hpausing) hreceive
    · next hnone =>
      split at hstep
      · next hforsaken =>
        cases hstep
        exact .forsaken (.pausing hpausing) (d.commands.receive_eq_none.mp hnone) hforsaken
      · cases hstep
  · cases hstep

/-- Every event that can happen has one of the effects. -/
theorem step_effect (hstep : d.step event = some (reply, d')) : Effect d event reply d' := by
  cases event with
  | signal => exact signal_effect hstep
  | awaitSolved call =>
    simp only [step] at hstep
    split at hstep
    · cases hstep
    · next hhandles =>
      cases hstep
      exact .awaiting hhandles
  | requestStop call => exact requestStop_effect hstep
  | resume call => exact resume_effect hstep
  | cancel call =>
    cases hstep
    exact .cancelled
  | copyHandle =>
    simp only [step] at hstep
    split at hstep
    · cases hstep
    · next hhandles =>
      cases hstep
      exact .copied hhandles
  | dropHandle =>
    simp only [step] at hstep
    split at hstep
    · cases hstep
    · next hhandles =>
      cases hstep
      exact .released hhandles
  | takeCommand => exact takeCommand_effect hstep
  | attemptReturns solved => exact attemptReturns_effect hstep
  | pauseEnds =>
    simp only [step] at hstep
    split at hstep
    · next target hpausing =>
      cases hstep
      exact .retried hpausing
    · cases hstep
  | pauseInterrupted => exact pauseInterrupted_effect hstep

end Daemon

end Sluice
