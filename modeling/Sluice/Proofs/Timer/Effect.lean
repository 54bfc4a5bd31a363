import Sluice.Proofs.Schedule
import Sluice.Proofs.Worker.Channel
import Sluice.Worker.Timer

/-!
# What an event can do to a timer

`Effect` lists the ways in which an event changes a timer, with its answer and with what is known when it happens.
`step_effect` says that every event that can happen has one of these effects. What is told about the schedules of a
timer rests on it, and not on `step`.

A command and the outcome of a wake-up are of one kind as far as the countdown is concerned: either the countdown
starts anew, with a period that is given (`Command.period?`, `WakeOutcome.period?`), or the timer ends.
-/

namespace Sluice

/-- The period after which to wake up again, if the one at present is known. -/
def WakeOutcome.period? (present : Nat) : WakeOutcome → Option Nat
  | .again => some present
  | .reschedule period => some period
  | .stop => none

namespace Timer

variable {t t' : Timer} {event : Event} {reply : Reply} {call : CallId}

/-- An event that happened to a timer. -/
abbrev Happening : Type := Occurrence Timer Event Reply

/-- What happens to a new timer in a schedule. -/
def happenings (period : Nat) (events : List Event) : List Happening :=
  Schedule.occurrences step (ofNanos period) events

/-- A new timer after a schedule. -/
def afterEvents (period : Nat) (events : List Event) : Timer := Schedule.after step (ofNanos period) events

/-- The period with which a command starts the countdown anew, if the one at present is known. -/
def Command.period? (present : Nat) : Command → Option Nat
  | .reset => some present
  | .setPeriod period => some period
  | .stop _ => none

/-- A call begins that sends a command which is not answered. -/
inductive Sends (call : CallId) : Event → Command → Prop
  | reset : Sends call (.reset call) .reset
  | setPeriod {period : Nat} : Sends call (.setPeriod call period) (.setPeriod period)

/-- The changes that an event can make, with its answer. -/
inductive Effect (t : Timer) : Event → Reply → Timer → Prop
  | sent {event : Event} {call : CallId} {command : Command} {commands : Channel Command} :
      t.handles ≠ 0 → Sends call event command → t.commands.send call command = (.accepted, commands) →
      Effect t event (.sent (.ok ())) { t with commands }
  /-- The call waits for room. -/
  | sendWaits {event : Event} {call : CallId} {command : Command} {commands : Channel Command} :
      t.handles ≠ 0 → Sends call event command → t.commands.send call command = (.full, commands) →
      Effect t event .quiet { t with commands, calls := t.calls ++ [(call, .room)] }
  | sendMissed {event : Event} {call : CallId} {command : Command} :
      t.handles ≠ 0 → Sends call event command → t.commands.closed = true →
      Effect t event (.sent (.error .shutdown)) t
  /-- A request to stop is sent, or waits for room. -/
  | stopping {call : CallId} {answer : Admission} {commands : Channel Command} {waiting : Waiting} :
      t.handles ≠ 0 → t.commands.send call (.stop call) = (answer, commands) →
      answer = .accepted ∧ waiting = .answer ∨ answer = .full ∧ waiting = .stopRoom →
      Effect t (.requestStop call) .quiet { t with commands, calls := t.calls ++ [(call, waiting)] }
  | stopMissed {call : CallId} :
      t.handles ≠ 0 → t.commands.closed = true → Effect t (.requestStop call) .stopped t
  | lateSent {call : CallId} {commands : Channel Command} :
      t.calls.lookup call = some .room → t.commands.resume call = some (.accepted, commands) →
      Effect t (.resume call) (.sent (.ok ())) (({ t with commands } : Timer).endCall call)
  | lateMissed {call : CallId} {commands : Channel Command} :
      t.calls.lookup call = some .room → t.commands.resume call = some (.closed, commands) →
      Effect t (.resume call) (.sent (.error .shutdown)) (({ t with commands } : Timer).endCall call)
  | stopSent {call : CallId} {commands : Channel Command} :
      t.calls.lookup call = some .stopRoom → t.commands.resume call = some (.accepted, commands) →
      Effect t (.resume call) .quiet (({ t with commands } : Timer).setCall call .answer)
  | stopRefused {call : CallId} {commands : Channel Command} :
      t.calls.lookup call = some .stopRoom → t.commands.resume call = some (.closed, commands) →
      Effect t (.resume call) .stopped (({ t with commands } : Timer).endCall call)
  | stopAnswered {call : CallId} :
      t.calls.lookup call = some .answer → t.owesAnswer call = false →
      Effect t (.resume call) .stopped (t.endCall call)
  | cancelled {call : CallId} :
      Effect t (.cancel call) .quiet { t.endCall call with commands := t.commands.withdraw call }
  | copied : t.handles ≠ 0 → Effect t .copyHandle .quiet { t with handles := t.handles + 1 }
  | released : t.handles ≠ 0 → Effect t .dropHandle .quiet { t with handles := t.handles - 1 }
  | woke {deadline : Nat} :
      t.phase = .waiting deadline → deadline ≤ inNanos t.now →
      Effect t .wake .quiet { t with phase := .waking, wakeUps := t.wakeUps + 1 }
  /-- A wake-up is over, and the countdown starts anew. -/
  | returned {outcome : WakeOutcome} {period : Nat} :
      t.phase = .waking → outcome.period? t.period = some period →
      Effect t (.woken outcome) .quiet ({ t with period } : Timer).restart
  | returnedLast : t.phase = .waking → Effect t (.woken .stop) .quiet t.finish
  /-- A command starts the countdown anew. -/
  | restarted {deadline period : Nat} {command : Command} {commands : Channel Command} :
      t.phase = .waiting deadline → t.commands.receive = some (command, commands) →
      command.period? t.period = some period →
      Effect t .takeCommand .quiet ({ t with commands, period } : Timer).restart
  | stopTaken {deadline : Nat} {call : CallId} {commands : Channel Command} :
      t.phase = .waiting deadline → t.commands.receive = some (.stop call, commands) →
      Effect t .takeCommand .quiet ({ t with commands } : Timer).finish
  | forsaken {deadline : Nat} :
      t.phase = .waiting deadline → t.commands.messages = [] → t.isForsaken = true →
      Effect t .takeCommand .quiet t.finish
  | ticked : t.isSettled = true → Effect t .tick .quiet { t with now := t.now + 1 }

/-! ### Every event has one of the effects -/

theorem sends_effect {command : Command} (hhandles : t.handles ≠ 0) (hsends : Sends call event command)
    (hbegins : t.beginSend call command = (reply, t')) : Effect t event reply t' := by
  rw [beginSend] at hbegins
  rcases hsend : t.commands.send call command with ⟨answer, commands⟩
  rw [hsend] at hbegins
  cases answer with
  | accepted =>
    cases hbegins
    exact .sent hhandles hsends hsend
  | full =>
    cases hbegins
    exact .sendWaits hhandles hsends hsend
  | closed =>
    cases hbegins
    cases Channel.send_spec hsend with
    | closed hclosed => exact .sendMissed hhandles hsends hclosed

theorem requestStop_effect (hstep : t.step (.requestStop call) = some (reply, t')) :
    Effect t (.requestStop call) reply t' := by
  simp only [step] at hstep
  split at hstep
  · cases hstep
  · next hhandles =>
    rcases hsend : t.commands.send call (.stop call) with ⟨answer, commands⟩
    rw [hsend] at hstep
    cases answer with
    | accepted =>
      cases hstep
      exact .stopping hhandles hsend (.inl ⟨rfl, rfl⟩)
    | full =>
      cases hstep
      exact .stopping hhandles hsend (.inr ⟨rfl, rfl⟩)
    | closed =>
      cases hstep
      cases Channel.send_spec hsend with
      | closed hclosed => exact .stopMissed hhandles hclosed

theorem resume_effect (hstep : t.resumeCall call = some (reply, t')) : Effect t (.resume call) reply t' := by
  rw [resumeCall] at hstep
  split at hstep
  · cases hstep
  · next hcall =>
    rcases hresume : t.commands.resume call with _ | ⟨answer, commands⟩
    · rw [hresume] at hstep
      cases hstep
    · rw [hresume] at hstep
      cases Channel.resume_spec hresume with
      | accepted =>
        cases hstep
        exact .lateSent hcall hresume
      | closed =>
        cases hstep
        exact .lateMissed hcall hresume
  · next hcall =>
    rcases hresume : t.commands.resume call with _ | ⟨answer, commands⟩
    · rw [hresume] at hstep
      cases hstep
    · rw [hresume] at hstep
      cases Channel.resume_spec hresume with
      | accepted =>
        cases hstep
        exact .stopSent hcall hresume
      | closed =>
        cases hstep
        exact .stopRefused hcall hresume
  · next hcall =>
    split at hstep
    · cases hstep
    · next howes =>
      cases hstep
      exact .stopAnswered hcall (Bool.eq_false_iff.mpr howes)

theorem wake_effect (hstep : t.step .wake = some (reply, t')) : Effect t .wake reply t' := by
  simp only [step] at hstep
  split at hstep
  · next hdue =>
    cases hstep
    rw [isDue] at hdue
    split at hdue
    · next deadline hwaiting => exact .woke hwaiting (of_decide_eq_true hdue)
    · cases hdue
  · cases hstep

theorem woken_effect {outcome : WakeOutcome} (hstep : t.step (.woken outcome) = some (reply, t')) :
    Effect t (.woken outcome) reply t' := by
  simp only [step] at hstep
  split at hstep
  · cases hstep
  · next hnot =>
    have hwaking : t.phase = .waking := Decidable.not_not.mp hnot
    cases outcome with
    | again =>
      cases hstep
      exact @Effect.returned t .again t.period hwaking rfl
    | reschedule period =>
      cases hstep
      exact .returned hwaking rfl
    | stop =>
      cases hstep
      exact .returnedLast hwaking

theorem takeCommand_effect (htakes : t.takeCommand = some t') : Effect t .takeCommand .quiet t' := by
  rw [takeCommand] at htakes
  split at htakes
  · next deadline hwaiting =>
    split at htakes
    · next commands hreceive =>
      cases htakes
      exact .restarted hwaiting hreceive rfl
    · next period commands hreceive =>
      cases htakes
      exact .restarted hwaiting hreceive rfl
    · next call commands hreceive =>
      cases htakes
      exact .stopTaken hwaiting hreceive
    · next hnone =>
      split at htakes
      · next hforsaken =>
        cases htakes
        exact .forsaken hwaiting (t.commands.receive_eq_none.mp hnone) hforsaken
      · cases htakes
  · cases htakes

/-- Every event that can happen has one of the effects. -/
theorem step_effect (hstep : t.step event = some (reply, t')) : Effect t event reply t' := by
  cases event with
  | reset call =>
    simp only [step] at hstep
    split at hstep
    · cases hstep
    · next hhandles => exact sends_effect hhandles .reset (Option.some.inj hstep)
  | setPeriod call period =>
    simp only [step] at hstep
    split at hstep
    · cases hstep
    · next hhandles => exact sends_effect hhandles .setPeriod (Option.some.inj hstep)
  | requestStop call => exact requestStop_effect hstep
  | resume call => exact resume_effect hstep
  | cancel call =>
    cases hstep
    exact .cancelled
  | copyHandle =>
    simp only [step] at hstep
    split at hstep
    · cases hstep
    · next hhandles =>
      cases hstep
      exact .copied hhandles
  | dropHandle =>
    simp only [step] at hstep
    split at hstep
    · cases hstep
    · next hhandles =>
      cases hstep
      exact .released hhandles
  | wake => exact wake_effect hstep
  | woken outcome => exact woken_effect hstep
  | takeCommand =>
    obtain ⟨next, htakes, hnext⟩ := Option.map_eq_some_iff.mp hstep
    cases hnext
    exact takeCommand_effect htakes
  | tick =>
    simp only [step] at hstep
    split at hstep
    · next hsettled =>
      cases hstep
      exact .ticked hsettled
    · cases hstep

end Timer

end Sluice
