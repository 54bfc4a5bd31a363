import Mathlib.Data.List.Induction
import Sluice.Proofs.Daemon.Coverage

/-!
# What a call can rely on that returns from a stop

`stops_unless_superseded` says what is over when a call returns from a stop, for every schedule. In any case no
attempt begins any more. And the task has ended, so that no attempt is in progress and every later signal is refused,
with one exception: a round that begins takes all requests to stop out of the channel at once, and keeps the last one
only. The call of another one of them returns as soon as it goes on, while the attempt of that round is still in
progress and signals are still accepted, as in the schedule `twoStops`.

The invariant is `Tended`. It tells where the request of a call is that waits for the answer: in the channel, or in
the hands of the task that is in the last attempt of its life, in a round that took the request out of the channel
(`Drains`). When there is nothing that could still answer the call, the task has ended or it keeps another request.
-/

namespace Sluice

namespace Daemon

variable {d d' : Daemon} {event : Event} {reply : Reply} {h : List Happening} {s : Happening} {call : CallId}

/-- The task begins no attempt any more: it has ended, or it stops after the attempt that is in progress. -/
def IsClosing (d : Daemon) : Prop := d.phase = .ended ∨ ∃ target last, d.phase = .solving target (some last)

/-- A round begins that takes the request of a call to stop out of the channel, and keeps the one of the last such
call. -/
def Drains (b : Happening) (call last : CallId) : Prop :=
  b.event = .takeCommand ∧ ∃ queued, b.before.commands.messages = .stateChange :: queued ∧
    .stop call ∈ queued ∧ lastStop queued = some last

/-- The task has taken the request of a call out of the channel: it is in an attempt after which it stops for this
call or for a later one, or it has ended. -/
def Taken (h : List Happening) (d : Daemon) (call : CallId) : Prop :=
  d.phase = .ended ∨ ∃ target last, d.phase = .solving target (some last) ∧
    ∃ b ∈ h, Begins b d.rounds ∧ Drains b call last

/-- The request of every call that waits for the answer is in the channel, or the task has taken it. -/
structure Tended (h : List Happening) (d : Daemon) : Prop where
  closed_iff : d.commands.closed = true ↔ d.phase = .ended
  own : ∀ w ∈ d.commands.waiting, w.2 = .stop w.1
  asked : ∀ call, (call, Waiting.answer) ∈ d.calls → .stop call ∈ d.commands.messages ∨ Taken h d call

/-! ### The last request is one of those that are taken -/

theorem lastStop_concat (commands : List Command) (command : Command) :
    lastStop (commands ++ [command]) =
      match command with
      | .stop call => some call
      | .stateChange => lastStop commands := by
  rw [lastStop, List.foldl_append]
  cases command <;> rfl

/-- There is a last request if there is any. -/
theorem exists_lastStop {commands : List Command} (hmem : .stop call ∈ commands) :
    ∃ last, lastStop commands = some last := by
  induction commands using List.reverseRecOn with
  | nil => cases hmem
  | append_singleton commands command ih =>
    rw [lastStop_concat]
    cases command with
    | stop last => exact ⟨last, rfl⟩
    | stateChange =>
      rcases List.mem_append.mp hmem with hmem | hmem
      · exact ih hmem
      · cases List.mem_singleton.mp hmem

/-! ### Where the requests are -/

/-- What is taken stays so as long as the task does not move. -/
theorem Taken.snoc (k : Taken h d call) (s : Happening) (hphase : d'.phase = d.phase) (hrounds : d'.rounds = d.rounds) :
    Taken (h ++ [s]) d' call := by
  rw [Taken, hphase, hrounds]
  rcases k with hended | ⟨target, last, hsolving, b, hb, hbegins⟩
  · exact .inl hended
  · exact .inr ⟨target, last, hsolving, b, List.mem_append_left _ hb, hbegins⟩

theorem Taken.isClosing (k : Taken h d call) : IsClosing d := by
  rcases k with hended | ⟨target, last, hsolving, -⟩
  · exact .inl hended
  · exact .inr ⟨target, last, hsolving⟩

namespace Tended

theorem start (settings : DaemonSettings) : Tended [] (ofSettings settings) where
  closed_iff := ⟨nofun, nofun⟩
  own := nofun
  asked := nofun

/-- While the task may still begin an attempt, the channel is open. -/
theorem closed_eq_false (c : Tended h d) (hgoing : ¬ IsClosing d) : d.commands.closed = false :=
  Bool.eq_false_iff.mpr fun hclosed => hgoing (.inl (c.closed_iff.mp hclosed))

/-- While the task may still begin an attempt, all requests are in the channel. -/
theorem asked_of_going (c : Tended h d) (hgoing : ¬ IsClosing d) (hcall : (call, Waiting.answer) ∈ d.calls) :
    .stop call ∈ d.commands.messages :=
  (c.asked call hcall).resolve_right fun htaken => hgoing htaken.isClosing

/-- A call moves, or a signal is counted, and the channel keeps the requests to stop that it has. -/
theorem of_call (c : Tended h d) (s : Happening) (hphase : d'.phase = d.phase) (hrounds : d'.rounds = d.rounds)
    (hclosed : d'.commands.closed = d.commands.closed) (hown : ∀ w ∈ d'.commands.waiting, w.2 = .stop w.1)
    (hmessages : ∀ call, .stop call ∈ d.commands.messages → .stop call ∈ d'.commands.messages)
    (hcalls : ∀ call, (call, Waiting.answer) ∈ d'.calls →
      (call, Waiting.answer) ∈ d.calls ∨ .stop call ∈ d'.commands.messages) : Tended (h ++ [s]) d' where
  closed_iff := by
    rw [hclosed, hphase]
    exact c.closed_iff
  own := hown
  asked call hcall := by
    rcases hcalls call hcall with hcall | hmem
    · rcases c.asked call hcall with hmem | htaken
      · exact .inl (hmessages call hmem)
      · exact .inr (htaken.snoc s hphase hrounds)
    · exact .inl hmem

/-- Nothing happens to the channel, and no call begins to wait for an answer. -/
theorem of_same (c : Tended h d) (s : Happening) (hphase : d'.phase = d.phase) (hrounds : d'.rounds = d.rounds)
    (hcommands : d'.commands = d.commands)
    (hcalls : ∀ call, (call, Waiting.answer) ∈ d'.calls → (call, Waiting.answer) ∈ d.calls) :
    Tended (h ++ [s]) d' := by
  refine c.of_call s hphase hrounds (by rw [hcommands]) ?_ ?_ fun call hcall => .inl (hcalls call hcall)
  · rw [hcommands]
    exact c.own
  · rw [hcommands]
    exact fun _ => id

/-- A call leaves the line, or returns, or is given up. -/
theorem leave (c : Tended h d) (s : Happening) (call : CallId) :
    Tended (h ++ [s]) { d.endCall call with commands := d.commands.withdraw call } :=
  c.of_call s rfl rfl rfl (fun w hw => c.own w (List.mem_filter.mp hw).1) (fun _ => id)
    fun _ hother => .inl (List.mem_filter.mp hother).1

/-- A request to stop is sent from the line. -/
theorem ask (c : Tended h d) (s : Happening) (call : CallId) :
    Tended (h ++ [s]) (({ d with
      commands := { d.commands.withdraw call with queue := d.commands.queue.push (.stop call) } } : Daemon).setCall
        call .answer) := by
  have hmessages (command : Command) (hmem : command ∈ d.commands.messages ++ [.stop call]) :
      command ∈ (d.commands.queue.push (.stop call)).toList := by
    rw [Fifo.toList_push]
    exact hmem
  refine c.of_call s rfl rfl rfl (fun w hw => c.own w (List.mem_filter.mp hw).1)
    (fun other hother => hmessages _ (List.mem_append_left _ hother)) fun other hother => ?_
  obtain ⟨running, hrunning, heq⟩ := List.mem_map.mp hother
  split at heq
  · cases heq
    exact .inr (hmessages _ (List.mem_append_right _ List.mem_cons_self))
  · exact .inl (heq ▸ hrunning)

/-- The task moves on, and it may still begin an attempt. -/
theorem of_move (c : Tended h d) (s : Happening) (hgoing : ¬ IsClosing d) (hended : d'.phase ≠ .ended)
    (hclosed : d'.commands.closed = d.commands.closed) (hwaiting : d'.commands.waiting = d.commands.waiting)
    (hcalls : d'.calls = d.calls)
    (hmessages : ∀ call, .stop call ∈ d.commands.messages → .stop call ∈ d'.commands.messages) :
    Tended (h ++ [s]) d' where
  closed_iff := by
    rw [hclosed, c.closed_eq_false hgoing]
    exact ⟨nofun, fun hphase => absurd hphase hended⟩
  own := by
    rw [hwaiting]
    exact c.own
  asked call hcall := .inl (hmessages call (c.asked_of_going hgoing (hcalls ▸ hcall)))

/-- The task ends. -/
theorem of_finish (s : Happening) (hown : ∀ w ∈ d.commands.waiting, w.2 = .stop w.1) :
    Tended (h ++ [s]) d.finish where
  closed_iff := ⟨fun _ => rfl, fun _ => rfl⟩
  own := hown
  asked _ _ := .inr (.inl rfl)

/-- A round begins and takes all requests to stop. -/
theorem of_round (c : Tended h d) {commands : Channel Command} (hidle : d.phase = .idle)
    (hreceive : d.commands.receive = some (.stateChange, commands)) :
    Tended (h ++ [⟨d, .takeCommand, reply, ({ d with commands } : Daemon).beginRound⟩])
      ({ d with commands } : Daemon).beginRound := by
  have hgoing : ¬ IsClosing d := by simp [IsClosing, hidle]
  have hmessages := Channel.messages_of_receive hreceive
  obtain ⟨queue, rfl⟩ := Channel.receive_spec hreceive
  refine ⟨⟨fun hclosed => ?_, nofun⟩, c.own, fun call hcall => .inr (.inr ?_)⟩
  · cases (c.closed_eq_false hgoing).symm.trans hclosed
  · have hmem := c.asked_of_going hgoing hcall
    rw [hmessages] at hmem
    have hqueued := (List.mem_cons.mp hmem).resolve_left nofun
    obtain ⟨last, hlast⟩ := exists_lastStop hqueued
    refine ⟨d.requested, last, congrArg _ hlast, _, List.mem_append_right _ List.mem_cons_self, ⟨rfl, rfl⟩, ?_⟩
    exact ⟨rfl, _, hmessages, hqueued, hlast⟩

/-- Every event keeps the invariant. -/
theorem effect (c : Tended h d) (e : Effect d event reply d') : Tended (h ++ [⟨d, event, reply, d'⟩]) d' := by
  cases e with
  | queued _ hoffer =>
    cases Channel.offer_spec hoffer with
    | accepted =>
      refine c.of_call _ rfl rfl rfl c.own (fun call hcall => ?_) fun _ => .inl
      rw [Channel.messages_push]
      exact List.mem_append_left _ hcall
  | folded => exact c.of_same _ rfl rfl rfl fun _ => id
  | missed => exact c.of_same _ rfl rfl rfl fun _ => id
  | awaiting =>
    refine c.of_same _ rfl rfl rfl fun call hcall => ?_
    rcases List.mem_append.mp hcall with hcall | hcall
    · exact hcall
    · cases List.mem_singleton.mp hcall
  | @stopping requester _ _ _ _ hsend hanswer =>
    rcases hanswer with ⟨rfl, rfl⟩ | ⟨rfl, rfl⟩
    · cases Channel.send_spec hsend with
      | accepted =>
        refine c.of_call _ rfl rfl rfl c.own (fun call hcall => ?_) fun call hcall => ?_
        · rw [Channel.messages_push]
          exact List.mem_append_left _ hcall
        · rw [Channel.messages_push]
          rcases List.mem_append.mp hcall with hcall | hcall
          · exact .inl hcall
          · cases List.mem_singleton.mp hcall
            exact .inr (List.mem_append_right _ List.mem_cons_self)
    · cases Channel.send_spec hsend with
      | full =>
        refine c.of_call _ rfl rfl rfl (fun w hw => ?_) (fun _ => id) fun call hcall => .inl ?_
        · rcases List.mem_append.mp hw with hw | hw
          · exact c.own w hw
          · cases List.mem_singleton.mp hw
            rfl
        · rcases List.mem_append.mp hcall with hcall | hcall
          · exact hcall
          · cases List.mem_singleton.mp hcall
  | stopMissed => exact c.of_same _ rfl rfl rfl fun _ => id
  | settled => exact c.of_same _ rfl rfl rfl fun _ hcall => (List.mem_filter.mp hcall).1
  | unsettled => exact c.of_same _ rfl rfl rfl fun _ hcall => (List.mem_filter.mp hcall).1
  | @stopSent call _ _ hresume =>
    cases Channel.resume_spec hresume with
    | @accepted command _ hwaiting =>
      obtain rfl : command = .stop call := c.own _ (Channel.mem_of_lookup hwaiting)
      exact c.ask _ call
  | stopRefused _ hresume =>
    cases Channel.resume_spec hresume with
    | closed => exact c.leave _ _
  | stopAnswered => exact c.of_same _ rfl rfl rfl fun _ hcall => (List.mem_filter.mp hcall).1
  | cancelled => exact c.leave _ _
  | copied => exact c.of_same _ rfl rfl rfl fun _ => id
  | released => exact c.of_same _ rfl rfl rfl fun _ => id
  | begun hidle hreceive => exact c.of_round hidle hreceive
  | stopTaken _ hreceive =>
    obtain ⟨queue, rfl⟩ := Channel.receive_spec hreceive
    exact of_finish _ c.own
  | forsaken => exact of_finish _ c.own
  | solved hsolving =>
    exact c.of_move _ (by simp [IsClosing, hsolving]) nofun rfl rfl rfl fun _ => id
  | failed hsolving =>
    exact c.of_move _ (by simp [IsClosing, hsolving]) nofun rfl rfl rfl fun _ => id
  | solvedLast => exact of_finish _ c.own
  | failedLast => exact of_finish _ c.own
  | retried hpausing =>
    exact c.of_move _ (by simp [IsClosing, hpausing]) nofun rfl rfl rfl fun _ => id
  | interrupted hpausing hreceive =>
    have hmessages := Channel.messages_of_receive hreceive
    obtain ⟨queue, rfl⟩ := Channel.receive_spec hreceive
    refine c.of_move _ (by simp [IsClosing, hpausing]) nofun rfl rfl rfl fun call hcall => ?_
    rw [hmessages] at hcall
    exact (List.mem_cons.mp hcall).resolve_left nofun

end Tended

/-- Every schedule keeps the invariant. -/
theorem tended (settings : DaemonSettings) (events : List Event) :
    Tended (happenings settings events) (afterEvents settings events) :=
  Schedule.induction (P := fun h d => Tended h d) (Tended.start settings)
    (fun _ _ _ _ _ c hstep => c.effect (step_effect hstep)) events

/-! ### The end of the attempts -/

theorem IsClosing.effect (k : IsClosing d) (e : Effect d event reply d') :
    IsClosing d' ∧ d'.rounds = d.rounds := by
  cases e with
  | begun hidle => exact absurd k (by simp [IsClosing, hidle])
  | retried hpausing => exact absurd k (by simp [IsClosing, hpausing])
  | interrupted hpausing => exact absurd k (by simp [IsClosing, hpausing])
  | solved hsolving => exact absurd k (by simp [IsClosing, hsolving])
  | failed hsolving => exact absurd k (by simp [IsClosing, hsolving])
  | stopTaken => exact ⟨.inl rfl, rfl⟩
  | forsaken => exact ⟨.inl rfl, rfl⟩
  | solvedLast => exact ⟨.inl rfl, rfl⟩
  | failedLast => exact ⟨.inl rfl, rfl⟩
  | _ => exact ⟨k, rfl⟩

/-- No attempt begins in a schedule of such a daemon. -/
theorem IsClosing.not_begins (k : IsClosing d) (events : List Event) :
    ∀ r ∈ Schedule.occurrences step d events, ∀ n, ¬ Begins r n := by
  intro r hr n hbegins
  obtain ⟨-, hall⟩ := Schedule.invariant (I := IsClosing) k
    (fun d event reply d' k hstep => (k.effect (step_effect hstep)).1) events
  obtain ⟨k', hstep⟩ := hall r hr
  have hrounds : r.after.rounds = r.before.rounds := (k'.effect (step_effect hstep)).2
  obtain ⟨hbefore, hafter⟩ := hbegins
  omega

/-- A daemon that has ended stays so, and it refuses all signals. -/
theorem Tended.effect_ended (c : Tended h d) (hended : d.phase = .ended) (e : Effect d event reply d') :
    d'.phase = .ended ∧ (event = .signal → reply = .signalled (.error .shutdown)) := by
  have hclosed := c.closed_iff.mpr hended
  cases e with
  | queued _ hoffer =>
    cases Channel.offer_spec hoffer with
    | accepted hopen => cases hopen.symm.trans hclosed
  | folded _ hopen => cases hopen.symm.trans hclosed
  | missed => exact ⟨hended, fun _ => rfl⟩
  | begun hidle => cases hidle.symm.trans hended
  | stopTaken hreceives => exact ⟨rfl, fun hsignal => absurd hsignal hreceives.ne_signal⟩
  | forsaken hreceives => exact ⟨rfl, fun hsignal => absurd hsignal hreceives.ne_signal⟩
  | solved hsolving => cases hsolving.symm.trans hended
  | failed hsolving => cases hsolving.symm.trans hended
  | solvedLast hsolving => cases hsolving.symm.trans hended
  | failedLast hsolving => cases hsolving.symm.trans hended
  | retried hpausing => cases hpausing.symm.trans hended
  | interrupted hpausing => cases hpausing.symm.trans hended
  | _ => exact ⟨hended, nofun⟩

/-- It does so in every schedule. -/
theorem Tended.refuses (c : Tended h d) (hended : d.phase = .ended) (events : List Event) :
    ∀ r ∈ Schedule.occurrences step d events,
      r.after.phase = .ended ∧ (r.event = .signal → r.reply = .signalled (.error .shutdown)) := by
  intro r hr
  have hkept : ∀ d event reply d', (d.phase = .ended ∧ ∃ h, Tended h d) → step d event = some (reply, d') →
      d'.phase = .ended ∧ ∃ h, Tended h d' := by
    rintro d event reply d' ⟨hended, h, c⟩ hstep
    exact ⟨(c.effect_ended hended (step_effect hstep)).1, _, c.effect (step_effect hstep)⟩
  obtain ⟨-, hall⟩ := Schedule.invariant ⟨hended, h, c⟩ hkept events
  obtain ⟨⟨hbefore, _, c'⟩, hstep⟩ := hall r hr
  exact c'.effect_ended hbefore (step_effect hstep)

/-- A call returns from a stop when the task has ended, or when the round in progress has taken its request and keeps
that of another call. -/
theorem Tended.of_stopped (c : Tended h d) (e : Effect d event .stopped d') :
    d'.phase = .ended ∨ ∃ call last target, event = .resume call ∧ last ≠ call ∧
      d'.phase = .solving target (some last) ∧ ∃ b ∈ h, Begins b d'.rounds ∧ Drains b call last := by
  cases e with
  | stopMissed _ hclosed => exact .inl (c.closed_iff.mp hclosed)
  | stopRefused _ hresume =>
    cases Channel.resume_spec hresume with
    | closed hclosed => exact .inl (c.closed_iff.mp hclosed)
  | @stopAnswered call hcall howes =>
    obtain ⟨hnone, hkept⟩ := Bool.or_eq_false_iff.mp howes
    rcases c.asked call (Channel.mem_of_lookup hcall) with hqueued | hended | ⟨target, last, hsolving, hround⟩
    · cases (List.contains_iff_mem.mpr hqueued).symm.trans hnone
    · exact .inl hended
    · refine .inr ⟨call, last, target, rfl, ?_, hsolving, hround⟩
      rintro rfl
      rw [hsolving] at hkept
      simp at hkept

/-! ### What is over when a call returns from a stop -/

/-- When a call returns from a stop, no attempt begins any more. And the task has ended, stays so, and refuses all
signals, unless the round whose attempt is still in progress has taken the request of the call together with a later
one of another call, for which it stops. -/
theorem stops_unless_superseded (settings : DaemonSettings) (events : List Event) {early late : List Happening}
    {s : Happening} (hsplit : happenings settings events = early ++ s :: late) (hstopped : s.reply = .stopped) :
    (∀ r ∈ late, ∀ n, ¬ Begins r n) ∧
      ((s.after.phase = .ended ∧
          ∀ r ∈ late, r.after.phase = .ended ∧
            (r.event = .signal → r.reply = .signalled (.error .shutdown))) ∨
        ∃ call last target, s.event = .resume call ∧ last ≠ call ∧
          s.after.phase = .solving target (some last) ∧
          ∃ b ∈ early, Begins b s.after.rounds ∧ Drains b call last) := by
  obtain ⟨first, rest, rfl, hstate, hstep, hafter⟩ := Schedule.split hsplit
  have c : Tended (happenings settings first) s.before := hstate ▸ tended settings first
  have e := step_effect hstep
  rw [hstopped] at e
  have hphase := c.of_stopped e
  have hclosing : IsClosing s.after := by
    rcases hphase with hended | ⟨-, last, target, -, -, hsolving, -⟩
    · exact .inl hended
    · exact .inr ⟨target, last, hsolving⟩
  refine ⟨hafter ▸ hclosing.not_begins rest, ?_⟩
  rcases hphase with hended | hsuperseded
  · exact .inl ⟨hended, hafter ▸ (c.effect e).refuses hended rest⟩
  · exact .inr hsuperseded

/-- A schedule in which a round takes a request to stop, and its attempt fails. -/
def stoppedInRound : List Event :=
  [.signal, .takeCommand, .signal, .requestStop 1, .attemptReturns true, .takeCommand, .attemptReturns false,
    .resume 1, .signal]

theorem stops_unless_superseded_stoppedInRound :
    let h := happenings .small stoppedInRound
    ∃ early s r, h = early ++ [s, r] ∧ s.event = .resume 1 ∧ s.reply = .stopped ∧ s.after.phase = .ended ∧
      r.event = .signal ∧ r.after.phase = .ended ∧ r.reply = .signalled (.error .shutdown) := by
  intro h
  have hsplit : h = h.take 7 ++ [h[7], h[8]] := rfl
  have hended : h[7].after.phase = .ended := by decide
  obtain ⟨-, hlate⟩ := stops_unless_superseded .small stoppedInRound hsplit rfl
  rcases hlate with ⟨-, hover⟩ | ⟨_, _, _, -, -, hsolving, -⟩
  · obtain ⟨hafter, hrefused⟩ := hover _ List.mem_cons_self
    exact ⟨_, _, _, hsplit, rfl, rfl, hended, rfl, hafter, hrefused rfl⟩
  · cases hsolving.symm.trans hended

/-- A schedule in which a round takes two requests to stop. The call of the first one goes on before the attempt
returns. -/
def twoStops : List Event :=
  [.signal, .takeCommand, .signal, .requestStop 1, .requestStop 2, .attemptReturns true, .takeCommand, .resume 1,
    .signal]

/-- The call returns, the attempt is still in progress, and a later signal is accepted. -/
theorem signalled_after_stop_twoStops :
    let h := happenings .small twoStops
    (∀ event ∈ twoStops, ∀ call, event ≠ .cancel call) ∧
      ∃ early s r, h = early ++ [s, r] ∧ s.event = .resume 1 ∧ s.reply = .stopped ∧
        s.after.phase = .solving 2 (some 2) ∧ r.event = .signal ∧ r.reply = .signalled (.ok ()) := by
  intro h
  have hsplit : h = h.take 7 ++ [h[7], h[8]] := rfl
  refine ⟨?_, _, _, _, hsplit, rfl, rfl, by decide, rfl, rfl⟩
  intro event hevent call hcancel
  subst hcancel
  simp [twoStops] at hevent

end Daemon

end Sluice
