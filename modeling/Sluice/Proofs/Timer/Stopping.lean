import Sluice.Proofs.Timer.Effect

/-!
# A stop returns when the timer has ended

A timer takes one request to stop, and those that are still queued then are forgotten; the same happens to all of
them when its action ends it. In each case the calls that wait for an answer return, and those that wait for room in
the channel too. So what a call learns from its return is only that its request is no longer under way.

As long as the timer goes on, no request gets lost: this is the invariant `Going`. A call that waits for an answer has
its request in the channel (`asked`), and a call that waits for room has its command in the line (`line`), at the same
place among those of all calls, so that it is the request of this very call that is sent when there is room. Hence no
call returns from a stop while the timer goes on (`Effect.ne_stopped`), and an ended timer wakes its action no more and
refuses all commands (`Over.effect`).
-/

namespace Sluice

namespace Timer

variable {t t' : Timer} {event : Event} {reply : Reply} {call : CallId}

/-- What a call waits for whose command is in the line. -/
def waitsFor : CallId × Command → CallId × Waiting
  | (call, .stop _) => (call, .stopRoom)
  | (call, _) => (call, .room)

/-- The calls whose commands are in the line. -/
def inLine (calls : List (CallId × Waiting)) : List (CallId × Waiting) := calls.filter (·.2 != .answer)

/-- The calls of a timer that goes on. -/
structure Going (t : Timer) : Prop where
  phase_ne : t.phase ≠ .ended
  open_ : t.commands.closed = false
  line : t.commands.waiting.map waitsFor = inLine t.calls
  /-- A request to stop in the line is that of its sender. -/
  own : ∀ sender requester, (sender, Command.stop requester) ∈ t.commands.waiting → requester = sender
  asked : ∀ call, (call, Waiting.answer) ∈ t.calls → Command.stop call ∈ t.commands.messages

/-- The timer has ended. -/
structure Over (t : Timer) : Prop where
  phase_eq : t.phase = .ended
  closed : t.commands.closed = true

/-! ### The line -/

theorem lookup_inLine {calls : List (CallId × Waiting)} {waiting : Waiting} (hcall : calls.lookup call = some waiting)
    (hroom : waiting ≠ .answer) : (inLine calls).lookup call = some waiting := by
  induction calls with
  | nil => cases hcall
  | cons c calls ih =>
    obtain ⟨first, w⟩ := c
    rw [List.lookup_cons] at hcall
    split at hcall
    · next hfirst =>
      cases hcall
      have hkept : ((first, waiting).2 != Waiting.answer) = true := bne_iff_ne.mpr hroom
      rw [inLine, List.filter_cons, if_pos hkept, List.lookup_cons, hfirst]
    · next hfirst =>
      rw [inLine, List.filter_cons]
      split
      · rw [List.lookup_cons, hfirst]
        exact ih hcall
      · exact ih hcall

theorem fst_waitsFor (w : CallId × Command) : (waitsFor w).1 = w.1 := by
  obtain ⟨call, command⟩ := w
  cases command <;> rfl

theorem lookup_waitsFor (waiting : List (CallId × Command)) :
    (waiting.map waitsFor).lookup call = (waiting.lookup call).map fun command => (waitsFor (call, command)).2 := by
  induction waiting with
  | nil => rfl
  | cons w waiting ih =>
    obtain ⟨first, command⟩ := w
    have hfirst : waitsFor (first, command) = (first, (waitsFor (call, command)).2) := by cases command <;> rfl
    rw [List.map_cons, hfirst, List.lookup_cons, List.lookup_cons, ih]
    cases call == first <;> rfl

/-- A call leaves the line with its command. -/
theorem line_without {waiting : List (CallId × Command)} {calls : List (CallId × Waiting)}
    (hline : waiting.map waitsFor = inLine calls) (call : CallId) :
    (waiting.filter (·.1 != call)).map waitsFor = (inLine calls).filter (·.1 != call) := by
  rw [← hline, List.filter_map]
  refine congrArg (List.map waitsFor) (List.filter_congr fun w _ => ?_)
  rw [Function.comp_apply, fst_waitsFor]

/-- A call whose request to stop is sent waits for the answer, and no longer for room. -/
theorem inLine_answer (calls : List (CallId × Waiting)) (call : CallId) :
    inLine (calls.map fun c => if c.1 = call then (call, .answer) else c) = (inLine calls).filter (·.1 != call) := by
  rw [inLine, inLine, List.filter_filter, List.filter_map]
  have hkept : calls.filter ((·.2 != Waiting.answer) ∘ fun c => if c.1 = call then (call, Waiting.answer) else c) =
      calls.filter fun c => c.1 != call && c.2 != .answer := by
    refine List.filter_congr fun c _ => ?_
    by_cases hcall : c.1 = call
    · simp [hcall]
    · simp [hcall]
  rw [hkept]
  refine (List.map_congr_left fun c hc => if_neg fun hcall => ?_).trans (List.map_id _)
  have hother := (Bool.and_eq_true_iff.mp (List.mem_filter.mp hc).2).1
  exact bne_iff_ne.mp hother hcall

/-! ### While the timer goes on -/

namespace Going

theorem start (period : Nat) : Going (ofNanos period) where
  phase_ne := nofun
  open_ := rfl
  line := rfl
  own := nofun
  asked := nofun

/-- A request to stop that goes from the line into the channel is that of its sender. -/
theorem eq_stop (g : Going t) {command : Command} (hcall : t.calls.lookup call = some .stopRoom)
    (hwaiting : t.commands.waiting.lookup call = some command) : command = .stop call := by
  have hline : (t.commands.waiting.map waitsFor).lookup call = some .stopRoom := by
    rw [g.line]
    exact lookup_inLine hcall nofun
  rw [lookup_waitsFor, hwaiting] at hline
  cases command with
  | reset => cases hline
  | setPeriod => cases hline
  | stop requester =>
    rw [g.own call requester (Channel.mem_of_lookup hwaiting)]

/-- The task goes on, and the channel loses no request to stop. -/
theorem of_same (g : Going t) (hphase : t'.phase ≠ .ended) (hcalls : t'.calls = t.calls)
    (hopen : t'.commands.closed = t.commands.closed) (hwaiting : t'.commands.waiting = t.commands.waiting)
    (hmessages : ∀ call, .stop call ∈ t.commands.messages → .stop call ∈ t'.commands.messages) : Going t' where
  phase_ne := hphase
  open_ := hopen.trans g.open_
  line := by
    rw [hwaiting, hcalls]
    exact g.line
  own := by
    rw [hwaiting]
    exact g.own
  asked call hcall := hmessages call (g.asked call (hcalls ▸ hcall))

/-- A call begins to wait for room. -/
theorem joinLine (g : Going t) {command : Command} {waiting : Waiting}
    (hwaits : waitsFor (call, command) = (call, waiting))
    (hroom : waiting ≠ .answer) (hown : ∀ requester, command = .stop requester → requester = call) :
    Going { t with
      commands := { t.commands with waiting := t.commands.waiting ++ [(call, command)] }
      calls := t.calls ++ [(call, waiting)] } where
  phase_ne := g.phase_ne
  open_ := g.open_
  line := by
    have hkept : inLine [(call, waiting)] = [(call, waiting)] :=
      List.filter_cons_of_pos (bne_iff_ne.mpr hroom)
    show (t.commands.waiting ++ [(call, command)]).map waitsFor = inLine (t.calls ++ [(call, waiting)])
    rw [List.map_append, g.line, List.map_singleton, hwaits, inLine, inLine, List.filter_append]
    exact congrArg _ hkept.symm
  own sender requester hmem := by
    rcases List.mem_append.mp hmem with hmem | hmem
    · exact g.own sender requester hmem
    · obtain ⟨rfl, hcommand⟩ := Prod.mk.inj (List.mem_singleton.mp hmem)
      exact hown requester hcommand.symm
  asked other hother := by
    rcases List.mem_append.mp hother with hother | hother
    · exact g.asked other hother
    · exact absurd (Prod.mk.inj (List.mem_singleton.mp hother)).2.symm hroom

/-- A call leaves the line, or returns, or is given up. -/
theorem leave (g : Going t) {queue : Fifo Command}
    (hmessages : ∀ call, .stop call ∈ t.commands.messages → .stop call ∈ queue.toList)
    (call : CallId) : Going { t.endCall call with commands := { t.commands.withdraw call with queue } } where
  phase_ne := g.phase_ne
  open_ := g.open_
  line := by
    show (t.commands.waiting.filter (·.1 != call)).map waitsFor = inLine (t.calls.filter (·.1 != call))
    rw [line_without g.line, inLine, inLine, List.filter_filter, List.filter_filter]
    exact List.filter_congr fun c _ => Bool.and_comm _ _
  own sender requester hmem := g.own sender requester (List.mem_filter.mp hmem).1
  asked other hother := hmessages _ (g.asked other (List.mem_filter.mp hother).1)

/-- A request to stop is sent. -/
theorem ask (g : Going t) (call : CallId) :
    Going (({ t with
      commands := { t.commands.withdraw call with queue := t.commands.queue.push (.stop call) } } : Timer).setCall
        call .answer) where
  phase_ne := g.phase_ne
  open_ := g.open_
  line := by
    show (t.commands.waiting.filter (·.1 != call)).map waitsFor = inLine (t.calls.map _)
    rw [line_without g.line, inLine_answer]
  own sender requester hmem := g.own sender requester (List.mem_filter.mp hmem).1
  asked other hother := by
    show Command.stop other ∈ (t.commands.queue.push (.stop call)).toList
    rw [Fifo.toList_push]
    obtain ⟨c, hc, heq⟩ := List.mem_map.mp hother
    split at heq
    · cases heq
      exact List.mem_append_right _ (List.mem_singleton.mpr rfl)
    · rw [heq] at hc
      exact List.mem_append_left _ (g.asked other hc)

/-- A request to stop is sent by a call that finds room at once. -/
theorem askAtOnce (g : Going t) (call : CallId) :
    Going { t with
      commands := { t.commands with queue := t.commands.queue.push (.stop call) }
      calls := t.calls ++ [(call, .answer)] } where
  phase_ne := g.phase_ne
  open_ := g.open_
  line := by
    have hgone : inLine [(call, Waiting.answer)] = [] := rfl
    show t.commands.waiting.map waitsFor = inLine (t.calls ++ [(call, .answer)])
    rw [g.line, inLine, inLine, List.filter_append, ← inLine, ← inLine, hgone, List.append_nil]
  own := g.own
  asked other hother := by
    rw [Channel.messages_push]
    rcases List.mem_append.mp hother with hother | hother
    · exact List.mem_append_left _ (g.asked other hother)
    · cases List.mem_singleton.mp hother
      exact List.mem_append_right _ (List.mem_singleton.mpr rfl)

/-- The task receives a command that does not end it. -/
theorem receive (g : Going t) {command : Command} {commands : Channel Command} {period : Nat}
    (hreceive : t.commands.receive = some (command, commands)) (hperiod : command.period? t.period = some period) :
    Going ({ t with commands, period } : Timer).restart := by
  have hmessages := Channel.messages_of_receive hreceive
  obtain ⟨queue, rfl⟩ := Channel.receive_spec hreceive
  refine g.of_same nofun rfl rfl rfl fun call hcall => ?_
  rw [hmessages] at hcall
  rcases List.mem_cons.mp hcall with rfl | hcall
  · cases hperiod
  · exact hcall

/-- A timer that goes on has in its channel what a call waits for that waits for an answer. -/
theorem owesAnswer (g : Going t) (hcall : t.calls.lookup call = some .answer) : t.owesAnswer call = true :=
  List.contains_iff_mem.mpr (g.asked call (Channel.mem_of_lookup hcall))

/-- As long as a timer goes on, no call returns from a stop. It goes on after an event, or it has ended. -/
theorem effect (g : Going t) (e : Effect t event reply t') : reply ≠ .stopped ∧ (Going t' ∨ Over t') := by
  have not_closed {P : Prop} (hclosed : t.commands.closed = true) : P := by cases g.open_.symm.trans hclosed
  cases e with
  | sent _ _ hsend =>
    cases Channel.send_spec hsend with
    | accepted =>
      refine ⟨nofun, .inl (g.of_same g.phase_ne rfl rfl rfl fun call hcall => ?_)⟩
      rw [Channel.messages_push]
      exact List.mem_append_left _ hcall
  | sendWaits _ hsends hsend =>
    cases Channel.send_spec hsend with
    | full =>
      cases hsends with
      | reset => exact ⟨nofun, .inl (g.joinLine rfl nofun nofun)⟩
      | setPeriod => exact ⟨nofun, .inl (g.joinLine rfl nofun nofun)⟩
  | sendMissed _ _ hclosed => exact not_closed hclosed
  | stopping _ hsend hanswer =>
    rcases hanswer with ⟨rfl, rfl⟩ | ⟨rfl, rfl⟩
    · cases Channel.send_spec hsend with
      | accepted => exact ⟨nofun, .inl (g.askAtOnce _)⟩
    · cases Channel.send_spec hsend with
      | full => exact ⟨nofun, .inl (g.joinLine rfl nofun fun requester hrequester => by cases hrequester; rfl)⟩
  | stopMissed _ hclosed => exact not_closed hclosed
  | lateSent _ hresume =>
    cases Channel.resume_spec hresume with
    | accepted =>
      refine ⟨nofun, .inl (g.leave (fun call hcall => ?_) _)⟩
      rw [Fifo.toList_push]
      exact List.mem_append_left _ hcall
  | lateMissed _ hresume =>
    cases Channel.resume_spec hresume with
    | closed hclosed => exact not_closed hclosed
  | stopSent hcall hresume =>
    cases Channel.resume_spec hresume with
    | accepted _ hwaiting =>
      cases g.eq_stop hcall hwaiting
      exact ⟨nofun, .inl (g.ask _)⟩
  | stopRefused _ hresume =>
    cases Channel.resume_spec hresume with
    | closed hclosed => exact not_closed hclosed
  | stopAnswered hcall howes => cases (g.owesAnswer hcall).symm.trans howes
  | cancelled => exact ⟨nofun, .inl (g.leave (fun _ => id) _)⟩
  | copied => exact ⟨nofun, .inl (g.of_same g.phase_ne rfl rfl rfl fun _ => id)⟩
  | released => exact ⟨nofun, .inl (g.of_same g.phase_ne rfl rfl rfl fun _ => id)⟩
  | woke => exact ⟨nofun, .inl (g.of_same nofun rfl rfl rfl fun _ => id)⟩
  | returned => exact ⟨nofun, .inl (g.of_same nofun rfl rfl rfl fun _ => id)⟩
  | returnedLast => exact ⟨nofun, .inr ⟨rfl, rfl⟩⟩
  | restarted _ hreceive hperiod => exact ⟨nofun, .inl (g.receive hreceive hperiod)⟩
  | stopTaken => exact ⟨nofun, .inr ⟨rfl, rfl⟩⟩
  | forsaken => exact ⟨nofun, .inr ⟨rfl, rfl⟩⟩
  | ticked => exact ⟨nofun, .inl (g.of_same g.phase_ne rfl rfl rfl fun _ => id)⟩

end Going

/-! ### When the timer has ended -/

/-- With an event a call begins that sends a command which is not answered. -/
def Event.isSend : Event → Bool
  | .reset _ => true
  | .setPeriod _ _ => true
  | _ => false

/-- What an event can do to a timer that has ended, with its answer. -/
structure Idle (event : Event) (reply : Reply) (t t' : Timer) : Prop where
  ne_wake : event ≠ .wake
  wakeUps_eq : t'.wakeUps = t.wakeUps
  refused : event.isSend = true → reply = .sent (.error .shutdown)
  not_sent : reply ≠ .sent (.ok ())

/-- A timer that has ended stays so. It wakes its action no more, and it refuses all commands. -/
theorem Over.effect (o : Over t) (e : Effect t event reply t') : Over t' ∧ Idle event reply t t' := by
  have hphase := o.phase_eq
  have hclosed := o.closed
  cases e with
  | sent _ _ hsend =>
    cases Channel.send_spec hsend with
    | accepted hopen => cases hopen.symm.trans hclosed
  | sendWaits _ _ hsend =>
    cases Channel.send_spec hsend with
    | full hopen => cases hopen.symm.trans hclosed
  | sendMissed _ hsends => exact ⟨o, by cases hsends <;> nofun, rfl, fun _ => rfl, nofun⟩
  | stopping _ hsend hanswer =>
    cases Channel.send_spec hsend with
    | accepted hopen => cases hopen.symm.trans hclosed
    | full hopen => cases hopen.symm.trans hclosed
    | closed => rcases hanswer with ⟨hanswer, -⟩ | ⟨hanswer, -⟩ <;> cases hanswer
  | stopMissed => exact ⟨o, nofun, rfl, nofun, nofun⟩
  | lateSent _ hresume =>
    cases Channel.resume_spec hresume with
    | accepted hopen => cases hopen.symm.trans hclosed
  | lateMissed _ hresume =>
    cases Channel.resume_spec hresume with
    | closed => exact ⟨⟨hphase, hclosed⟩, nofun, rfl, nofun, nofun⟩
  | stopSent _ hresume =>
    cases Channel.resume_spec hresume with
    | accepted hopen => cases hopen.symm.trans hclosed
  | stopRefused _ hresume =>
    cases Channel.resume_spec hresume with
    | closed => exact ⟨⟨hphase, hclosed⟩, nofun, rfl, nofun, nofun⟩
  | stopAnswered => exact ⟨⟨hphase, hclosed⟩, nofun, rfl, nofun, nofun⟩
  | cancelled => exact ⟨⟨hphase, hclosed⟩, nofun, rfl, nofun, nofun⟩
  | copied => exact ⟨⟨hphase, hclosed⟩, nofun, rfl, nofun, nofun⟩
  | released => exact ⟨⟨hphase, hclosed⟩, nofun, rfl, nofun, nofun⟩
  | woke hwaiting => cases hwaiting.symm.trans hphase
  | returned hwaking => cases hwaking.symm.trans hphase
  | returnedLast hwaking => cases hwaking.symm.trans hphase
  | restarted hwaiting => cases hwaiting.symm.trans hphase
  | stopTaken hwaiting => cases hwaiting.symm.trans hphase
  | forsaken hwaiting => cases hwaiting.symm.trans hphase
  | ticked => exact ⟨⟨hphase, hclosed⟩, nofun, rfl, nofun, nofun⟩

/-- The action ends the timer. -/
theorem Effect.over_of_last (e : Effect t (.woken .stop) reply t') : Over t' := by
  cases e with
  | returnedLast => exact ⟨rfl, rfl⟩
  | returned _ hperiod => cases hperiod
  | sent _ hsends => cases hsends
  | sendWaits _ hsends => cases hsends
  | sendMissed _ hsends => cases hsends

/-- When a call returns from a stop, or the action has ended the timer, it has ended, and nothing that happens
afterwards wakes its action or sends a command. -/
theorem over_of_stopped {period : Nat} {events : List Event} {before after : List Happening} {s : Happening}
    (hsplit : happenings period events = before ++ s :: after)
    (hstops : s.reply = .stopped ∨ s.event = .woken .stop) :
    Over s.after ∧ ∀ r ∈ after, r.after.wakeUps = s.after.wakeUps ∧ Idle r.event r.reply r.before r.after := by
  obtain ⟨first, rest, -, hstate, hstep, hafter⟩ := Schedule.split hsplit
  have e := step_effect hstep
  have hbefore : Going s.before ∨ Over s.before := by
    rw [← hstate]
    refine (Schedule.invariant (I := fun t => Going t ∨ Over t) (.inl (Going.start period)) ?_ first).1
    rintro t event reply t' (g | o) hstep
    · exact (g.effect (step_effect hstep)).2
    · exact .inr (o.effect (step_effect hstep)).1
  have hover : Over s.after := by
    rcases hbefore with g | o
    · rcases hstops with hstopped | hlast
      · exact absurd hstopped (g.effect e).1
      · rw [hlast] at e
        exact e.over_of_last
    · exact (o.effect e).1
  refine ⟨hover, fun r hr => ?_⟩
  obtain ⟨-, hall⟩ := Schedule.invariant (I := fun t => Over t ∧ t.wakeUps = s.after.wakeUps) ⟨hover, rfl⟩
    (fun t event reply t' o hstep =>
      ⟨(o.1.effect (step_effect hstep)).1, (o.1.effect (step_effect hstep)).2.wakeUps_eq.trans o.2⟩) rest
  obtain ⟨⟨o, hwakeUps⟩, hstep⟩ := hall r (hafter ▸ hr)
  obtain ⟨-, i⟩ := o.effect (step_effect hstep)
  exact ⟨i.wakeUps_eq.trans hwakeUps, i⟩

end Timer

end Sluice
