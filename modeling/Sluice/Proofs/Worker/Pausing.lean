import Sluice.Proofs.Worker.Barrier
import Sluice.Proofs.Worker.Feed

/-!
# What a paused reader still does

A pause keeps the reader from beginning another read, and nothing else. `read_while_paused` says what that comes to,
for every schedule, from the call until the next resumption: a single message can still come in, from the read that was
in progress. The counter of the messages read grows by this message, and by those that the reader had accepted without
returning them: a reader whose own end has come hands them on even in a pause (`read_pendingWhilePaused`). What is
queued can be handled all the while, and after a resumption the reader goes on with what it has to send or to read.

The invariant is `Withheld`. As long as the control does not say that the reader may run, a read in progress turns into
a message at most, and never into another read.
-/

namespace Sluice

namespace Processor

variable {M : Type} {p p' : Processor M} {event : Event M} {reply : Reply} {s : Happening M}
  {h early late : List (Happening M)} {capacity : Nat}

/-- A call that lets a paused reader go on. -/
def Event.isResume : Event M → Bool
  | .resume => true
  | _ => false

/-- How many reads are in progress. -/
def ReaderPhase.reads : ReaderPhase M → Nat
  | .reading => 1
  | _ => 0

/-- Whether the reader will not read any more. -/
def ReaderPhase.isOver : ReaderPhase M → Bool
  | .leaving => true
  | phase => phase.hasGathered

/-- A read begins. -/
def BeginsRead (s : Happening M) : Prop := s.before.reader ≠ .reading ∧ s.after.reader = .reading

/-- The handler receives messages, and goes on after each of them. -/
def serving : Nat → List (Event M)
  | 0 => []
  | count + 1 => .receive :: .handleReturns .continue :: serving count

/-! ### What an event makes of a reader that may not run -/

theorem ReaderPhase.reads_le_one (phase : ReaderPhase M) : phase.reads ≤ 1 := by
  cases phase <;> simp [reads]

theorem ReaderPhase.eq_reading {phase : ReaderPhase M} (hreads : 0 < phase.reads) : phase = .reading := by
  cases phase with
  | reading => rfl
  | _ => cases hreads

theorem reads_of_hasGathered {phase : ReaderPhase M} (hgathered : phase.hasGathered = true) : phase.reads = 0 := by
  cases phase with
  | reading => cases hgathered
  | _ => rfl

theorem reads_forward (p : Processor M) (ms : List M) : (p.forward ms).reader.reads = 0 :=
  reads_of_hasGathered (forward_hasGathered p ms)

theorem reads_sendRead (p : Processor M) (m : M) : (p.sendRead m).reader.reads = 0 := by
  rw [sendRead]
  split <;> rfl

/-- Without a resumption the control does not let the reader run. -/
theorem Effect.control_ne_running (e : Effect p event reply p') (hresume : event.isResume = false)
    (hcontrol : p.control ≠ .running) : p'.control ≠ .running := by
  have of_parting (q : Processor M) (hq : q.control ≠ .running) : q.stopIfForsaken.control ≠ .running := by
    rcases q.stopIfForsaken_eq with heq | heq
    · rw [heq]
      exact hq
    · rw [heq]
      nofun
  cases e with
  | paused => nofun
  | resumed => cases hresume
  | stopping => nofun
  | joined => exact of_parting _ hcontrol
  | cancelled => exact of_parting _ hcontrol
  | released => exact of_parting _ hcontrol
  | read =>
    rw [(sendRead_keeps _ _).1]
    exact hcontrol
  | forwarded =>
    rw [(forward_keeps _ _).1]
    exact hcontrol
  | forwardRefused =>
    rw [(forward_keeps _ _).1]
    exact hcontrol
  | gathered =>
    rw [(forward_keeps _ _).1]
    exact hcontrol
  | stopped => nofun
  | _ => exact hcontrol

/-- A read in progress returns a message and is over then. No other read begins. -/
theorem Effect.reads_le (e : Effect p event reply p') (hcontrol : p.control ≠ .running) :
    event.result.length + p'.reader.reads ≤ p.reader.reads := by
  cases e with
  | ignored hwhy => rcases hwhy with ⟨rfl, -⟩ | ⟨rfl, -⟩ <;> exact Nat.le_of_eq (Nat.zero_add _)
  | joined =>
    rw [reader_stopIfForsaken]
    exact Nat.le_of_eq (Nat.zero_add _)
  | cancelled =>
    rw [reader_stopIfForsaken]
    exact Nat.le_of_eq (Nat.zero_add _)
  | released =>
    rw [reader_stopIfForsaken]
    exact Nat.le_of_eq (Nat.zero_add _)
  | begun _ hrunning => exact absurd hrunning hcontrol
  | read hreading =>
    rw [reads_sendRead, hreading]
    exact Nat.le_refl 1
  | forwarded =>
    rw [reads_forward]
    exact Nat.zero_le _
  | forwardRefused =>
    rw [reads_forward]
    exact Nat.zero_le _
  | gathered =>
    rw [reads_forward]
    exact Nat.zero_le _
  | held => exact Nat.zero_le _
  | left => exact Nat.zero_le _
  | unpaused => exact Nat.zero_le _
  | exhausted => exact Nat.zero_le _
  | readCancelled => exact Nat.zero_le _
  | sent => exact Nat.zero_le _
  | refused => exact Nat.zero_le _
  | readerFinished => exact Nat.zero_le _
  | _ => exact Nat.le_of_eq (Nat.zero_add _)

theorem closed_forward (p : Processor M) (ms : List M) : (p.forward ms).channel.closed = p.channel.closed := by
  rw [← forward_of_phase p .leaving ms]
  exact (Reads.forward rfl ms).closed

/-- A reader that may not run begins no read. -/
theorem Effect.not_beginsRead (e : Effect s.before s.event s.reply s.after) (hcontrol : s.before.control ≠ .running) :
    ¬ BeginsRead s := by
  rintro ⟨hbefore, hafter⟩
  have hle := e.reads_le hcontrol
  rw [hafter] at hle
  exact hbefore (ReaderPhase.eq_reading (Nat.lt_of_lt_of_le (Nat.lt_add_left _ Nat.one_pos) hle))

/-- Only a handler that asks to stop closes the channel, and it stops the reader with it. -/
theorem Effect.closed (e : Effect p event reply p') (hclosed : p'.channel.closed = true) :
    p.channel.closed = true ∨ p'.control = .stopped := by
  cases e with
  | joined =>
    rw [channel_stopIfForsaken] at hclosed
    exact .inl hclosed
  | cancelled =>
    rw [channel_stopIfForsaken] at hclosed
    exact .inl hclosed
  | released =>
    rw [channel_stopIfForsaken] at hclosed
    exact .inl hclosed
  | @read m hreading => exact .inl ((Reads.sendRead hreading m).closed.symm.trans hclosed)
  | sent _ hoffer => exact .inl ((Channel.closed_of_offer hoffer).symm.trans hclosed)
  | forwarded _ hoffer =>
    rw [closed_forward] at hclosed
    exact .inl ((Channel.closed_of_offer hoffer).symm.trans hclosed)
  | forwardRefused =>
    rw [closed_forward] at hclosed
    exact .inl hclosed
  | gathered =>
    rw [closed_forward] at hclosed
    exact .inl hclosed
  | received _ hreceive => exact .inl ((Channel.closed_of_receive hreceive).symm.trans hclosed)
  | stopped => exact .inr rfl
  | _ => exact .inl hclosed

/-- A reader comes to its end when its read finds that there are no more messages, or when it is stopped. -/
theorem Effect.isOver (e : Effect p event reply p') (hclosed : p.channel.closed = true → p.control = .stopped)
    (hover : p'.reader.isOver = true) :
    p.reader.isOver = true ∨ event = .readReturns none ∨ p'.control = .stopped := by
  cases e with
  | joined =>
    rw [reader_stopIfForsaken] at hover
    exact .inl hover
  | cancelled =>
    rw [reader_stopIfForsaken] at hover
    exact .inl hover
  | released =>
    rw [reader_stopIfForsaken] at hover
    exact .inl hover
  | begun => cases hover
  | held => cases hover
  | left _ hstopped => exact .inr (.inr hstopped)
  | unpaused => cases hover
  | @read m =>
    refine .inr (.inr ((sendRead_keeps p m).1.trans (hclosed ?_)))
    rw [sendRead] at hover
    rcases hoffer : p.channel.offer m with ⟨answer, channel⟩
    rw [hoffer] at hover
    cases Channel.offer_spec hoffer with
    | accepted => cases hover
    | full => cases hover
    | closed hshut => exact hshut
  | exhausted => exact .inr (.inl rfl)
  | readCancelled _ hstopped => exact .inr (.inr hstopped)
  | sent => cases hover
  | refused _ hoffer =>
    cases Channel.offer_spec hoffer with
    | closed hshut => exact .inr (.inr (hclosed hshut))
  | forwarded hforwarding => exact .inl (by rw [hforwarding]; rfl)
  | forwardRefused hforwarding => exact .inl (by rw [hforwarding]; rfl)
  | gathered hleaving => exact .inl (by rw [hleaving]; rfl)
  | readerFinished hfinishing => exact .inl (by rw [hfinishing]; rfl)
  | _ => exact .inl hover

/-- A reader that has gathered what was left never reads again. -/
theorem Effect.gathered_stays (e : Effect p event reply p') (hgathered : p.reader.hasGathered = true) :
    p'.reader.hasGathered = true := by
  have of_phase {phase : ReaderPhase M} {q : Prop} (hphase : p.reader = phase)
      (hnot : phase.hasGathered = false) : q := by
    rw [hphase, hnot] at hgathered
    cases hgathered
  cases e with
  | joined => rwa [reader_stopIfForsaken]
  | cancelled => rwa [reader_stopIfForsaken]
  | released => rwa [reader_stopIfForsaken]
  | begun hphase => exact of_phase hphase rfl
  | held hphase => exact of_phase hphase rfl
  | left hphase => exact of_phase hphase rfl
  | unpaused hphase => exact of_phase hphase rfl
  | read hphase => exact of_phase hphase rfl
  | exhausted hphase => exact of_phase hphase rfl
  | readCancelled hphase => exact of_phase hphase rfl
  | sent hphase => exact of_phase hphase rfl
  | refused hphase => exact of_phase hphase rfl
  | forwarded => exact forward_hasGathered _ _
  | forwardRefused => exact forward_hasGathered _ _
  | gathered hphase => exact of_phase hphase rfl
  | readerFinished => rfl
  | _ => exact hgathered

theorem gathered_after (hgathered : p.reader.hasGathered = true) (events : List (Event M)) :
    (Schedule.after step p events).reader.hasGathered = true := by
  refine (Schedule.invariant (I := fun q : Processor M => q.reader.hasGathered = true) hgathered ?_ events).1
  intro q event reply q' k hstep
  exact (step_effect hstep).gathered_stays k

/-! ### The invariant -/

/-- A channel that is closed belongs to a processor that has been stopped. -/
def Shut (p : Processor M) : Prop := p.channel.closed = true → p.control = .stopped

theorem Shut.effect (k : Shut p) (e : Effect p event reply p') : Shut p' := by
  intro hclosed
  rcases e.closed hclosed with hbefore | hstopped
  · exact e.control_stopped (k hbefore)
  · exact hstopped

/-- What a processor has done since some event, if the control has not let its reader run. -/
structure Withheld (s : Happening M) (late : List (Happening M)) (p : Processor M) : Prop where
  control_ne : p.control ≠ .running
  shut : Shut p
  /-- A read in progress has stayed so, or has returned a message. -/
  reads_le : (results late).length + p.reader.reads ≤ s.after.reader.reads
  why_over : p.reader.isOver = true →
    s.after.reader.isOver = true ∨ (∃ o ∈ late, o.event = .readReturns none) ∨ p.control = .stopped

theorem Withheld.effect (k : Withheld s late p) (e : Effect p event reply p') (hresume : event.isResume = false) :
    Withheld s (late ++ [⟨p, event, reply, p'⟩]) p' where
  control_ne := e.control_ne_running hresume k.control_ne
  shut := k.shut.effect e
  reads_le := by
    have hbefore := k.reads_le
    have hreads := e.reads_le k.control_ne
    rw [results_snoc, List.length_append]
    show (results late).length + event.result.length + p'.reader.reads ≤ _
    omega
  why_over hover := by
    rcases e.isOver k.shut hover with hbefore | hnone | hstopped
    · rcases k.why_over hbefore with hstart | ⟨o, ho, hnone⟩ | hstopped
      · exact .inl hstart
      · exact .inr (.inl ⟨o, List.mem_append_left _ ho, hnone⟩)
      · exact .inr (.inr (e.control_stopped hstopped))
    · exact .inr (.inl ⟨_, List.mem_append_right _ List.mem_cons_self, hnone⟩)
    · exact .inr (.inr hstopped)

/-- A pause takes effect at once. -/
theorem Effect.of_pause (e : Effect p .pause reply p') : p'.control ≠ .running ∧ p'.reader = p.reader := by
  cases e with
  | paused => exact ⟨nofun, rfl⟩
  | ignored hwhy =>
    rcases hwhy with ⟨-, hcontrol⟩ | ⟨hnot, -⟩
    · exact ⟨hcontrol, rfl⟩
    · cases hnot

theorem shut (settings : ProcessorSettings) (events : List (Event M)) : Shut (afterEvents settings events) := by
  refine (Schedule.invariant (I := Shut) (fun hclosed => ?_) ?_ events).1
  · cases hclosed
  · exact fun _ _ _ _ k hstep => k.effect (step_effect hstep)

/-- From a pause to the next resumption the reader is withheld. -/
theorem withheld (hpaused : Effect s.before s.event s.reply s.after) (hpause : s.event = .pause)
    (hshut : Shut s.before) (events : List (Event M))
    (hlate : ∀ o ∈ Schedule.occurrences step s.after events, o.event.isResume = false) :
    Withheld s (Schedule.occurrences step s.after events) (Schedule.after step s.after events) := by
  have hcontrol := (Effect.of_pause (hpause ▸ hpaused)).1
  refine Schedule.induction (P := fun h p => (∀ o ∈ h, o.event.isResume = false) → Withheld s h p)
    (fun _ => ?_) ?_ events hlate
  · exact ⟨hcontrol, hshut.effect hpaused, Nat.le_of_eq (Nat.zero_add _), .inl⟩
  · intro h p event reply p' k hstep hall
    refine (k fun o ho => hall o (List.mem_append_left _ ho)).effect (step_effect hstep) ?_
    exact hall _ (List.mem_append_right _ List.mem_cons_self)

/-- From a pause to the next resumption no read begins. -/
theorem begins_no_read (hpaused : Effect s.before s.event s.reply s.after) (hpause : s.event = .pause)
    (hshut : Shut s.before) (events : List (Event M))
    (hlate : ∀ o ∈ Schedule.occurrences step s.after events, o.event.isResume = false) :
    ∀ o ∈ Schedule.occurrences step s.after events, ¬ BeginsRead o := by
  intro o ho
  obtain ⟨between, others, hmem⟩ := List.append_of_mem ho
  obtain ⟨first, -, hbetween, hstate, hstep, -⟩ := Schedule.split hmem
  have w := withheld hpaused hpause hshut first fun r hr => hlate r (hmem ▸ List.mem_append_left _ (hbetween ▸ hr))
  rw [hstate] at w
  exact (step_effect hstep).not_beginsRead w.control_ne

/-! ### The handler is not withheld -/

/-- The handler receives what is queued, one message after the other. -/
theorem serve (hreceiving : p.handler = .receiving) (ms : List M) (hmessages : p.channel.messages = ms) :
    let q := Schedule.after step p (serving ms.length)
    handedOn (Schedule.occurrences step p (serving ms.length)) = ms ∧ q.channel.messages = [] ∧
      q.control = p.control ∧ q.reader = p.reader ∧ q.read = p.read := by
  induction ms generalizing p with
  | nil => exact ⟨rfl, hmessages, rfl, rfl, rfl⟩
  | cons m rest ih =>
    rcases hreceive : p.channel.receive with _ | ⟨first, channel⟩
    · rw [p.channel.receive_eq_none.mp hreceive] at hmessages
      cases hmessages
    · rw [Channel.messages_of_receive hreceive] at hmessages
      obtain ⟨rfl, hrest⟩ := List.cons.inj hmessages
      let p₁ : Processor M := { p with channel, handled := p.handled + 1, handler := .handling first }
      have hfirst : p.step .receive = some (.quiet, p₁) := by simp only [step, hreceiving, hreceive, p₁]
      have hsecond : p₁.step (.handleReturns .continue) = some (.quiet, { p₁ with handler := .receiving }) := rfl
      obtain ⟨hhanded, hnone, hcontrol, hreader, hread⟩ := ih (p := { p₁ with handler := .receiving }) rfl hrest
      simp only [List.length_cons, serving, Schedule.occurrences, Schedule.after, hfirst, hsecond]
      refine ⟨?_, hnone, hcontrol, hreader, hread⟩
      rw [handedOn, List.flatMap_cons, List.flatMap_cons, ← handedOn, hhanded]
      rfl

/-- Whatever is queued can be handled, with no help from the reader and with nothing said to it. -/
theorem serve_queued (hlast : p.handler.isLast → p.channel.messages = []) :
    let more := .handleReturns .continue :: serving p.channel.messages.length
    let q := Schedule.after step p more
    handedOn (Schedule.occurrences step p more) = p.channel.messages ∧ q.channel.messages = [] ∧
      q.control = p.control ∧ q.reader = p.reader ∧ q.read = p.read := by
  by_cases hend : p.handler.isLast
  · have hnone : p.step (.handleReturns .continue) = none := by
      rcases HandlerPhase.isLast_iff.mp hend with hhandler | hhandler <;> simp only [step, hhandler]
    simp only [Schedule.occurrences, Schedule.after, hnone, hlast hend]
    exact ⟨rfl, hlast hend, rfl, rfl, rfl⟩
  · cases hhandler : p.handler with
    | receiving =>
      have hnone : p.step (.handleReturns .continue) = none := by simp only [step, hhandler]
      simp only [Schedule.occurrences, Schedule.after, hnone]
      exact serve hhandler _ rfl
    | handling m =>
      have hreturns : p.step (.handleReturns .continue) = some (.quiet, { p with handler := .receiving }) := by
        simp only [step, hhandler]
      simp only [Schedule.occurrences, Schedule.after, hreturns]
      exact serve (p := { p with handler := .receiving }) rfl _ rfl
    | finishing => exact absurd (by rw [hhandler]; trivial) hend
    | ended => exact absurd (by rw [hhandler]; trivial) hend

/-! ### The reader goes on -/

/-- After a resumption the reader sends the message that it holds, if any, and reads on. -/
theorem reading_of_resume (hpaused : p.control = .paused) (hhandles : p.handles ≠ 0) (hover : p.reader.isOver = false)
    (hroom : ∀ m, p.reader = .sending m → ∃ channel, p.channel.offer m = (.accepted, channel)) :
    (Schedule.after step p [.resume, .sendResumes, .unpause, .look]).reader = .reading := by
  have hresume : p.step .resume = some (.quiet, { p with control := .running }) := by
    simp only [step, if_neg hhandles, if_pos hpaused]
  simp only [Schedule.after, hresume]
  cases hreader : p.reader with
  | looking => simp [step, look]
  | paused => simp [step, look]
  | reading => simp [step]
  | sending m =>
    obtain ⟨channel, hoffer⟩ := hroom m hreader
    simp [step, hoffer, look]
  | leaving =>
    rw [hreader] at hover
    cases hover
  | forwarding m rest =>
    rw [hreader] at hover
    cases hover
  | finishing =>
    rw [hreader] at hover
    cases hover
  | ended =>
    rw [hreader] at hover
    cases hover

/-! ### A pause -/

/-- A reader that has not gathered what was left has counted all messages that it holds. -/
theorem tail_held_of_ungathered {phase : ReaderPhase M} (hungathered : phase.hasGathered = false) :
    phase.held.tail = [] := by
  cases phase with
  | forwarding => cases hungathered
  | _ => rfl

theorem length_intake_split (hresult : s.event.result = []) (hleftover : s.event.leftover = []) :
    (intake (early ++ s :: late)).length =
      (intake early).length + (results late).length + (leftovers late).length := by
  simp only [intake, results, leftovers, List.flatMap_append, List.flatMap_cons, hresult, hleftover, List.nil_append,
    List.length_append]
  omega

/-- As long as the reader has not gathered what was left, it counts what its reads return. -/
theorem read_eq_of_ungathered (a : Accounted capacity early s.before) (a' : Accounted capacity (early ++ s :: late) p)
    (hresult : s.event.result = []) (hbefore : s.before.reader.hasGathered = false)
    (hafter : p.reader.hasGathered = false) : p.read = s.before.read + (results late).length := by
  have hread := a.read
  have hread' := a'.read
  have hnone := a'.ungathered hafter
  rw [leftovers, List.flatMap_append, List.flatMap_cons] at hnone
  obtain ⟨-, hnone⟩ := List.append_eq_nil_iff.mp hnone
  obtain ⟨hleftover, hnone⟩ := List.append_eq_nil_iff.mp hnone
  have hnone : leftovers late = [] := hnone
  rw [tail_held_of_ungathered hbefore] at hread
  rw [tail_held_of_ungathered hafter, length_intake_split hresult hleftover, hnone] at hread'
  simp only [List.length_nil] at hread hread'
  omega

/-- From a pause to the next resumption no read begins, and a message is returned at most by the read that was in
progress. The counter of the messages read grows by this one, and by those that the reader hands on when its end has
come: before the pause, or because the read returned that there are no more messages, or because the processor has been
stopped. What is queued can be handled meanwhile. After a resumption the reader reads on, if it has room for what it
holds, and in the whole history no message is skipped. -/
theorem read_while_paused (settings : ProcessorSettings) (events : List (Event M)) {early late : List (Happening M)}
    {s : Happening M} (hsplit : happenings settings events = early ++ s :: late) (hpause : s.event = .pause)
    (hlate : ∀ o ∈ late, o.event.isResume = false) :
    let p := afterEvents settings events
    (∀ o ∈ late, ¬ BeginsRead o) ∧
      (results late).length ≤ 1 ∧ (results late ≠ [] → s.before.reader = .reading) ∧
      p.read + p.reader.held.tail.length =
        s.before.read + s.before.reader.held.tail.length + (results late).length + (leftovers late).length ∧
      (p.reader.hasGathered = false → p.read = s.before.read + (results late).length) ∧
      (p.reader.isOver = true →
        s.before.reader.isOver = true ∨ (∃ o ∈ late, o.event = .readReturns none) ∨ p.control = .stopped) ∧
      (let more := .handleReturns .continue :: serving p.channel.messages.length
        let q := Schedule.after step p more
        handedOn (Schedule.occurrences step p more) = p.channel.messages ∧ q.channel.messages = [] ∧
          q.control = p.control ∧ q.reader = p.reader ∧ q.read = p.read) ∧
      (p.control = .paused → p.handles ≠ 0 → p.reader.isOver = false →
        (∀ m, p.reader = .sending m → ∃ channel, p.channel.offer m = (.accepted, channel)) →
        (Schedule.after step p [.resume, .sendResumes, .unpause, .look]).reader = .reading) ∧
      ∀ more, let h := happenings settings (events ++ more)
        handedOn h <+: intake h ∧ ((∀ o ∈ h, o.event.stops = false) →
          intake h = handedOn h ++ (afterEvents settings (events ++ more)).underway) := by
  intro p
  obtain ⟨first, rest, hearly, hbefore, hstep, hrest, hend⟩ := Schedule.split_after hsplit
  have hend : Schedule.after step s.after rest = p := hend
  have e : Effect s.before s.event s.reply s.after := step_effect hstep
  have hreader : s.after.reader = s.before.reader := (Effect.of_pause (hpause ▸ e)).2
  have hshut : Shut s.before := hbefore ▸ shut settings first
  have w : Withheld s late p := by
    have w := withheld e hpause hshut rest (hrest.symm ▸ hlate)
    rwa [hrest, hend] at w
  have a : Accounted settings.capacity (early ++ s :: late) p := hsplit ▸ accounted settings events
  have a₀ : Accounted settings.capacity early s.before := hearly ▸ hbefore ▸ accounted settings first
  have hreads := w.reads_le
  rw [hreader] at hreads
  have hle := s.before.reader.reads_le_one
  have hintake : (intake (early ++ s :: late)).length =
      (intake early).length + (results late).length + (leftovers late).length :=
    length_intake_split (by rw [hpause]; rfl) (by rw [hpause]; rfl)
  have hread := a.read
  have hread₀ := a₀.read
  refine ⟨?_, by omega, fun hsome => ?_, by omega, fun hungathered => ?_, fun hover => ?_, ?_, ?_, fun more => ?_⟩
  · rw [← hrest] at hlate ⊢
    exact begins_no_read e hpause hshut rest hlate
  · have hpos := List.length_pos_iff.mpr hsome
    exact ReaderPhase.eq_reading (by omega)
  · refine read_eq_of_ungathered a₀ a (by rw [hpause]; rfl) ?_ hungathered
    -- A reader that had gathered before would have done so now.
    refine Bool.eq_false_iff.mpr fun hgathered => ?_
    rw [← hreader] at hgathered
    have hstays := gathered_after hgathered rest
    rw [hend] at hstays
    cases hungathered.symm.trans hstays
  · rw [← hreader]
    exact w.why_over hover
  · exact serve_queued fun hlast => (a.gone hlast).1
  · exact reading_of_resume
  · have a' := accounted settings (events ++ more)
    exact ⟨a'.order, fun hgo => a'.flowing (a'.open_of_going hgo)⟩

/-- A schedule with a pause during a read, which returns a message later. -/
def pausedInRead : List (Event Nat) :=
  [.look, .readReturns (some 1), .look, .pause, .readReturns (some 2), .look, .receive]

theorem read_while_paused_pausedInRead :
    let h := happenings ⟨2⟩ pausedInRead
    ∃ early s late, h = early ++ s :: late ∧ s.event = .pause ∧ (∀ o ∈ late, o.event.isResume = false) ∧
      results late = [2] ∧ s.before.reader = .reading ∧
      (afterEvents ⟨2⟩ pausedInRead).read = s.before.read + (results late).length := by
  intro h
  have hsplit : h = h.take 3 ++ h[3] :: h.drop 4 := rfl
  have hlate : ∀ o ∈ h.drop 4, o.event.isResume = false := by decide
  have hresults : results (h.drop 4) = [2] := rfl
  obtain ⟨-, -, hreading, -, hread, -⟩ := read_while_paused ⟨2⟩ pausedInRead hsplit rfl hlate
  exact ⟨_, _, _, hsplit, rfl, hlate, hresults, hreading (by rw [hresults]; nofun), hread rfl⟩

/-- A schedule in which the reader is handing on what it had accepted when the pause comes. -/
def pendingWhilePaused : List (Event Nat) :=
  [.look, .readReturns none, .takePending [1, 2, 3, 4], .pause, .receive, .sendResumes, .handleReturns .continue,
    .receive, .sendResumes]

/-- In a pause the counter of the messages read can grow by more than one, with no read in progress. -/
theorem read_pendingWhilePaused :
    ∃ early s late, happenings ⟨1⟩ pendingWhilePaused = early ++ s :: late ∧ s.event = .pause ∧
      s.before.control = .running ∧ s.before.reader.reads = 0 ∧
      (∀ o ∈ late, o.event.isResume = false ∧ o.event.stops = false) ∧
      (afterEvents ⟨1⟩ pendingWhilePaused).control = .paused ∧
      s.before.read + 1 < (afterEvents ⟨1⟩ pendingWhilePaused).read := by
  let h := happenings ⟨1⟩ pendingWhilePaused
  have hsplit : h = h.take 3 ++ h[3] :: h.drop 4 := rfl
  exact ⟨_, _, _, hsplit, rfl, rfl, rfl, by decide, rfl, by decide⟩

end Processor

end Sluice
