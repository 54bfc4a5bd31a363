import Sluice.Proofs.Delivery.Rousing
import Sluice.Proofs.Schedule

/-!
# No wake-up is lost

A wake-up reaches a reader that waits, or else is kept for its next wait, and one permit stands for all that are kept.
Single events do not show what the permit is good for, since the reader looks at the queue and begins to wait at one
stroke. But the state of a deliverer stands behind a lock and the wake-ups do not: a call lets go of the lock before it
wakes the reader, and the reader lets go of it before it waits. `Interleaving` cuts both there. A call may `commit` and
`notify` later, the reader may `find` and `pursue` later, and whatever else can happen may happen between. Put together
again, the two parts of a look are the look (`ask_eq`), and each schedule of whole events is one of those considered
(`after_events`).

The invariant is `Heedful`. If the reader waits or is about to, then there is a permit, or a call has still to notify,
or the deliverer is not stopped and, if the reader found nothing, there is nothing still. And a reader that does wait
has left no permit. So when nobody can go on, a reader that waits for work has none to do (`idle_only_without_work`).
-/

namespace Sluice

open Fair (Sound)

namespace Deliverer

variable {ρ : Type} {d d' : Deliverer ρ}

/-! ### The look at the queue, cut -/

/-- What the reader finds when it looks for a resource. -/
inductive Finding (ρ : Type) where
  | stopped
  | nothing
  /-- The limiter may admit the resource that comes first after a while. -/
  | early (wait : Nat)
  | ready (delivery : Delivery ρ)

/-- Whether the reader waits for what it has found. -/
def Finding.waits : Finding ρ → Bool
  | .nothing => true
  | .early _ => true
  | _ => false

/-- Whether the reader has found that there is nothing. -/
def Finding.isNothing : Finding ρ → Bool
  | .nothing => true
  | _ => false

/-- The reader looks for a resource: it is taken out of the queue if the limiter admits it, and recorded. -/
def find (d : Deliverer ρ) : Finding ρ × Deliverer ρ :=
  if d.stopped then (.stopped, d)
  else
    let (next, queue) := d.queue.peek
    match next with
    | none => (.nothing, { d with queue })
    | some (_, size) =>
      let (wait, limiter) := d.limiter.waitTime size d.clock
      if 0 < wait then (.early wait, { d with queue, limiter })
      else
        match queue.pop with
        | (none, queue) => (.nothing, { d with queue, limiter })
        | (some delivery, queue) =>
          (.ready delivery, { d with queue, limiter := limiter.record delivery.size d.clock })

/-- The read returns with what it has found, or waits for it. -/
def pursue (d : Deliverer ρ) : Finding ρ → Deliverer ρ
  | .stopped => d.proceed (.readReturns none)
  | .nothing => d.park .idle
  | .early wait => d.park (.limited (d.now + wait) false)
  | .ready delivery => d.proceed (.readReturns (some delivery))

/-- A look at the queue is both, at one stroke. -/
theorem ask_eq (d : Deliverer ρ) : d.ask = d.find.2.pursue d.find.1 := by
  rw [ask, find]
  split
  · rfl
  · rcases hpeek : d.queue.peek with ⟨next, queue⟩
    cases next with
    | none => rfl
    | some head =>
      obtain ⟨t, size⟩ := head
      rcases hwait : d.limiter.waitTime size d.clock with ⟨wait, limiter⟩
      have hwait' : ({ d with queue } : Deliverer ρ).limiter.waitTime size
          ({ d with queue } : Deliverer ρ).clock = (wait, limiter) := hwait
      simp only [hwait', hwait]
      split
      · rfl
      · rcases hpop : queue.pop with ⟨taken, queue'⟩
        cases taken with
        | none => rfl
        | some delivery => rfl

/-- What is known when the reader has looked for a resource. -/
structure Looked (d : Deliverer ρ) (finding : Finding ρ) (d' : Deliverer ρ) : Prop where
  search : d'.search = d.search
  sound : Sound d'.queue
  going : finding.waits = true → d'.stopped = false
  empty : finding.isNothing = true → d'.queue.pending = 0

/-- The reader waits only if the deliverer is not stopped, and waits for work only if there is none. -/
theorem looked_find (hsound : Sound d.queue) : Looked d d.find.1 d.find.2 := by
  rw [find]
  split
  · exact ⟨rfl, hsound, nofun, nofun⟩
  · next hgoing =>
    have hstopped : d.stopped = false := Bool.eq_false_iff.mpr hgoing
    rcases hpeek : d.queue.peek with ⟨next, queue⟩
    have hqueue : Sound queue := hsound.of_step ((d.queue.step_peek Fair.cost).trans (by rw [hpeek]))
    cases next with
    | none =>
      have hnone : queue.peek.1 = none := by
        have hagain := hsound.peek_peek
        rw [hpeek] at hagain
        exact hagain
      exact ⟨rfl, hqueue, fun _ => hstopped, fun _ => hqueue.pending_eq_zero.mpr hnone⟩
    | some head =>
      obtain ⟨t, size⟩ := head
      rcases hwait : d.limiter.waitTime size d.clock with ⟨wait, limiter⟩
      simp only [hwait]
      split
      · exact ⟨rfl, hqueue, fun _ => hstopped, nofun⟩
      · obtain ⟨delivery, queue', hpop, -⟩ := hsound.pop_of_peek hpeek
        rw [hpop]
        exact ⟨rfl, hqueue.of_step (FairQueue.step_pop hpop), nofun, nofun⟩

/-! ### The calls that wake the reader, cut -/

section

variable [Resource ρ] {event : Event ρ}

/-- What a call that wakes the reader does before it lets go of the lock, provided that it gets to wake the reader. A
call that stops the deliverer waits for the end after that, as it does if the deliverer was stopped before. -/
def commit (d : Deliverer ρ) : Event ρ → Option (Deliverer ρ)
  | .submit target resource =>
    if d.hasHandle && !d.stopped then
      (d.queue.push target resource).toOption.map fun queue => { d with queue }
    else none
  | .setLimit limit =>
    if d.hasHandle then (d.limiter.setLimit limit).toOption.map fun limiter => { d with limiter } else none
  | .stop _ => if d.hasHandle && !d.stopped then some { d with stopped := true } else none
  | _ => none

/-- The ways in which a call can change the state before it wakes the reader. -/
inductive Commit (d : Deliverer ρ) : Event ρ → Deliverer ρ → Prop
  | submitted {t : TargetId} {resource : ρ} {queue : FairQueue ρ} :
      d.hasHandle = true → d.stopped = false → d.queue.push t resource = .ok queue →
      Commit d (.submit t resource) { d with queue }
  | limited {limit : Option Nat} {limiter : Limiter} :
      d.hasHandle = true → d.limiter.setLimit limit = .ok limiter →
      Commit d (.setLimit limit) { d with limiter }
  | stopped {call : CallId} :
      d.hasHandle = true → d.stopped = false → Commit d (.stop call) { d with stopped := true }

omit [Resource ρ] in
theorem toOption_map_eq_some {α β ε : Type} {f : α → β} {result : Except ε α} {b : β}
    (h : result.toOption.map f = some b) : ∃ a, result = .ok a ∧ b = f a := by
  cases result with
  | ok a =>
    cases h
    exact ⟨a, rfl, rfl⟩
  | error e => cases h

theorem commit_cases (h : d.commit event = some d') : Commit d event d' := by
  cases event with
  | submit t resource =>
    simp only [commit] at h
    split at h
    · next hgoing =>
      obtain ⟨hhandle, hstopped⟩ := Bool.and_eq_true_iff.mp hgoing
      obtain ⟨queue, hpush, rfl⟩ := toOption_map_eq_some h
      exact .submitted hhandle (by simpa using hstopped) hpush
    · cases h
  | setLimit limit =>
    simp only [commit] at h
    split at h
    · next hhandle =>
      obtain ⟨limiter, hset, rfl⟩ := toOption_map_eq_some h
      exact .limited hhandle hset
    · cases h
  | stop call =>
    simp only [commit] at h
    split at h
    · next hgoing =>
      obtain ⟨hhandle, hstopped⟩ := Bool.and_eq_true_iff.mp hgoing
      cases h
      exact .stopped hhandle (by simpa using hstopped)
    · cases h
  | _ => cases h

theorem Commit.commits (c : Commit d event d') : Commits d d' := by
  cases c with
  | submitted _ _ hpush => exact ⟨rfl, rfl, rfl, .push hpush⟩
  | limited => exact ⟨rfl, rfl, rfl, .same⟩
  | stopped => exact ⟨rfl, rfl, rfl, .same⟩

end

/-! ### Interleavings -/

/-- A deliverer while nobody has its lock. -/
structure Interleaving (ρ : Type) where
  deliverer : Deliverer ρ
  /-- What the reader has found and not yet pursued. -/
  finding : Option (Finding ρ) := none
  /-- How many calls have changed the state and not yet woken the reader. -/
  notices : Nat := 0

/-- What can happen to it next. -/
inductive Move (ρ : Type) where
  /-- An event that is not cut. -/
  | event (event : Event ρ)
  /-- A call changes the state, and will wake the reader. -/
  | commit (event : Event ρ)
  /-- One of these calls wakes the reader. -/
  | notify
  /-- The read in progress looks for a resource. -/
  | find
  /-- It returns, or begins to wait. -/
  | pursue

namespace Interleaving

variable {r r' : Interleaving ρ}

section

variable [Resource ρ]

/-- What happens, if it can. A reader that has found something does nothing else before it pursues that. -/
def step (r : Interleaving ρ) : Move ρ → Option (Reply ρ × Interleaving ρ)
  | .event event =>
    if event.isReaders && r.finding.isSome then none
    else (r.deliverer.step event).map fun (reply, deliverer) => (reply, { r with deliverer })
  | .commit event =>
    (r.deliverer.commit event).map fun deliverer =>
      (.quiet, { r with deliverer, notices := r.notices + 1 })
  | .notify =>
    if r.notices = 0 then none
    else some (.quiet, { r with deliverer := r.deliverer.wake, notices := r.notices - 1 })
  | .find =>
    match r.finding, r.deliverer.isReading, r.deliverer.search with
    | none, true, .asking =>
      let (finding, deliverer) := r.deliverer.find
      some (.quiet, { r with deliverer, finding := some finding })
    | _, _, _ => none
  | .pursue =>
    r.finding.map fun finding =>
      (.quiet, { r with deliverer := r.deliverer.pursue finding, finding := none })

/-- The state after the moves of a schedule that are possible in their turn. -/
def after (r : Interleaving ρ) (moves : List (Move ρ)) : Interleaving ρ := Schedule.after step r moves

/-- Whether neither a task nor a call can go on before something comes from outside. -/
def isSettled (r : Interleaving ρ) : Bool :=
  r.finding.isNone && r.notices == 0 && r.deliverer.isSettled

/-- A schedule of whole events is one without cuts. -/
theorem after_events (d : Deliverer ρ) (events : List (Event ρ)) :
    after ⟨d, none, 0⟩ (events.map .event) = ⟨d.after events, none, 0⟩ := by
  induction events generalizing d with
  | nil => rfl
  | cons event events ih =>
    have hstep : step ⟨d, none, 0⟩ (.event event) =
        (d.step event).map fun (reply, d') => (reply, ⟨d', none, 0⟩) := by
      simp only [step, Option.isSome_none, Bool.and_false, Bool.false_eq_true, if_false]
    rw [List.map_cons, after, Schedule.after, hstep, Deliverer.after]
    cases d.step event with
    | none => exact ih d
    | some result => exact ih result.2

end

/-! ### What the reader heeds -/

/-- Whether the reader waits and has not been woken, or is about to wait. -/
def isDormant (r : Interleaving ρ) : Bool :=
  match r.finding with
  | some finding => finding.waits
  | none => r.deliverer.search.isDormant

/-- Whether it waits for nothing but a wake-up, or is about to. -/
def isIdle (r : Interleaving ρ) : Bool :=
  match r.finding with
  | some finding => finding.isNothing
  | none => r.deliverer.search.isIdle

/-- A reader that waits, or is about to, will be woken if there is something to do. -/
structure Heedful (r : Interleaving ρ) : Prop where
  sound : Sound r.deliverer.queue
  /-- A reader that waits has left no permit. -/
  unpermitted : Dormant r.deliverer → r.deliverer.permit = false
  asking : r.finding.isSome = true → r.deliverer.search = .asking
  heeds : r.deliverer.isReading = true → r.isDormant = true → r.deliverer.permit = false → r.notices = 0 →
    r.deliverer.stopped = false ∧ (r.isIdle = true → r.deliverer.queue.pending = 0)

namespace Heedful

/-- A reader that is about to look misses nothing. -/
theorem of_asking (hsound : Sound d.queue) (hasking : d.search = .asking) (notices : Nat) :
    Heedful ⟨d, none, notices⟩ where
  sound := hsound
  unpermitted hdormant := absurd hdormant (not_dormant_of_asking hasking)
  asking hsome := nomatch hsome
  heeds hreading hdormant := absurd ⟨hreading, hdormant⟩ (not_dormant_of_asking hasking)

theorem rests (x : Heedful r) (u : Rests r.deliverer d') : Heedful { r with deliverer := d' } where
  sound := u.queue.sound x.sound
  unpermitted hdormant := by
    have hbefore : r.deliverer.search.isDormant = true := by
      rw [← u.search]
      exact hdormant.2
    exact u.permit.trans (x.unpermitted ⟨u.reading hdormant.1, hbefore⟩)
  asking hsome := u.search.trans (x.asking hsome)
  heeds hreading hdormant hpermit hnotices := by
    have hsame : ({ r with deliverer := d' } : Interleaving ρ).isDormant = r.isDormant := by
      rw [isDormant, isDormant, u.search]
    have hidle : ({ r with deliverer := d' } : Interleaving ρ).isIdle = r.isIdle := by
      rw [isIdle, isIdle, u.search]
    obtain ⟨hstopped, hempty⟩ := x.heeds (u.reading hreading) (hsame ▸ hdormant)
      (u.permit.symm.trans hpermit) hnotices
    refine ⟨u.stopped.trans hstopped, fun h => ?_⟩
    have hle := u.queue.pending_le x.sound
    rw [hempty (hidle ▸ h)] at hle
    exact Nat.le_zero.mp hle

/-- A wake-up is heeded now, or there is a permit. -/
theorem roused [Resource ρ] {d₁ : Deliverer ρ} (x : Heedful r) (c : Commits r.deliverer d₁)
    (k : Passes d₁.wake d')
    (notices : Nat) : Heedful { r with deliverer := d', notices } := by
  have hawake : ¬ Dormant d' := mt k.dormant (not_dormant_wake d₁)
  have hpermitted : r.finding.isSome = true → d'.search = .asking ∧ d'.permit = true := by
    intro hsome
    obtain ⟨⟨processor, rfl⟩, -⟩ := k
    have hasking : d₁.search = .asking := c.search.trans (x.asking hsome)
    rw [wake_of_asking hasking]
    exact ⟨hasking, rfl⟩
  refine ⟨?_, fun hdormant => absurd hdormant hawake, fun hsome => (hpermitted hsome).1, ?_⟩
  · show Sound d'.queue
    rw [k.queue]
    exact c.queue.sound x.sound
  · intro hreading hdormant hpermit _
    cases hfinding : r.finding with
    | none =>
      rw [isDormant, hfinding] at hdormant
      exact absurd ⟨hreading, hdormant⟩ hawake
    | some finding =>
      have hpermit' := (hpermitted (by rw [hfinding]; rfl)).2
      cases hpermit.symm.trans hpermit'

/-- A reader that parks looks again if it has a permit. -/
theorem park {finding : Finding ρ} {search : Search} (x : Heedful r) (hfinding : r.finding = some finding)
    (hwaits : finding.waits = true) (hidle : search.isIdle = true → finding.isNothing = true) :
    Heedful { r with deliverer := r.deliverer.park search, finding := none } := by
  rw [Deliverer.park]
  split
  · exact of_asking (d := { r.deliverer with permit := false, search := .asking }) x.sound rfl r.notices
  · next hpermit =>
    have hpermit : r.deliverer.permit = false := Bool.eq_false_iff.mpr hpermit
    refine ⟨x.sound, fun _ => hpermit, fun hsome => absurd hsome Bool.false_ne_true,
      fun hreading _ _ hnotices => ?_⟩
    have hdormant : r.isDormant = true := by
      rw [isDormant, hfinding]
      exact hwaits
    obtain ⟨hstopped, hempty⟩ := x.heeds hreading hdormant hpermit hnotices
    refine ⟨hstopped, fun h => hempty ?_⟩
    rw [isIdle, hfinding]
    exact hidle h

/-- The reader returns with what it has found, or waits for it. -/
theorem pursue {finding : Finding ρ} (x : Heedful r) (hfinding : r.finding = some finding) :
    Heedful { r with deliverer := r.deliverer.pursue finding, finding := none } := by
  -- A read that returns leaves the reader asking.
  have returns : ∀ message : Option (Delivery ρ),
      Heedful ⟨r.deliverer.proceed (.readReturns message), none, r.notices⟩ := by
    intro message
    have hasking : r.deliverer.search = .asking := x.asking (by rw [hfinding]; rfl)
    obtain ⟨⟨processor, hproceed⟩, -⟩ := Passes.proceed (d := r.deliverer) (.readReturns message) nofun
    rw [hproceed]
    exact of_asking (d := { r.deliverer with processor }) x.sound hasking r.notices
  cases finding with
  | stopped => exact returns none
  | nothing => exact x.park hfinding rfl fun _ => rfl
  | early wait => exact x.park hfinding rfl nofun
  | ready delivery => exact returns (some delivery)

theorem find (x : Heedful r) (hasking : r.deliverer.search = .asking) :
    Heedful { r with deliverer := r.deliverer.find.2, finding := some r.deliverer.find.1 } := by
  have k := looked_find x.sound
  have hsearch : r.deliverer.find.2.search = .asking := k.search.trans hasking
  exact ⟨k.sound, fun hdormant => absurd hdormant (not_dormant_of_asking hsearch), fun _ => hsearch,
    fun _ hwaits _ _ => ⟨k.going hwaits, k.empty⟩⟩

/-- An event that is not a look at the queue. -/
theorem bearing [Resource ρ] {event : Event ρ} (x : Heedful r) (hfree : event.isReaders = true → r.finding = none)
    (b : Bearing r.deliverer event d') : Heedful { r with deliverer := d' } := by
  cases b with
  | rests u => exact x.rests u
  | roused c k => exact x.roused c k r.notices
  | turned hreaders hasking hqueue =>
    rw [hfree hreaders]
    exact of_asking (hqueue ▸ x.sound) hasking r.notices
  | parted hnot hsearch hqueue =>
    refine ⟨hqueue ▸ x.sound, fun hdormant => ?_, fun hsome => hsearch.trans (x.asking hsome), fun hreading => ?_⟩
    · cases hnot.symm.trans hdormant.1
    · cases hnot.symm.trans hreading

/-- A call that has still to wake the reader excuses everything. -/
theorem commit [Resource ρ] (x : Heedful r) (c : Commits r.deliverer d') :
    Heedful { r with deliverer := d', notices := r.notices + 1 } where
  sound := c.queue.sound x.sound
  unpermitted hdormant := c.permit.trans (x.unpermitted (c.dormant hdormant))
  asking hsome := c.search.trans (x.asking hsome)
  heeds _ _ _ hnotices := absurd hnotices (Nat.succ_ne_zero _)

variable [Resource ρ]

/-- A whole event. A look at the queue is taken in its two parts. -/
theorem event {event : Event ρ} {reply : Reply ρ} (x : Heedful r)
    (hfree : event.isReaders = true → r.finding = none)
    (hevent : r.deliverer.step event = some (reply, d')) : Heedful { r with deliverer := d' } := by
  cases hasks : event.asks with
  | false => exact x.bearing hfree ((step_effect hevent).bearing hasks)
  | true =>
    obtain rfl : event = .ask := by
      cases event with
      | ask => rfl
      | _ => cases hasks
    simp only [Deliverer.step] at hevent
    split at hevent
    · next hasking =>
      cases hevent
      rw [ask_eq, hfree rfl]
      exact (x.find hasking).pursue rfl
    · cases hevent

/-- What the reader heeds before a move, it heeds after it. -/
theorem step {move : Move ρ} {reply : Reply ρ} (x : Heedful r) (hstep : r.step move = some (reply, r')) :
    Heedful r' := by
  cases move with
  | event event =>
    simp only [Interleaving.step] at hstep
    split at hstep
    · cases hstep
    · next hguard =>
      obtain ⟨⟨reply', d'⟩, hevent, heq⟩ := Option.map_eq_some_iff.mp hstep
      cases heq
      have hfree : event.isReaders = true → r.finding = none := by
        intro hreaders
        rw [hreaders, Bool.true_and, Option.not_isSome_iff_eq_none] at hguard
        exact hguard
      exact x.event hfree hevent
  | commit event =>
    obtain ⟨d', hcommit, heq⟩ := Option.map_eq_some_iff.mp hstep
    cases heq
    exact x.commit (commit_cases hcommit).commits
  | notify =>
    simp only [Interleaving.step] at hstep
    split at hstep
    · cases hstep
    · cases hstep
      exact x.roused (.refl r.deliverer) ⟨⟨_, rfl⟩, id⟩ _
  | find =>
    simp only [Interleaving.step] at hstep
    split at hstep
    · next hfinding hreading hasking =>
      cases hstep
      exact x.find hasking
    · cases hstep
  | pursue =>
    obtain ⟨finding, hfinding, heq⟩ := Option.map_eq_some_iff.mp hstep
    cases heq
    exact x.pursue hfinding

end Heedful

theorem heedful_after [Resource ρ] (settings : DelivererSettings) (moves : List (Move ρ)) :
    Heedful (after ⟨Deliverer.ofSettings settings, none, 0⟩ moves) :=
  (Schedule.invariant (I := Heedful) (.of_asking (.ofSettings settings.queue) rfl 0)
    (fun _ _ _ _ x hstep => x.step hstep) moves).1

end Interleaving

/-! ### Nothing to wait for -/

/-- There is nothing for the reader to do: nothing waits for any target, and the deliverer is not stopped. -/
structure LacksWork (d : Deliverer ρ) : Prop where
  empty : d.queue.pending = 0
  backlogs : ∀ t n, d.pendingOf t = some n → n = 0
  going : d.stopped = false

variable [Resource ρ]

/-- A reader that waits for work has none when it has found nothing, left no permit and nobody is to wake it. -/
theorem Interleaving.Heedful.lacksWork {r : Interleaving ρ} (x : r.Heedful) (hsettled : r.isSettled = true)
    (hreading : r.deliverer.isReading = true) (hidle : r.deliverer.search = .idle) :
    LacksWork r.deliverer := by
  obtain ⟨hquiet, -⟩ := Bool.and_eq_true_iff.mp hsettled
  obtain ⟨hnone, hnotices⟩ := Bool.and_eq_true_iff.mp hquiet
  have hfinding : r.finding = none := Option.isNone_iff_eq_none.mp hnone
  have hpermit : r.deliverer.permit = false := x.unpermitted ⟨hreading, by rw [hidle]; rfl⟩
  obtain ⟨hgoing, hempty⟩ := x.heeds hreading (by rw [isDormant, hfinding, hidle]; rfl) hpermit
    (beq_iff_eq.mp hnotices)
  have hzero := hempty (by rw [isIdle, hfinding, hidle]; rfl)
  refine ⟨hzero, fun t n ht => ?_, hgoing⟩
  have hle := FairQueue.pendingOf_le_pending x.sound ht
  omega

/-- **No wake-up is lost.** Whatever the schedule, whether calls and looks at the queue happen at one stroke or are
cut where the lock is let go: when neither a task nor a call can go on before something comes from outside and the
reader waits for work, then nothing is queued for any target and the deliverer has not been stopped. -/
theorem idle_only_without_work (settings : DelivererSettings) :
    (∀ events : List (Event ρ),
      let d := (ofSettings settings).after events
      d.isSettled = true → d.isReading = true → d.search = .idle → LacksWork d) ∧
    ∀ moves : List (Move ρ),
      let r := Interleaving.after ⟨ofSettings settings, none, 0⟩ moves
      r.isSettled = true → r.deliverer.isReading = true → r.deliverer.search = .idle → LacksWork r.deliverer := by
  refine ⟨fun events => ?_, fun moves => (Interleaving.heedful_after settings moves).lacksWork⟩
  have x := Interleaving.heedful_after settings (events.map .event)
  rw [Interleaving.after_events] at x
  exact x.lacksWork

/-- A schedule of whole events in which the reader uses up a permit before it waits. -/
def permitted : List (Event (List UInt8)) :=
  [.addTarget ⟨1⟩ ⟨0x3f800000⟩, .submit ⟨1⟩ [1], .look, .ask, .receive, .enter .handler,
    .deliverReturns .accepted, .look, .ask, .ask]

/-- A schedule in which two resources are queued when the reader has found nothing and does not wait yet. The first
wake-up is a permit that it finds then, and the second one comes while it takes out a resource, so that it looks once
too often at the end. -/
def overlapping : List (Move (List UInt8)) :=
  [.event (.addTarget ⟨1⟩ ⟨0x3f800000⟩), .event .look, .find, .commit (.submit ⟨1⟩ [1]),
    .commit (.submit ⟨1⟩ [2]), .notify, .pursue, .find, .notify, .pursue,
    .event .receive, .event (.enter .handler), .event (.deliverReturns .accepted),
    .event .look, .find, .pursue,
    .event .receive, .event (.enter .handler), .event (.deliverReturns .accepted),
    .event .look, .find, .pursue, .find, .pursue]

theorem idle_only_without_work_overlapping :
    let d := (ofSettings .small).after permitted
    let r := Interleaving.after ⟨ofSettings .small, none, 0⟩ overlapping
    (d.isSettled = true ∧ d.isReading = true ∧ d.search = .idle ∧ d.deliveredResources = 1 ∧ LacksWork d) ∧
      r.isSettled = true ∧ r.deliverer.isReading = true ∧ r.deliverer.search = .idle ∧
      r.deliverer.deliveredResources = 2 ∧ LacksWork r.deliverer := by
  intro d r
  have hevents : d.isSettled = true ∧ d.isReading = true ∧ d.search = .idle ∧ d.deliveredResources = 1 := by
    decide +kernel
  have hmoves : r.isSettled = true ∧ r.deliverer.isReading = true ∧ r.deliverer.search = .idle ∧
      r.deliverer.deliveredResources = 2 := by
    decide +kernel
  obtain ⟨hsettled, hreading, hidle, hdelivered⟩ := hevents
  obtain ⟨hsettled', hreading', hidle', hdelivered'⟩ := hmoves
  obtain ⟨hwhole, hcut⟩ := idle_only_without_work (ρ := List UInt8) .small
  exact ⟨⟨hsettled, hreading, hidle, hdelivered, hwhole permitted hsettled hreading hidle⟩,
    hsettled', hreading', hidle', hdelivered', hcut overlapping hsettled' hreading' hidle'⟩

/-- A call that has still to wake the reader leaves it waiting beside a resource. -/
example :
    let r := Interleaving.after ⟨ofSettings .small, none, 0⟩
      [.event (.addTarget ⟨1⟩ ⟨0x3f800000⟩), .event .look, .find,
        .commit (.submit ⟨1⟩ ([1] : List UInt8)), .pursue]
    r.deliverer.search = .idle ∧ r.deliverer.queue.pending = 1 ∧ r.isSettled = false := by
  decide +kernel

end Deliverer

end Sluice
