import Sluice.Proofs.Delivery.Pace
import Sluice.Proofs.Delivery.Removal
import Sluice.Proofs.Delivery.Rousing
import Sluice.Proofs.Rate.Waiting

/-!
# The reader does not sleep longer than it has to

The reader that finds its resource too early for the limiter sleeps until the limiter may admit it. While it
sleeps, targets come and go, priorities change, resources are queued, and the limit may be raised. A submission
and a change of the limit wake the reader, and it asks again. `no_avoidable_sleep` says that for the rest it does
not matter, with one exception: as long as the target that the reader asked about last stays registered, the
resource is the next one still and the limiter does not admit it.

The exception is real. Nobody wakes the reader when that target is taken out. What comes first then may be small
enough to pass at once, and the reader sleeps on for a resource that is gone (`sleeps_oneLeaves`).

Every event but a look at the queue leaves the reader undisturbed, or it does not sleep afterwards
(`Effect.undisturbed`). The invariant is `Slumber`.
-/

namespace Sluice

open Fair (Sound)
open FairQueue (Calm Stocked)
open Monitor (Steady)

namespace Deliverer

variable {ρ : Type} {d d' d'' : Deliverer ρ} {h : List (Happening ρ)} {handed : List (Delivery ρ)}

/-! ### What the reader asked about last -/

/-- The last event in which the reader looked for a resource. -/
def lastAsk (h : List (Happening ρ)) : Option (Happening ρ) := (h.filter (·.event.asks)).getLast?

theorem lastAsk_snoc_of_asks {s : Happening ρ} (hs : s.event.asks = true) :
    lastAsk (h ++ [s]) = some s := by
  rw [lastAsk, List.filter_append, List.filter_cons, if_pos hs, List.filter_nil]
  exact List.getLast?_concat

theorem lastAsk_snoc_of_not_asks {s : Happening ρ} (hs : s.event.asks = false) :
    lastAsk (h ++ [s]) = lastAsk h := by
  rw [lastAsk, List.filter_append, List.filter_cons, if_neg (by rw [hs]; decide), List.filter_nil,
    List.append_nil, lastAsk]

/-! ### Who disturbs the reader -/

/-- The reader does not sleep for the limiter, or it has been woken. -/
def Awake (d : Deliverer ρ) : Prop := ∀ deadline, d.isReading = true → d.search ≠ .limited deadline false

theorem awake_of_not_dormant (h : ¬ Dormant d) : Awake d := by
  intro deadline hreading hsearch
  exact h ⟨hreading, by rw [hsearch]; rfl⟩

theorem Effect.undisturbed [Resource ρ] {event : Event ρ} {reply : Reply ρ} (hasks : event.asks = false)
    (e : Effect d event reply d') : Undisturbed d d' ∨ Awake d' :=
  (e.bearing hasks).rests_or.imp (·.toUndisturbed) awake_of_not_dormant

/-! ### What the reader sleeps for -/

/-- The resource that comes first is one of a target, of a given size, and the limiter does not admit it before a
deadline. -/
structure Sleeps (d : Deliverer ρ) (t : TargetId) (size deadline : Nat) : Prop where
  head : d.queue.peek.1 = some (t, size)
  waits : ∀ later, d.now ≤ later → later < deadline → 0 < (d.limiter.waitTime size (Word.clip later)).1

/-- A reader that is not disturbed sleeps for the same as before, as long as its target stays. -/
theorem Sleeps.undisturbed {t : TargetId} {size deadline : Nat} (x : Sleeps d t size deadline)
    (hsound : Sound d.queue) (hsteady : d.limiter.monitor.Steady d.clock) (u : Undisturbed d d')
    (hstays : d'.queue.registrationOf t ≠ none) : Sleeps d' t size deadline where
  head := u.queue.peek hsound x.head hstays
  waits later hle hlater := by
    have hbefore : d.now ≤ later := Nat.le_trans u.now hle
    have hwaits := x.waits later hbefore hlater
    rcases u.limiter with hsame | hread
    · rw [hsame]
      exact hwaits
    · have hevicted := Limiter.waitTime_evict hsteady.balanced (Word.clip_le_clip hbefore) size
      rw [hread]
      exact Nat.lt_of_lt_of_eq hwaits hevicted.symm

/-- A reader that parks goes on at once if it has a permit. -/
theorem park_cases (d : Deliverer ρ) (search : Search) :
    (d.park search).search = .asking ∨ d.park search = { d with search } := by
  rw [park]
  split
  · exact .inl rfl
  · exact .inr rfl

/-- A reader that has looked for a resource and sleeps then sleeps for what comes first. -/
theorem Asked.sleeps {deadline : Nat} (hsound : Sound d.queue)
    (hsteady : d.limiter.monitor.Steady d.clock) (hasking : d.search = .asking) (hasked : Asked d d')
    (hsearch : d'.search = .limited deadline false) :
    ∃ t size, d.queue.peek.1 = some (t, size) ∧ Sleeps d' t size deadline := by
  -- A read that returns leaves the reader asking.
  have returns : ∀ (d₁ : Deliverer ρ) (message : Option (Delivery ρ)), d₁.search = .asking →
      (d₁.proceed (.readReturns message)).search ≠ .limited deadline false := by
    intro d₁ message hsame hlimited
    obtain ⟨⟨processor, hproceed⟩, -⟩ := Passes.proceed (d := d₁) (.readReturns message) nofun
    rw [hproceed] at hlimited
    cases hsame.symm.trans hlimited
  have idles : ∀ d₁ : Deliverer ρ, (d₁.park .idle).search ≠ .limited deadline false := by
    intro d₁ hlimited
    rcases d₁.park_cases .idle with hpark | hpark
    · cases hpark.symm.trans hlimited
    · rw [hpark] at hlimited
      cases hlimited
  cases hasked with
  | stopped => exact absurd hsearch (returns d none hasking)
  | idle => exact absurd hsearch (idles _)
  | missed => exact absurd hsearch (idles _)
  | @taken _ _ _ _ _ delivery =>
    exact absurd hsearch (returns _ (some delivery) hasking)
  | @throttled t size wait queue limiter _ hpeek hwait hpos =>
    rcases park_cases { d with queue, limiter } (.limited (d.now + wait) false) with hpark | hpark
    · cases hpark.symm.trans hsearch
    rw [hpark] at hsearch ⊢
    obtain rfl : d.now + wait = deadline := (Search.limited.inj hsearch).1
    obtain rfl : d.queue.peek.2 = queue := congrArg Prod.snd hpeek
    obtain rfl : (d.limiter.waitTime size d.clock).2 = limiter := congrArg Prod.snd hwait
    obtain rfl : (d.limiter.waitTime size d.clock).1 = wait := congrArg Prod.fst hwait
    have hhead : d.queue.peek.1 = some (t, size) := congrArg Prod.fst hpeek
    refine ⟨t, size, hhead, hsound.peek_peek.trans hhead, fun later hle hlater => ?_⟩
    -- Whoever has to wait has the right time, up to the end of the wait.
    have hword := Limiter.add_waitTime_le hsteady.balanced hpos
    have hshort : d.clock < Word.greatest := by omega
    have hnow : d.clock = d.now := by
      rw [clock, Word.clip] at hshort ⊢
      omega
    have hle' : d.now ≤ later := hle
    have hclip : Word.clip later = later := Word.clip_eq_of_le (by omega)
    show 0 < ((d.limiter.waitTime size d.clock).2.waitTime size (Word.clip later)).1
    rw [hclip]
    exact Limiter.waitTime_asked_pos hsteady (by omega) (by omega)

section

variable [Resource ρ] {event : Event ρ} {reply : Reply ρ}

/-- However the limiter is used, its record stays in order. -/
theorem Use.steady {taken : List (Delivery ρ)} {limiter : Limiter} (u : Use d event taken limiter)
    (hsteady : d.limiter.monitor.Steady d.clock) : limiter.monitor.Steady d.clock := by
  cases u with
  | none => exact hsteady
  | limited hset =>
    obtain ⟨-, -, rfl⟩ := map_eq_ok hset
    exact hsteady
  | measured => exact hsteady.evict (Nat.le_refl _)
  | throttled => exact Limiter.steady_waitTime hsteady _
  | taken => exact (Limiter.steady_waitTime hsteady _).record (Nat.le_refl _) _

/-- What a reader has to do with its last look at the queue. If it sleeps for the limiter and has not been woken,
it sleeps for what came first at that time, unless the target has been taken out since. -/
structure Slumber (h : List (Happening ρ)) (d : Deliverer ρ) : Prop where
  steady : d.limiter.monitor.Steady d.clock
  sleeps : ∀ deadline, d.isReading = true → d.search = .limited deadline false →
    ∃ s t size r, lastAsk h = some s ∧ s.before.queue.peek.1 = some (t, size) ∧
      s.before.queue.registrationOf t = some r ∧ Known h r ∧
      (d.queue.registrationOf t = some r → Sleeps d t size deadline)

omit [Resource ρ] in
theorem Slumber.ofSettings (settings : DelivererSettings) :
    Slumber [] (Deliverer.ofSettings settings : Deliverer ρ) where
  steady := .ofWindow _ _
  sleeps _ hreading := nomatch hreading

theorem Slumber.effect {pending delivered : Nat} (x : Slumber h d) (o : Orderly h handed d)
    (s : d.queue.Stocked pending delivered) (e : Effect d event reply d') :
    Slumber (h ++ [⟨d, event, reply, d'⟩]) d' where
  steady := by
    obtain ⟨huse, hnow⟩ := e.use o s
    exact (huse.steady x.steady).mono (Word.clip_le_clip hnow)
  sleeps deadline hreading hsearch := by
    have hsound := o.supplies.sound
    cases hasks : event.asks with
    | true =>
      obtain rfl : event = .ask := by
        cases event with
        | ask => rfl
        | _ => cases hasks
      cases e with
      | refused _ hrequest => cases hrequest
      | worked hworks => cases hworks
      | asked _ hasking hasked =>
        obtain ⟨t, size, hhead, hsleeps⟩ := hasked.sleeps hsound x.steady hasking hsearch
        obtain ⟨r, hr⟩ := hsound.registered_of_peek hhead
        exact ⟨_, t, size, r, lastAsk_snoc_of_asks rfl, hhead, hr,
          Known.snoc ⟨t, o.supplies.mem_numbers hr⟩, fun _ => hsleeps⟩
    | false =>
      rcases e.undisturbed hasks with u | hawake
      · rw [u.search] at hsearch
        obtain ⟨s, t, size, r, hlast, hhead, hr, hknown, hsleeps⟩ :=
          x.sleeps deadline (u.reading hreading) hsearch
        refine ⟨s, t, size, r, ?_, hhead, hr, hknown.snoc, fun hr' => ?_⟩
        · rw [lastAsk_snoc_of_not_asks hasks]
          exact hlast
        · have hbefore : d.queue.registrationOf t = some r := ((e.turn o).origin o hr').before hknown
          refine (hsleeps hbefore).undisturbed hsound x.steady u ?_
          rw [hr']
          exact Option.some_ne_none r
      · exact absurd hsearch (hawake deadline hreading)

theorem slumber_after (settings : DelivererSettings) (events : List (Event ρ)) :
    Slumber (happenings settings events) ((Deliverer.ofSettings settings).after events) := by
  have run : Books (happenings settings events) ((Deliverer.ofSettings settings).after events) ∧
      Slumber (happenings settings events) ((Deliverer.ofSettings settings).after events) := by
    refine effect_induction (P := fun h d => Books h d ∧ Slumber h d)
      ⟨.ofSettings settings, .ofSettings settings⟩ ?_ events
    rintro h handed d event reply d' o - ⟨b, x⟩ e
    exact ⟨b.turn o (e.turn o), x.effect o b.stocked e⟩
  exact run.2

/-- A reader that sleeps for the limiter in a settled deliverer has not been woken, and its time has not come. -/
theorem of_isSettled {deadline : Nat} {woken : Bool} (hsettled : d.isSettled = true)
    (hreading : d.isReading = true) (hsearch : d.search = .limited deadline woken) :
    woken = false ∧ d.now < deadline := by
  rw [isSettled, List.all_eq_true] at hsettled
  have hstill : ∀ event ∈ (readerMoves : List (Event ρ)), d.step event = none := by
    intro event hevent
    exact Option.isNone_iff_eq_none.mp (hsettled event (List.mem_append_right _ hevent))
  constructor
  · have hnotice := hstill .noticeWake (by simp [readerMoves])
    cases woken with
    | false => rfl
    | true =>
      simp only [step, hreading, hsearch] at hnotice
      cases hnotice
  · have hpasses := hstill .limitPasses (by simp [readerMoves])
    simp only [step, hreading, hsearch] at hpasses
    split at hpasses
    · cases hpasses
    · omega

/-- Whatever the schedule: when a deliverer has settled and its reader sleeps for the limiter, then the reader has
looked for a resource and found one of some target. As long as the target is registered as it was then, its
resource is what comes first, and the limiter does not admit it now. -/
theorem no_avoidable_sleep (settings : DelivererSettings) (events : List (Event ρ)) {deadline : Nat}
    {woken : Bool} (hsettled : ((Deliverer.ofSettings settings).after events).isSettled = true)
    (hreading : ((Deliverer.ofSettings settings).after events).isReading = true)
    (hsearch : ((Deliverer.ofSettings settings).after events).search = .limited deadline woken) :
    let d := (Deliverer.ofSettings settings).after events
    ∃ s t size r, lastAsk (happenings settings events) = some s ∧
      s.before.queue.peek.1 = some (t, size) ∧ s.before.queue.registrationOf t = some r ∧
      (d.queue.registrationOf t = some r →
        d.queue.peek.1 = some (t, size) ∧ 0 < (d.limiter.waitTime size d.clock).1) := by
  intro d
  obtain ⟨rfl, hlater⟩ := of_isSettled hsettled hreading hsearch
  obtain ⟨s, t, size, r, hlast, hhead, hr, -, hsleeps⟩ :=
    (slumber_after settings events).sleeps deadline hreading hsearch
  refine ⟨s, t, size, r, hlast, hhead, hr, fun hr' => ?_⟩
  have hsleeps := hsleeps hr'
  exact ⟨hsleeps.head, hsleeps.waits d.now (Nat.le_refl _) hlater⟩

end

/-- Settings with a budget of three units in a tenth of a second. -/
def brisk : DelivererSettings := { DelivererSettings.small with speedLimit := some 30 }

/-- A schedule in which the reader sleeps for a resource of the first target, and one of the two targets is
removed then. A smaller resource waits for the second target, which would fit into the budget. -/
def oneLeaves (t : TargetId) : List (Event (List UInt8)) :=
  [.addTarget ⟨1⟩ ⟨0x3f800000⟩, .addTarget ⟨2⟩ ⟨0x3f800000⟩, .submit ⟨1⟩ [1, 2],
    .look, .ask, .receive, .enter .handler, .deliverReturns .accepted,
    .submit ⟨1⟩ [3, 4], .look, .ask, .ask, .submit ⟨2⟩ [5], .noticeWake, .ask,
    .remove 9 t, .enter (.remover 9), .dismissReturns (.remover 9)]

theorem no_avoidable_sleep_oneLeaves :
    let d := (Deliverer.ofSettings brisk).after (oneLeaves ⟨2⟩)
    d.isSettled = true ∧ d.isReading = true ∧ d.search = .limited 100000 false ∧
      ∃ s t size r, lastAsk (happenings brisk (oneLeaves ⟨2⟩)) = some s ∧
        s.before.queue.peek.1 = some (t, size) ∧ s.before.queue.registrationOf t = some r ∧
        (d.queue.registrationOf t = some r →
          d.queue.peek.1 = some (t, size) ∧ 0 < (d.limiter.waitTime size d.clock).1) := by
  have hsettled : ((Deliverer.ofSettings brisk).after (oneLeaves ⟨2⟩)).isSettled = true := by
    decide +kernel
  have hreading : ((Deliverer.ofSettings brisk).after (oneLeaves ⟨2⟩)).isReading = true := by
    decide +kernel
  have hsearch : ((Deliverer.ofSettings brisk).after (oneLeaves ⟨2⟩)).search = .limited 100000 false := by
    decide +kernel
  exact ⟨hsettled, hreading, hsearch, no_avoidable_sleep brisk (oneLeaves ⟨2⟩) hsettled hreading hsearch⟩

/-- When the first target leaves, the reader sleeps on, although the resource that comes first now may pass. -/
theorem sleeps_oneLeaves :
    let d := (Deliverer.ofSettings brisk).after (oneLeaves ⟨1⟩)
    d.isSettled = true ∧ d.isReading = true ∧ d.search = .limited 100000 false ∧
      d.queue.peek.1 = some (⟨2⟩, 1) ∧ (d.limiter.waitTime 1 d.clock).1 = 0 := by
  intro d
  exact ⟨by decide +kernel, by decide +kernel, by decide +kernel, by decide +kernel, by decide +kernel⟩

end Deliverer

end Sluice
