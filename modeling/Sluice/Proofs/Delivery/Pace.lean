import Sluice.Proofs.Delivery.Books
import Sluice.Proofs.Delivery.Rousing

/-!
# What an event does with the limiter

The reader asks the limiter about the resource that is next, sleeps, is woken and asks again, while the queue
changes. What it takes out in the end is the resource that it asked about last, at the same instant, and it
records the size of that resource. An event uses the limiter in one of five ways (`Use`), and only a look at the
queue takes something out.
-/

namespace Sluice

open FairQueue (Stocked)

namespace Deliverer

variable {ρ : Type} {d d' d'' : Deliverer ρ}

/-! ### The clock and the limiter stand still -/

/-- The second deliverer shows the same time and has the same limiter. -/
structure SamePace (d d' : Deliverer ρ) : Prop where
  limiter : d'.limiter = d.limiter
  now : d'.now = d.now

namespace SamePace

theorem refl (d : Deliverer ρ) : SamePace d d := ⟨rfl, rfl⟩

/-- A part of an event that does nothing to either follows one that does nothing to them. -/
theorem following (k : SamePace d' d'') (hlimiter : d'.limiter = d.limiter) (hnow : d'.now = d.now) :
    SamePace d d'' :=
  ⟨k.limiter.trans hlimiter, k.now.trans hnow⟩

theorem wake (d : Deliverer ρ) : SamePace d d.wake := by
  obtain ⟨search, permit, h⟩ := d.wake_eq
  rw [h]
  exact ⟨rfl, rfl⟩

theorem park (d : Deliverer ρ) (search : Search) : SamePace d (d.park search) := by
  obtain ⟨search', permit, h⟩ := d.park_eq search
  rw [h]
  exact ⟨rfl, rfl⟩

theorem tellStop (d : Deliverer ρ) : SamePace d d.tellStop := by
  obtain ⟨search, permit, h⟩ := d.tellStop_eq
  rw [h]
  exact ⟨rfl, rfl⟩

theorem work {event : Processor.Event (Delivery ρ)} (hwork : d.work event = some d') :
    SamePace d d' := by
  obtain ⟨reply, processor, -, rfl⟩ := work_eq_some.mp hwork
  exact ⟨rfl, rfl⟩

theorem proceed (d : Deliverer ρ) (event : Processor.Event (Delivery ρ)) :
    SamePace d (d.proceed event) := by
  rcases d.proceed_eq event with ⟨reply, processor, -, h⟩ | ⟨-, h⟩
  · rw [h]
    exact ⟨rfl, rfl⟩
  · rw [h]
    exact refl d

theorem handled (d : Deliverer ρ) : SamePace d d.handled := proceed d _

end SamePace

/-- Settings that make a deliverer are valid, and it is the one that they describe. -/
theorem ofSettings?_eq_ok {settings : DelivererSettings} (hd : ofSettings? settings = .ok d) :
    0 < settings.window ∧ d = ofSettings settings := by
  rw [ofSettings?] at hd
  cases hvalid : settings.validate with
  | error e =>
    rw [hvalid] at hd
    cases hd
  | ok =>
    rw [hvalid] at hd
    have hwindow : settings.window ≠ 0 := by
      intro hzero
      have hlimiter : settings.limiter.validate = .error (.invalidConfig "window_us must be positive") :=
        if_pos hzero
      rw [DelivererSettings.validate, hlimiter] at hvalid
      cases hvalid
    refine ⟨Nat.pos_of_ne_zero hwindow, ?_⟩
    cases hroom : (ProcessorSettings.mk settings.capacity).validate with
    | error fault =>
      simp only [hroom] at hd
      cases hd
    | ok =>
      simp only [hroom] at hd
      exact (Except.ok.inj hd).symm

/-! ### How an event uses the limiter -/

/-- What an event does with the limiter, with what it takes out of the queue. -/
inductive Use [Resource ρ] (d : Deliverer ρ) : Event ρ → List (Delivery ρ) → Limiter → Prop
  | none {event : Event ρ} : Use d event [] d.limiter
  | limited {limit : Option Nat} {limiter : Limiter} :
      d.limiter.setLimit limit = .ok limiter → Use d (.setLimit limit) [] limiter
  | measured : Use d .measure [] (d.limiter.speed d.clock).2
  /-- The reader asks about what is next, and has to wait. -/
  | throttled {size : Nat} : Use d .ask [] (d.limiter.waitTime size d.clock).2
  | taken {delivery : Delivery ρ} :
      (d.limiter.waitTime (Resource.size delivery.resource) d.clock).1 = 0 →
      Use d .ask [delivery]
        ((d.limiter.waitTime (Resource.size delivery.resource) d.clock).2.record
          (Resource.size delivery.resource) d.clock)

section

variable [Resource ρ] {h : List (Happening ρ)} {handed : List (Delivery ρ)} {event : Event ρ}
  {reply : Reply ρ} {pending delivered : Nat}

/-- The reader takes out what it asked about, and records its size. -/
theorem use_of_asked (o : Orderly h handed d) (s : d.queue.Stocked pending delivered)
    (hreading : d.isReading = true) (hasked : Asked d d') :
    Use d .ask (⟨d, .ask, reply, d'⟩ : Happening ρ).taken d'.limiter ∧ d'.now = d.now := by
  cases hasked with
  | stopped =>
    have hunderway : (d.proceed (.readReturns Option.none)).processor.underway = d.processor.underway :=
      ((Aside.proceed rfl).processor o.unclosed).underway
    have k := SamePace.proceed d (.readReturns Option.none)
    rw [Happening.taken_eq_nil hunderway, k.limiter]
    exact ⟨.none, k.now⟩
  | @idle queue _ hpeek =>
    have k := SamePace.park ({ d with queue } : Deliverer ρ) .idle
    rw [Happening.taken_eq_nil (congrArg _ (processor_park _ _)), k.limiter]
    exact ⟨.none, k.now⟩
  | @throttled t size wait queue limiter _ _ hwait =>
    have k := SamePace.park ({ d with queue, limiter } : Deliverer ρ) (.limited (d.now + wait) false)
    rw [Happening.taken_eq_nil (congrArg _ (processor_park _ _)), k.limiter]
    obtain rfl : (d.limiter.waitTime size d.clock).2 = limiter := congrArg Prod.snd hwait
    exact ⟨.throttled, k.now⟩
  | missed _ hpeek _ hpop =>
    obtain ⟨delivery, queue'', hpop', -⟩ := o.supplies.sound.pop_of_peek hpeek
    cases hpop'.symm.trans hpop
  | @taken t size queue queue' limiter delivery _ hpeek hwait hpop =>
    -- The pop hands out what the peek showed, and that has the size of its resource.
    obtain ⟨delivery', queue'', hpop', -, hsize⟩ := o.supplies.sound.pop_of_peek hpeek
    cases hpop'.symm.trans hpop
    have hweighed : delivery.size = Resource.size delivery.resource := (s.peek hpeek).size_of_pop hpop
    obtain rfl : size = Resource.size delivery.resource := hsize.symm.trans hweighed
    have hzero : (d.limiter.waitTime (Resource.size delivery.resource) d.clock).1 = 0 :=
      congrArg Prod.fst hwait
    obtain rfl : (d.limiter.waitTime (Resource.size delivery.resource) d.clock).2 = limiter :=
      congrArg Prod.snd hwait
    obtain ⟨processor, hproceed, -, hunderway, -⟩ := proceed_readReturns
      (d := { d with
        queue := queue'
        limiter := (d.limiter.waitTime (Resource.size delivery.resource) d.clock).2.record delivery.size
          d.clock }) o.unclosed hreading delivery
    rw [hproceed, taken_of_ask hunderway, hweighed]
    exact ⟨.taken hzero, rfl⟩

/-- An event other than a look at the queue uses the limiter in one of the ways, and no time is lost. -/
theorem Effect.use_of_not_asks (hasks : event.asks = false) (e : Effect d event reply d') :
    Use d event (⟨d, event, reply, d'⟩ : Happening ρ).taken d'.limiter ∧ d.now ≤ d'.now := by
  -- The limiter is not used.
  have still : SamePace d d' → (⟨d, event, reply, d'⟩ : Happening ρ).taken = [] →
      Use d event (⟨d, event, reply, d'⟩ : Happening ρ).taken d'.limiter ∧ d.now ≤ d'.now := by
    intro k htaken
    rw [htaken, k.limiter, k.now]
    exact ⟨.none, Nat.le_refl _⟩
  cases e with
  | refused _ hrequest =>
    cases event with
    | addTarget => exact still (.refl d) rfl
    | setPriority => exact still (.refl d) rfl
    | submit => exact still (.refl d) rfl
    | setLimit => exact still (.refl d) rfl
    | _ => cases hrequest
  | enrolled => exact still ⟨rfl, rfl⟩ rfl
  | reprioritised => exact still ⟨rfl, rfl⟩ rfl
  | submitted => exact still (.following (.wake _) rfl rfl) rfl
  | @limited limit limiter _ hset =>
    have k := SamePace.wake ({ d with limiter } : Deliverer ρ)
    rw [k.limiter, k.now]
    exact ⟨.limited hset, Nat.le_refl _⟩
  | measured => exact ⟨.measured, Nat.le_refl _⟩
  | unfound => exact still (.refl d) rfl
  | removed => exact still ⟨rfl, rfl⟩ rfl
  | @removing call t r sink backlog queue =>
    have k := SamePace.proceed ({ d with queue, sinks := d.sinks.erase t } : Deliverer ρ) .copyHandle
    exact still ⟨k.limiter, k.now⟩ rfl
  | stopping _ hwork =>
    have k := SamePace.tellStop d
    exact still (.following (.work hwork) k.limiter k.now) rfl
  | joined => exact still ⟨rfl, rfl⟩ rfl
  | waited => exact still ⟨rfl, rfl⟩ rfl
  | abandoned => exact still (.following (.proceed _ _) rfl rfl) rfl
  | worked hworks hwork =>
    cases hworks with
    | _ => exact still (.work hwork) rfl
  | @elapsed span => exact ⟨.none, Nat.le_add_right d.now span⟩
  | looked hwork => exact still (.following (.work hwork) rfl rfl) rfl
  | asked => cases hasks
  | limitPassed => exact still ⟨rfl, rfl⟩ rfl
  | woken => exact still ⟨rfl, rfl⟩ rfl
  | @setOut delivery d₁ hwork =>
    have k : SamePace d d₁ := .work hwork
    exact still ⟨k.limiter, k.now⟩ rfl
  | @late delivery d₁ hwork =>
    have k : SamePace d d₁ := .work hwork
    exact still (.following (.handled _) k.limiter k.now) rfl
  | @closing d₁ hwork =>
    have k : SamePace d d₁ := .work hwork
    exact still ⟨k.limiter, k.now⟩ rfl
  | entered => exact still ⟨rfl, rfl⟩ rfl
  | accepted => exact still (.following (.handled _) rfl rfl) rfl
  | gone => exact still (.following (.handled _) rfl rfl) rfl
  | orphaned => exact still (.following (.handled _) rfl rfl) rfl
  | foundClosed => exact still ⟨rfl, rfl⟩ rfl
  | dismissed => exact still ⟨rfl, rfl⟩ rfl
  | resumed => exact still (.following (.handled _) rfl rfl) rfl
  | returned => exact still (.following (.proceed _ _) rfl rfl) rfl
  | dismissing => exact still ⟨rfl, rfl⟩ rfl

/-- Every event uses the limiter in one of the five ways, and no time is lost. -/
theorem Effect.use (o : Orderly h handed d) (s : d.queue.Stocked pending delivered)
    (e : Effect d event reply d') :
    Use d event (⟨d, event, reply, d'⟩ : Happening ρ).taken d'.limiter ∧ d.now ≤ d'.now := by
  cases hasks : event.asks with
  | false => exact e.use_of_not_asks hasks
  | true =>
    obtain rfl : event = .ask := by
      cases event with
      | ask => rfl
      | _ => cases hasks
    cases e with
    | refused _ hrequest => cases hrequest
    | worked hworks => cases hworks
    | asked hreading _ hasked =>
      obtain ⟨huse, hnow⟩ := use_of_asked o s hreading hasked
      exact ⟨huse, Nat.le_of_eq hnow.symm⟩

end

end Deliverer

end Sluice
