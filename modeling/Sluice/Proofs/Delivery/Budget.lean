import Sluice.Proofs.Delivery.Pace
import Sluice.Proofs.Delivery.Readings
import Sluice.Proofs.Rate.Budget

/-!
# A deliverer keeps to its speed limit

The reader takes out the resource that it has asked the limiter about, at the same instant, and records its size. So
what the limiter has on record is what was taken out, and the bound of the limiter carries over to the deliverer:
under a limit that stays as it is, in no window of time do the sizes of the resources taken out exceed the budget, but
for a single resource that is larger.

This is so if the limiter is used at instants in order. A call that has read the clock after the reader and gets the
lock before it makes the limiter forget what still counts at the instant that the reader has read.
`paced_within_budget` says that every window keeps to its budget if that does not happen (`Unovertaken`), and
`burst_overtaken` is a schedule in which it happens. What the limiter records is what is taken out, in any case.
-/

namespace Sluice

open FairQueue (Stocked)
open Limiter (Metered)

namespace Deliverer

variable {ρ : Type} {d d' : Deliverer ρ}

/-! ### What a history tells -/

namespace Watched

/-- An act that happened. -/
abbrev Happening (ρ : Type) : Type := Occurrence (Watched ρ) (Act ρ) (Reply ρ)

/-- The instant at which an act uses the limiter. -/
def dateOf (w : Watched ρ) : Act ρ → Option Nat
  | .find => w.reading
  | .measure call => w.measures.lookup call
  | _ => none

/-- The instants at which the limiter was used, in the order of its use. -/
def dates (h : List (Happening ρ)) : List Nat := h.filterMap fun s => s.before.dateOf s.event

/-- What an act takes out of the queue, with the instant at which the limiter admits it. -/
def takingsBy [Resource ρ] (s : Happening ρ) : List Sample :=
  match s.event, s.before.reading, s.after.inner.finding with
  | .find, some instant, some (.ready delivery) => [⟨instant, Resource.size delivery.resource⟩]
  | _, _, _ => []

/-- What was taken out of the queue, with these instants, in order. -/
def takings [Resource ρ] (h : List (Happening ρ)) : List Sample := h.flatMap takingsBy

/-- The same with the instants that the clock shows at the removals. -/
def removals [Resource ρ] (h : List (Happening ρ)) : List Sample :=
  h.flatMap fun s => (takingsBy s).map fun taking => { taking with time := s.before.inner.deliverer.clock }

/-- The instant at which an act looks for a resource. -/
def lookOf (w : Watched ρ) : Act ρ → Option Nat
  | .find => w.reading
  | _ => none

/-- Nobody who has read the clock after the reader uses the limiter before the reader does. -/
def Unovertaken (h : List (Happening ρ)) : Prop :=
  h.Pairwise fun earlier s =>
    ∀ date ∈ earlier.before.dateOf earlier.event, ∀ instant ∈ s.before.lookOf s.event, date ≤ instant

instance (h : List (Happening ρ)) : Decidable (Unovertaken h) :=
  inferInstanceAs (Decidable (List.Pairwise _ _))

end Watched

/-- Whether an event leaves the limit as it is, or sets it to the same. -/
def Event.keepsLimit (limit : Option Nat) : Event ρ → Bool
  | .setLimit other => other == limit
  | _ => true

/-- Whether an act leaves the limit as it is, or sets it to the same. -/
def Act.keepsLimit (limit : Option Nat) : Act ρ → Bool
  | .move (.event event) => event.keepsLimit limit
  | .move (.commit event) => event.keepsLimit limit
  | _ => true

namespace Watched

variable {h : List (Happening ρ)} {s : Happening ρ}

theorem dates_snoc (h : List (Happening ρ)) (s : Happening ρ) :
    dates (h ++ [s]) = dates h ++ (s.before.dateOf s.event).toList := by
  rw [dates, List.filterMap_append]
  cases hdate : s.before.dateOf s.event <;> simp [dates, hdate]

theorem takings_snoc [Resource ρ] (h : List (Happening ρ)) (s : Happening ρ) :
    takings (h ++ [s]) = takings h ++ takingsBy s := by
  simp only [takings, List.flatMap_append, List.flatMap_singleton]

theorem Unovertaken.of_snoc (hall : Unovertaken (h ++ [s])) :
    Unovertaken h ∧ ∀ instant ∈ s.before.lookOf s.event, ∀ date ∈ dates h, date ≤ instant := by
  obtain ⟨hbefore, -, hlast⟩ := List.pairwise_append.mp hall
  refine ⟨hbefore, fun instant hinstant date hdate => ?_⟩
  obtain ⟨earlier, hmem, hearlier⟩ := List.mem_filterMap.mp hdate
  exact hlast earlier hmem s (List.mem_singleton_self s) date hearlier instant hinstant

end Watched

/-! ### What a move does that does not need the clock -/

section

variable [Resource ρ] {r r' : Interleaving ρ} {move : Move ρ} {reply : Reply ρ}

/-- What a move can make of a limiter if it does not need the clock. -/
inductive Limits (l : Limiter) : Move ρ → Limiter → Prop
  | same {move : Move ρ} : Limits l move l
  | event {limit : Option Nat} {limiter : Limiter} :
      l.setLimit limit = .ok limiter → Limits l (.event (.setLimit limit)) limiter
  | commit {limit : Option Nat} {limiter : Limiter} :
      l.setLimit limit = .ok limiter → Limits l (.commit (.setLimit limit)) limiter

omit [Resource ρ] in
theorem Limits.records {l limiter : Limiter} (u : Limits l move limiter) :
    ∃ calls, limiter = l.after calls ∧ l.taken calls = [] := by
  have hset {limit : Option Nat} (hset : l.setLimit limit = .ok limiter) :
      ∃ calls, limiter = l.after calls ∧ l.taken calls = [] := by
    refine ⟨[.setLimit limit], ?_, rfl⟩
    show limiter = (l.setLimit limit).toOption.getD l
    rw [hset]
    rfl
  cases u with
  | same => exact ⟨[], rfl, rfl⟩
  | event h => exact hset h
  | commit h => exact hset h

omit [Resource ρ] in
/-- A limiter whose limit is set to what it was stays as it is. -/
theorem Limits.eq {l limiter : Limiter} {limit : Option Nat} (u : Limits l move limiter) (hlimit : l.limit = limit)
    (hsame : (Act.move move).keepsLimit limit = true) : limiter = l := by
  have hset (hset : l.setLimit limit = .ok limiter) : limiter = l := by
    obtain ⟨-, -, rfl⟩ := map_eq_ok hset
    rw [← hlimit]
  cases u with
  | same => rfl
  | event h => exact hset (eq_of_beq hsame ▸ h)
  | commit h => exact hset (eq_of_beq hsame ▸ h)

/-- What a move does that does not need the clock. -/
structure Bides (d : Deliverer ρ) (move : Move ρ) (d' : Deliverer ρ) : Prop where
  limiter : Limits d.limiter move d'.limiter
  queue : d.queue.Tended d'.queue
  now : d.now ≤ d'.now

omit [Resource ρ] in
/-- A read that returns or begins to wait leaves the limiter, the queue and the clock alone. -/
theorem pursue_eq (d : Deliverer ρ) (finding : Finding ρ) :
    (d.pursue finding).limiter = d.limiter ∧ (d.pursue finding).queue = d.queue ∧
      (d.pursue finding).now = d.now := by
  have returns (message : Option (Delivery ρ)) : (d.proceed (.readReturns message)).limiter = d.limiter ∧
      (d.proceed (.readReturns message)).queue = d.queue ∧ (d.proceed (.readReturns message)).now = d.now := by
    rcases d.proceed_eq (.readReturns message) with ⟨_, _, -, h⟩ | ⟨-, h⟩
    · rw [h]
      exact ⟨rfl, rfl, rfl⟩
    · rw [h]
      exact ⟨rfl, rfl, rfl⟩
  have parks (search : Search) : (d.park search).limiter = d.limiter ∧ (d.park search).queue = d.queue ∧
      (d.park search).now = d.now := by
    obtain ⟨_, _, h⟩ := d.park_eq search
    rw [h]
    exact ⟨rfl, rfl, rfl⟩
  cases finding with
  | stopped => exact returns none
  | nothing => exact parks .idle
  | early wait => exact parks (.limited (d.now + wait) false)
  | ready delivery => exact returns (some delivery)

theorem Commit.bides {event : Event ρ} (c : Commit d event d') : Bides d (.commit event) d' := by
  have hqueue := c.commits.queue
  cases c with
  | submitted => exact ⟨.same, hqueue, Nat.le_refl _⟩
  | limited _ hset => exact ⟨.commit hset, hqueue, Nat.le_refl _⟩
  | stopped => exact ⟨.same, hqueue, Nat.le_refl _⟩

/-- A whole event that is neither a look at the queue nor a measurement. -/
theorem Effect.bides {event : Event ρ} (hfree : (Move.event event).usesClock = false) (e : Effect d event reply d') :
    Bides d (.event event) d' := by
  have hasks : event.asks = false := by
    cases event with
    | ask => cases hfree
    | _ => rfl
  obtain ⟨huse, hnow⟩ := e.use_of_not_asks hasks
  have hlimiter : Limits d.limiter (.event event) d'.limiter := by
    revert huse
    generalize (⟨d, event, reply, d'⟩ : Happening ρ).taken = taken
    generalize d'.limiter = limiter
    intro huse
    cases huse with
    | none => exact .same
    | limited hset => exact .event hset
    | measured => cases hfree
    | throttled => cases hasks
    | taken => cases hasks
  exact ⟨hlimiter, (e.bearing hasks).tended, hnow⟩

theorem Interleaving.step_bides (hfree : move.usesClock = false) (hstep : r.step move = some (reply, r')) :
    Bides r.deliverer move r'.deliverer := by
  cases move with
  | event event =>
    simp only [Interleaving.step] at hstep
    split at hstep
    · cases hstep
    · obtain ⟨⟨reply', d'⟩, hevent, heq⟩ := Option.map_eq_some_iff.mp hstep
      cases heq
      exact (step_effect hevent).bides hfree
  | commit event =>
    obtain ⟨d', hcommit, heq⟩ := Option.map_eq_some_iff.mp hstep
    cases heq
    exact (commit_cases hcommit).bides
  | notify =>
    simp only [Interleaving.step] at hstep
    split at hstep
    · cases hstep
    · cases hstep
      obtain ⟨_, _, hwake⟩ := r.deliverer.wake_eq
      refine ⟨?_, ?_, ?_⟩ <;> dsimp only <;> rw [hwake]
      · exact .same
      · exact .same
  | find => cases hfree
  | pursue =>
    obtain ⟨finding, -, heq⟩ := Option.map_eq_some_iff.mp hstep
    cases heq
    obtain ⟨hlimiter, hqueue, hnow⟩ := r.deliverer.pursue_eq finding
    refine ⟨?_, ?_, ?_⟩ <;> dsimp only
    · rw [hlimiter]
      exact .same
    · rw [hqueue]
      exact .same
    · rw [hnow]

end

/-! ### What the reader finds -/

section

variable [Resource ρ]

/-- Whether the reader has found something to take out. -/
def Finding.isReady : Finding ρ → Bool
  | .ready _ => true
  | _ => false

/-- What a look at the queue does to the limiter, and what it finds. -/
inductive Found (d : Deliverer ρ) : Finding ρ → Limiter → Prop
  | still {finding : Finding ρ} : finding.isReady = false → Found d finding d.limiter
  /-- What is next has to wait. -/
  | early {size wait : Nat} : Found d (.early wait) (d.limiter.waitTime size d.clock).2
  | ready {delivery : Delivery ρ} :
      (d.limiter.waitTime (Resource.size delivery.resource) d.clock).1 = 0 →
      Found d (.ready delivery) ((d.limiter.waitTime (Resource.size delivery.resource) d.clock).2.record
        (Resource.size delivery.resource) d.clock)

/-- The reader takes out what it has asked about, and records its size. -/
theorem find_found (s : d.queue.Stocked d.queue.pending d.queue.delivered) :
    Found d d.find.1 d.find.2.limiter ∧
      d.find.2.queue.Stocked d.find.2.queue.pending d.find.2.queue.delivered := by
  rw [find]
  split
  · exact ⟨.still rfl, s⟩
  · rcases hpeek : d.queue.peek with ⟨next, queue⟩
    have speek : queue.Stocked d.queue.pending d.queue.delivered := s.peek hpeek
    have squeue : queue.Stocked queue.pending queue.delivered := ⟨speek.sound, speek.weighed, rfl, rfl⟩
    cases next with
    | none => exact ⟨.still rfl, squeue⟩
    | some head =>
      obtain ⟨t, size⟩ := head
      rcases hwait : d.limiter.waitTime size d.clock with ⟨wait, limiter⟩
      have hlimiter : (d.limiter.waitTime size d.clock).2 = limiter := congrArg Prod.snd hwait
      simp only [hwait]
      split
      · dsimp only
        rw [← hlimiter]
        exact ⟨.early, squeue⟩
      · next hzero =>
        -- The pop hands out what the peek showed, and that has the size of its resource.
        obtain ⟨delivery, queue', hpop, -, hsize⟩ := s.sound.pop_of_peek hpeek
        have hweighed : delivery.size = Resource.size delivery.resource := speek.size_of_pop hpop
        obtain rfl : size = Resource.size delivery.resource := hsize.symm.trans hweighed
        obtain ⟨left, -, spop⟩ := speek.pop hpop
        have hpasses : (d.limiter.waitTime (Resource.size delivery.resource) d.clock).1 = 0 := by
          rw [hwait]
          exact Nat.eq_zero_of_not_pos hzero
        rw [hpop]
        dsimp only
        rw [← hlimiter, hweighed]
        exact ⟨.ready hpasses, spop.sound, spop.weighed, rfl, rfl⟩

/-- What a look at the queue takes out of it. -/
def Finding.takings (instant : Nat) : Finding ρ → List Sample
  | .ready delivery => [⟨instant, Resource.size delivery.resource⟩]
  | _ => []

variable {finding : Finding ρ} {limiter : Limiter}

theorem Finding.takings_eq_nil (instant : Nat) (hnot : finding.isReady = false) :
    finding.takings instant = [] := by
  cases finding with
  | ready => cases hnot
  | _ => rfl

/-- The calls of the limiter take exactly the size of what is taken out of the queue. -/
theorem Found.records (f : Found d finding limiter) :
    ∃ calls, limiter = d.limiter.after calls ∧ d.limiter.taken calls = finding.takings d.clock := by
  cases f with
  | still hnot => exact ⟨[], rfl, (Finding.takings_eq_nil _ hnot).symm⟩
  | @early size => exact ⟨[.waitTime size d.clock], rfl, rfl⟩
  | @ready delivery =>
    exact ⟨[.waitTime (Resource.size delivery.resource) d.clock,
      .record (Resource.size delivery.resource) d.clock], rfl, rfl⟩

/-- A look at the queue leaves every window within its budget. -/
theorem Found.metered {settings : LimiterSettings} {limit last : Nat} {before : List Sample}
    (f : Found d finding limiter) (hwindow : 0 < settings.window) (hle : last ≤ d.clock)
    (hclock : d.clock < Word.greatest) (m : Metered settings limit d.limiter before last) :
    Metered settings limit limiter (before ++ finding.takings d.clock) last ∨
      Metered settings limit limiter (before ++ finding.takings d.clock) d.clock := by
  cases f with
  | still hnot =>
    rw [Finding.takings_eq_nil _ hnot, List.append_nil]
    exact .inl m
  | @early size =>
    have m' : Metered settings limit (d.limiter.step (.waitTime size d.clock))
        (before ++ d.limiter.taking (.waitTime size d.clock)) d.clock := m.step hwindow rfl rfl hle hclock
    exact .inr m'
  | ready hpasses => exact .inr (m.record hwindow hle hclock hpasses)

end

/-! ### What an act does -/

namespace Watched

variable [Resource ρ] {w w' : Watched ρ} {act : Act ρ} {reply : Reply ρ} {h : List (Happening ρ)}

/-- The changes that an act can make. -/
inductive Effect (w : Watched ρ) : Act ρ → Watched ρ → Prop
  | bided {move : Move ρ} {inner : Interleaving ρ} :
      Bides w.inner.deliverer move inner.deliverer → Effect w (.move move) { w with inner }
  | read : Effect w .readClock { w with reading := some w.inner.deliverer.clock }
  | found {instant : Nat} {finding : Finding ρ} {d : Deliverer ρ} :
      w.reading = some instant → ({ w.inner.deliverer with now := instant } : Deliverer ρ).find = (finding, d) →
      Effect w .find { w with
        inner := { w.inner with deliverer := { d with now := w.inner.deliverer.now }, finding := some finding }
        reading := none }
  | readSpeed {call : CallId} :
      Effect w (.readSpeedClock call) { w with measures := w.measures ++ [(call, w.inner.deliverer.clock)] }
  | measured {call : CallId} {instant : Nat} :
      w.measures.lookup call = some instant →
      Effect w (.measure call) { w with
        inner.deliverer.limiter := (w.inner.deliverer.limiter.speed (Word.clip instant)).2
        measures := w.measures.eraseP (·.1 == call) }

theorem step_effect (hstep : w.step act = some (reply, w')) : Effect w act w' := by
  cases act with
  | move move =>
    simp only [step] at hstep
    split at hstep
    · cases hstep
    · next hfree =>
      obtain ⟨⟨reply', inner⟩, hmove, heq⟩ := Option.map_eq_some_iff.mp hstep
      cases heq
      rw [Bool.or_eq_true, not_or] at hfree
      exact .bided (Interleaving.step_bides (Bool.eq_false_iff.mpr hfree.1) hmove)
  | readClock =>
    simp only [step] at hstep
    split at hstep
    · cases hstep
      exact .read
    · cases hstep
  | find =>
    simp only [step] at hstep
    split at hstep
    · next instant hreading =>
      obtain ⟨⟨reply', inner⟩, hat, heq⟩ := Option.map_eq_some_iff.mp hstep
      cases heq
      obtain ⟨⟨reply'', inner'⟩, hfind, heq'⟩ := Option.map_eq_some_iff.mp hat
      cases heq'
      simp only [Interleaving.step] at hfind
      split at hfind
      · cases hfind
        exact .found hreading rfl
      · cases hfind
    · cases hstep
  | readSpeedClock call =>
    simp only [step] at hstep
    split at hstep
    · cases hstep
      exact .readSpeed
    · cases hstep
  | measure call =>
    simp only [step] at hstep
    split at hstep
    · next instant hlookup =>
      obtain ⟨⟨reply', inner⟩, hat, heq⟩ := Option.map_eq_some_iff.mp hstep
      cases heq
      obtain ⟨⟨reply'', inner'⟩, hmeasure, heq'⟩ := Option.map_eq_some_iff.mp hat
      cases heq'
      simp only [Interleaving.step] at hmeasure
      split at hmeasure
      · cases hmeasure
      · obtain ⟨⟨reply₃, d⟩, hevent, heq₃⟩ := Option.map_eq_some_iff.mp hmeasure
        cases heq₃
        simp only [Deliverer.step] at hevent
        split at hevent
        · cases hevent
          exact .measured hlookup
        · cases hevent
    · cases hstep

theorem takingsBy_find {instant : Nat} {finding : Finding ρ} (hreading : w.reading = some instant)
    (hfinding : w'.inner.finding = some finding) : takingsBy ⟨w, .find, reply, w'⟩ = finding.takings instant := by
  simp only [takingsBy, hreading, hfinding]
  cases finding <;> rfl

/-! ### The pace of a run -/

/-- What the limiter has to do with the history, and what is known of the instants that were read. -/
structure Paced (settings : LimiterSettings) (limit : Nat) (h : List (Happening ρ)) (w : Watched ρ) : Prop where
  stocked : w.inner.deliverer.queue.Stocked w.inner.deliverer.queue.pending w.inner.deliverer.queue.delivered
  reading_le : ∀ instant, w.reading = some instant → instant ≤ w.inner.deliverer.clock
  measures_le : ∀ c ∈ w.measures, c.2 ≤ w.inner.deliverer.clock
  records : ∀ s ∈ h, ∃ calls, s.after.inner.deliverer.limiter = s.before.inner.deliverer.limiter.after calls ∧
    s.before.inner.deliverer.limiter.taken calls = takingsBy s
  /-- Every window keeps to its budget, as long as the limit is not changed, the clock is right and nobody overtakes
  the reader. -/
  metered : w.inner.deliverer.now < Word.greatest → (∀ s ∈ h, s.event.keepsLimit (some limit) = true) →
    Unovertaken h → ∃ last, (last = 0 ∨ last ∈ dates h) ∧
      Metered settings limit w.inner.deliverer.limiter (takings h) last

variable {settings : LimiterSettings} {limit last : Nat}

/-- Time goes on, and the instants that were read are past. -/
theorem Effect.readings (e : Effect w act w') (p : Paced settings limit h w) :
    w.inner.deliverer.now ≤ w'.inner.deliverer.now ∧
      (∀ instant, w'.reading = some instant → instant ≤ w'.inner.deliverer.clock) ∧
      ∀ c ∈ w'.measures, c.2 ≤ w'.inner.deliverer.clock := by
  cases e with
  | bided b =>
    have hclock := Word.clip_le_clip b.now
    exact ⟨b.now, fun t ht => Nat.le_trans (p.reading_le t ht) hclock,
      fun c hc => Nat.le_trans (p.measures_le c hc) hclock⟩
  | read =>
    refine ⟨Nat.le_refl _, fun t ht => ?_, p.measures_le⟩
    cases ht
    exact Nat.le_refl _
  | found => exact ⟨Nat.le_refl _, nofun, p.measures_le⟩
  | readSpeed =>
    refine ⟨Nat.le_refl _, p.reading_le, fun c hc => ?_⟩
    rcases List.mem_append.mp hc with hc | hc
    · exact p.measures_le c hc
    · rw [List.mem_singleton.mp hc]
  | measured => exact ⟨Nat.le_refl _, p.reading_le, fun c hc => p.measures_le c (List.mem_of_mem_eraseP hc)⟩

theorem Effect.stocked (e : Effect w act w') (p : Paced settings limit h w) :
    w'.inner.deliverer.queue.Stocked w'.inner.deliverer.queue.pending w'.inner.deliverer.queue.delivered := by
  cases e with
  | bided b => exact b.queue.stocked p.stocked
  | @found instant finding d hreading hfind =>
    have s := (find_found (d := { w.inner.deliverer with now := instant }) p.stocked).2
    rw [hfind] at s
    exact s
  | _ => exact p.stocked

/-- In every act, the calls of the limiter take exactly the sizes of what is taken out of the queue. -/
theorem Effect.records (e : Effect w act w') (p : Paced settings limit h w) :
    ∃ calls, w'.inner.deliverer.limiter = w.inner.deliverer.limiter.after calls ∧
      w.inner.deliverer.limiter.taken calls = takingsBy ⟨w, act, reply, w'⟩ := by
  cases e with
  | bided b => exact b.limiter.records
  | read => exact ⟨[], rfl, rfl⟩
  | @found instant finding d hreading hfind =>
    have f := (find_found (d := { w.inner.deliverer with now := instant }) p.stocked).1
    rw [hfind] at f
    obtain ⟨calls, hafter, htaken⟩ := f.records
    rw [clock_at (p.reading_le instant hreading)] at htaken
    exact ⟨calls, hafter, htaken.trans (takingsBy_find hreading rfl).symm⟩
  | readSpeed => exact ⟨[], rfl, rfl⟩
  | @measured call instant => exact ⟨[.speed (Word.clip instant)], rfl, rfl⟩

/-- An act leaves every window within its budget if nobody overtakes the reader. -/
theorem Effect.metered (e : Effect w act w') (p : Paced settings limit h w) (hwindow : 0 < settings.window)
    (hnow : w.inner.deliverer.now < Word.greatest) (hsame : act.keepsLimit (some limit) = true)
    (hfirst : ∀ instant ∈ w.lookOf act, ∀ date ∈ dates h, date ≤ instant)
    (hlast : last = 0 ∨ last ∈ dates h) (m : Metered settings limit w.inner.deliverer.limiter (takings h) last) :
    ∃ last', (last' = 0 ∨ last' ∈ dates (h ++ [⟨w, act, reply, w'⟩])) ∧
      Metered settings limit w'.inner.deliverer.limiter (takings (h ++ [⟨w, act, reply, w'⟩])) last' := by
  have hold : last = 0 ∨ last ∈ dates (h ++ [⟨w, act, reply, w'⟩]) := by
    rw [dates_snoc]
    exact hlast.imp_right (List.mem_append_left _)
  have hclock : w.inner.deliverer.clock < Word.greatest := Nat.lt_of_le_of_lt (Nat.min_le_left _ _) hnow
  have still (htaken : takingsBy ⟨w, act, reply, w'⟩ = [])
      (hlimiter : w'.inner.deliverer.limiter = w.inner.deliverer.limiter) :
      ∃ last', (last' = 0 ∨ last' ∈ dates (h ++ [⟨w, act, reply, w'⟩])) ∧
        Metered settings limit w'.inner.deliverer.limiter (takings (h ++ [⟨w, act, reply, w'⟩])) last' := by
    refine ⟨last, hold, ?_⟩
    rw [takings_snoc, htaken, List.append_nil, hlimiter]
    exact m
  cases e with
  | bided b => exact still rfl (b.limiter.eq m.limit_eq hsame)
  | read => exact still rfl rfl
  | @found instant finding d hreading hfind =>
    have hle : instant ≤ w.inner.deliverer.clock := p.reading_le instant hreading
    have hat : ({ w.inner.deliverer with now := instant } : Deliverer ρ).clock = instant := clock_at hle
    have hpast : last ≤ instant := by
      rcases hlast with rfl | hmem
      · exact Nat.zero_le _
      · exact hfirst instant hreading last hmem
    have f := (find_found (d := { w.inner.deliverer with now := instant }) p.stocked).1
    rw [hfind] at f
    have m' := f.metered hwindow (by rw [hat]; exact hpast) (by rw [hat]; omega) m
    rw [hat] at m'
    rw [takings_snoc, takingsBy_find hreading rfl, dates_snoc]
    rcases m' with m' | m'
    · exact ⟨last, hlast.imp_right (List.mem_append_left _), m'⟩
    · refine ⟨instant, .inr (List.mem_append_right _ ?_), m'⟩
      show instant ∈ w.reading.toList
      rw [hreading]
      exact List.mem_singleton_self _
  | readSpeed => exact still rfl rfl
  | @measured call instant hlookup =>
    have hle : instant ≤ w.inner.deliverer.clock := p.measures_le _ (Channel.mem_of_lookup hlookup)
    have hclip : Word.clip instant = instant := Word.clip_eq_of_le (Nat.le_trans hle (Nat.min_le_right _ _))
    rw [takings_snoc, show takingsBy ⟨w, .measure call, reply, _⟩ = [] from rfl, List.append_nil, dates_snoc]
    dsimp only
    rw [hclip]
    rcases Nat.le_total last instant with hpast | hearlier
    · refine ⟨instant, .inr (List.mem_append_right _ ?_), ?_⟩
      · show instant ∈ (w.measures.lookup call).toList
        rw [hlookup]
        exact List.mem_singleton_self _
      · have m' : Metered settings limit (w.inner.deliverer.limiter.step (.speed instant))
            (takings h ++ w.inner.deliverer.limiter.taking (.speed instant)) instant :=
          m.step hwindow rfl rfl hpast (by omega)
        rw [show w.inner.deliverer.limiter.taking (.speed instant) = [] from rfl, List.append_nil] at m'
        exact m'
    · exact ⟨last, hlast.imp_right (List.mem_append_left _), m.evict_earlier hearlier⟩

theorem Paced.effect (p : Paced settings limit h w) (hwindow : 0 < settings.window) (e : Effect w act w') :
    Paced settings limit (h ++ [⟨w, act, reply, w'⟩]) w' := by
  obtain ⟨hlater, hreading, hmeasures⟩ := e.readings p
  refine ⟨e.stocked p, hreading, hmeasures, fun s hs => ?_, fun hnow hsame hall => ?_⟩
  · rcases List.mem_append.mp hs with hs | hs
    · exact p.records s hs
    · rw [List.mem_singleton.mp hs]
      exact e.records p
  · obtain ⟨hbefore, hfirst⟩ := hall.of_snoc
    have hword : w.inner.deliverer.now < Word.greatest := Nat.lt_of_le_of_lt hlater hnow
    obtain ⟨last, hlast, m⟩ := p.metered hword (fun s hs => hsame s (List.mem_append_left _ hs)) hbefore
    exact e.metered p hwindow hword (hsame _ (List.mem_append_right _ (List.mem_singleton_self _))) hfirst hlast m

theorem paced {settings : DelivererSettings} {limit : Nat} (hlimit : settings.speedLimit = some limit)
    (hwindow : 0 < settings.window) (acts : List (Act ρ)) :
    Paced settings.limiter limit ((ofDeliverer (.ofSettings settings)).history acts)
      ((ofDeliverer (.ofSettings settings)).after acts) := by
  have hstart : Paced settings.limiter limit [] (ofDeliverer (.ofSettings settings) : Watched ρ) :=
    ⟨.ofSettings settings.queue, fun _ h => (nomatch h), fun _ h => (nomatch h), fun _ h => (nomatch h),
      fun _ _ _ => ⟨0, .inl rfl, .ofSettings hwindow hlimit⟩⟩
  exact Schedule.induction (P := fun h w => Paced settings.limiter limit h w) hstart
    (fun _ _ _ _ _ p hstep => p.effect hwindow (step_effect hstep)) acts

end Watched

/-! ### The limit is kept -/

section

variable [Resource ρ]

/-- **A deliverer keeps to its speed limit, unless a measurement overtakes its reader.** Take any schedule of calls and
of moves of the two tasks, cut where the clock is read and where the lock is taken. What the limiter records is what is
taken out of the queue: in every act the limiter takes the sizes of just the resources that the act takes out. And if
the limit is never changed, the clock stays below the greatest word, and no call that has read the clock after the
reader uses the limiter before it, then in no window, wherever it ends, do the sizes of the resources that are taken
out in it add up to more than the budget, but for a single resource that is larger. A resource is taken out at the
instant that the reader has read. -/
theorem paced_within_budget {settings : DelivererSettings} {limit : Nat} (hlimit : settings.speedLimit = some limit)
    (hd : ofSettings? settings = .ok d) (acts : List (Act ρ)) :
    let h := (Watched.ofDeliverer d).history acts
    (∀ s ∈ h, ∃ calls, s.after.inner.deliverer.limiter = s.before.inner.deliverer.limiter.after calls ∧
      s.before.inner.deliverer.limiter.taken calls = Watched.takingsBy s) ∧
    (((Watched.ofDeliverer d).after acts).inner.deliverer.now < Word.greatest →
      (∀ s ∈ h, s.event.keepsLimit (some limit) = true) → Watched.Unovertaken h →
      Within settings.window (settings.limiter.allowance limit) (Watched.takings h)) := by
  obtain ⟨hwindow, rfl⟩ := ofSettings?_eq_ok hd
  have p := Watched.paced (ρ := ρ) hlimit hwindow acts
  refine ⟨p.records, fun hnow hsame hall => ?_⟩
  obtain ⟨_, -, m⟩ := p.metered hnow hsame hall
  exact m.within

end

/-- Settings with a budget of two units in a tenth of a second. -/
def slow : DelivererSettings := { DelivererSettings.small with speedLimit := some 20 }

/-- A schedule in which the reader waits for the limiter: it is woken by a submission and has to wait on, then the wait
is over, and at last there is a resource that is larger than the budget. A measurement reads the clock before the
reader and is made after it, and a submission is made between a reading and the look at the queue. -/
def trickle : List (Act (List UInt8)) :=
  [.addTarget ⟨1⟩ ⟨0x3f800000⟩, .submit ⟨1⟩ [1, 2], .submit ⟨1⟩ [3], .submit ⟨1⟩ [4, 5, 6], .look,
      .ask,
      .receive, .enter .handler, .look, .ask, .elapse 60000, .submit ⟨1⟩ [7], .noticeWake, .ask,
      .deliverReturns .accepted, .elapse 40000, .limitPasses].flatMap Event.acts ++
    [.readSpeedClock 1, .move (.event (.elapse 5)), .readClock, .find, .measure 1, .move .pursue] ++
    [.receive, .enter .handler, .deliverReturns .accepted, .look].flatMap Event.acts ++
    [.readClock, .move (.event (.submit ⟨1⟩ [8])), .find, .move .pursue] ++
    [.setLimit (some 20), .noticeWake, .ask, .elapse 100000, .limitPasses, .ask].flatMap Event.acts

theorem paced_within_budget_trickle :
    slow.speedLimit = some 20 ∧ ofSettings? slow = .ok (ofSettings slow : Deliverer (List UInt8)) ∧
      ((Watched.ofDeliverer (ofSettings slow)).after trickle).inner.deliverer.now < Word.greatest ∧
      (∀ s ∈ (Watched.ofDeliverer (ofSettings slow)).history trickle, s.event.keepsLimit (some 20) = true) ∧
      Watched.Unovertaken ((Watched.ofDeliverer (ofSettings slow)).history trickle) ∧
      Watched.takings ((Watched.ofDeliverer (ofSettings slow)).history trickle) =
        [⟨0, 2⟩, ⟨100005, 1⟩, ⟨200005, 3⟩] ∧
      slow.limiter.allowance 20 = 2 ∧
      (∀ s ∈ (Watched.ofDeliverer (ofSettings slow)).history trickle, ∃ calls,
        s.after.inner.deliverer.limiter = s.before.inner.deliverer.limiter.after calls ∧
          s.before.inner.deliverer.limiter.taken calls = Watched.takingsBy s) ∧
      Within slow.window (slow.limiter.allowance 20)
        (Watched.takings ((Watched.ofDeliverer (ofSettings slow)).history trickle)) := by
  have hlimit : slow.speedLimit = some 20 := rfl
  have hd : ofSettings? slow = .ok (ofSettings slow : Deliverer (List UInt8)) := rfl
  have hnow : ((Watched.ofDeliverer (ofSettings slow)).after trickle).inner.deliverer.now < Word.greatest := by
    decide +kernel
  have hsame : ∀ s ∈ (Watched.ofDeliverer (ofSettings slow)).history trickle,
      s.event.keepsLimit (some 20) = true := by
    decide +kernel
  have hall : Watched.Unovertaken ((Watched.ofDeliverer (ofSettings slow)).history trickle) := by decide +kernel
  obtain ⟨hrecords, hpaced⟩ := paced_within_budget hlimit hd trickle
  exact ⟨hlimit, hd, hnow, hsame, hall, by decide +kernel, by decide +kernel, hrecords, hpaced hnow hsame hall⟩

/-- A schedule in which a measurement overtakes the reader: the reader has read the clock at 50000, the call reads it at
100001 and gets the lock first, and the limiter forgets what was taken out at 0. The reader takes out what it finds,
though the window at 50000 is full, and what it takes out next is in one window with that. -/
def overtaking : List (Act (List UInt8)) :=
  [.addTarget ⟨1⟩ ⟨0x3f800000⟩, .submit ⟨1⟩ [1, 2], .submit ⟨1⟩ [3, 4], .submit ⟨1⟩ [5, 6], .look,
      .ask,
      .receive, .enter .handler, .deliverReturns .accepted, .look, .elapse 50000].flatMap Event.acts ++
    [.readClock, .move (.event (.elapse 50001)), .readSpeedClock 1, .measure 1, .find, .move .pursue] ++
    [.receive, .enter .handler, .deliverReturns .accepted, .look, .elapse 49999, .ask].flatMap Event.acts

/-- **An overtaken reader takes out more than the budget.** The limit is never changed, and yet there is a window with
twice the budget in it, whether a resource is taken out when the reader reads the clock or when it has the lock. -/
theorem burst_overtaken :
    ofSettings? slow = .ok (ofSettings slow : Deliverer (List UInt8)) ∧ slow.speedLimit = some 20 ∧
      ((Watched.ofDeliverer (ofSettings slow)).after overtaking).inner.deliverer.now < Word.greatest ∧
      (∀ s ∈ (Watched.ofDeliverer (ofSettings slow)).history overtaking, s.event.keepsLimit (some 20) = true) ∧
      Watched.takings ((Watched.ofDeliverer (ofSettings slow)).history overtaking) =
        [⟨0, 2⟩, ⟨50000, 2⟩, ⟨150000, 2⟩] ∧
      Watched.removals ((Watched.ofDeliverer (ofSettings slow)).history overtaking) =
        [⟨0, 2⟩, ⟨100001, 2⟩, ⟨150000, 2⟩] ∧
      ¬ Within slow.window (slow.limiter.allowance 20)
        (Watched.takings ((Watched.ofDeliverer (ofSettings slow)).history overtaking)) ∧
      ¬ Within slow.window (slow.limiter.allowance 20)
        (Watched.removals ((Watched.ofDeliverer (ofSettings slow)).history overtaking)) := by
  have htakings : Watched.takings ((Watched.ofDeliverer (ofSettings slow)).history overtaking) =
      [⟨0, 2⟩, ⟨50000, 2⟩, ⟨150000, 2⟩] := by
    decide +kernel
  have hremovals : Watched.removals ((Watched.ofDeliverer (ofSettings slow)).history overtaking) =
      [⟨0, 2⟩, ⟨100001, 2⟩, ⟨150000, 2⟩] := by
    decide +kernel
  refine ⟨rfl, rfl, by decide +kernel, by decide +kernel, htakings, hremovals, fun hwithin => ?_, fun hwithin => ?_⟩
  · rw [htakings] at hwithin
    rcases hwithin 50000 with hle | ⟨s, heq, -⟩
    · exact absurd hle (by decide)
    · cases heq
  · rw [hremovals] at hwithin
    rcases hwithin 150000 with hle | ⟨s, heq, -⟩
    · exact absurd hle (by decide)
    · cases heq

end Deliverer

end Sluice
