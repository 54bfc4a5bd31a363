import Mathlib.Order.Bounds.Basic
import Sluice.Proofs.Fair.Share

/-!
# Service follows virtual time

The floor of a queue is the virtual time at which it served last. `Level` has that no busy target is behind
it. So the next target, which is the least of the busy ones, stands at the floor once it is served
(`Level.time_of_served`), no call sets the floor back (`Effect.floor_le`), and the deliveries of a run are
served at times that never decrease (`Level.servedTimes_run`). A target that becomes busy is set back
neither behind its own time nor behind the least of the busy targets (`PlainQueue.Listed.le_leastBusy`).

None of this asks that times stay short of the greatest word: a sum that stops there still rises.
-/

namespace Sluice

open Fair

variable {ρ : Type}

namespace Fair

/-- The virtual time that a target has when a step serves it. -/
def Step.servedTime (s : Step ρ) : List Nat :=
  s.delivered.filterMap fun d => (s.before.account d.target).map (·.virtualTime)

/-- The virtual times at which the deliveries of a history are served, in order. -/
def servedTimes (h : List (Step ρ)) : List Nat := h.flatMap (·.servedTime)

theorem servedTimes_cons (s : Step ρ) (h : List (Step ρ)) :
    servedTimes (s :: h) = s.servedTime ++ servedTimes h :=
  List.flatMap_cons

section

variable {cost : Cost} {h : List (Step ρ)} {p p' : PlainQueue ρ} {call : Call ρ} {answer : Answer ρ}

/-- No call sets the floor back. -/
theorem Effect.floor_le (e : Effect cost p call answer p') : p.floor ≤ p'.floor := by
  cases e with
  | served hnext hbacklog => exact Nat.le_max_left _ _
  | _ => exact Nat.le_refl _

/-- A target that is served stands at the floor that the delivery leaves. -/
theorem Level.time_of_served (l : Level cost h p) {d : Delivery ρ}
    (e : Effect cost p call (.delivery (some d)) p') :
    ∃ a, p.account d.target = some a ∧ a.virtualTime = p'.floor := by
  cases e with
  | @served t a resource size rest hnext hbacklog =>
    obtain ⟨ha, hbusy, -⟩ := l.listed.next?_eq_some.mp hnext
    have hfloor : max p.floor a.virtualTime = a.virtualTime :=
      Nat.max_eq_right (l.floor_le ha hbusy)
    exact ⟨a, ha, hfloor.symm⟩
  | quiet hquiet => cases hquiet

/-- A step serves nobody, or somebody at the floor that it leaves. -/
theorem Level.servedTime_effect (l : Level cost h p) (e : Effect cost p call answer p') :
    ∀ time ∈ (⟨p, call, answer, p'⟩ : Step ρ).servedTime, time = p'.floor := by
  intro time htime
  obtain ⟨d, hd, hmap⟩ := List.mem_filterMap.mp htime
  have hanswer : answer = .delivery (some d) := Step.mem_delivered.mp hd
  rw [hanswer] at e
  obtain ⟨a, ha, hfloor⟩ := l.time_of_served e
  rw [ha, Option.map_some] at hmap
  rw [← Option.some.inj hmap, hfloor]

/-- From level books on, the deliveries of a run are served at the floor or later, and at times that never
decrease. -/
theorem Level.servedTimes_run (cost : Cost) (l : Level cost h p) (calls : List (Call ρ)) :
    (∀ time ∈ servedTimes (p.history cost calls), p.floor ≤ time) ∧
      (servedTimes (p.history cost calls)).Pairwise (· ≤ ·) := by
  induction calls generalizing h p with
  | nil =>
    refine ⟨fun time htime => ?_, List.Pairwise.nil⟩
    cases htime
  | cons call calls ih =>
    have he := step_effect cost p call
    obtain ⟨hlater, hsorted⟩ := ih (l.effect he)
    have hfirst := l.servedTime_effect he
    have hequal : (⟨p, call, (p.step cost call).1, (p.step cost call).2⟩ : Step ρ).servedTime.Pairwise
        (· ≤ ·) := by
      refine List.pairwise_of_forall_mem_list fun time htime other hother => ?_
      rw [hfirst time htime, hfirst other hother]
    rw [PlainQueue.history, servedTimes_cons]
    refine ⟨fun time htime => ?_, List.pairwise_append.mpr ⟨hequal, hsorted, ?_⟩⟩
    · rcases List.mem_append.mp htime with htime | htime
      · rw [hfirst time htime]
        exact he.floor_le
      · exact Nat.le_trans he.floor_le (hlater time htime)
    · intro time htime other hother
      rw [hfirst time htime]
      exact hlater other hother

end

end Fair

theorem PlainQueue.floor_le_after (cost : Cost) (p : PlainQueue ρ) (calls : List (Call ρ)) :
    p.floor ≤ (p.after cost calls).floor := by
  induction calls generalizing p with
  | nil => exact Nat.le_refl _
  | cons call calls ih => exact Nat.le_trans (step_effect cost p call).floor_le (ih _)

/-- What a target that becomes busy is lifted to is not behind the least busy target. -/
theorem PlainQueue.Listed.le_leastBusy {p : PlainQueue ρ} (hp : p.Listed) {u : TargetId}
    {b : Account ρ} (hb : p.account u = some b) (hbusy : b.isBusy = true)
    (hleast : ∀ v c, p.account v = some c → c.isBusy = true → b.virtualTime ≤ c.virtualTime) :
    b.virtualTime ≤ p.leastBusy := by
  cases hnext : p.next? with
  | none =>
    rw [hp.next?_eq_none.mp hnext u b hb] at hbusy
    cases hbusy
  | some e =>
    obtain ⟨v, c⟩ := e
    obtain ⟨hc, hother, -⟩ := hp.next?_eq_some.mp hnext
    rw [hp.leastBusy_of_some hnext]
    exact Nat.le_trans (hleast v c hc hother) (Nat.le_max_left _ _)

namespace FairQueue

/-- The virtual times of the busy targets. -/
def busyTimes (q : FairQueue ρ) : Set Nat :=
  {time | ∃ t e, q.targets.get? t = some e ∧ e.backlog.isEmpty = false ∧ e.virtualTime = time}

end FairQueue

namespace Fair

/-- How the virtual times of a queue stand to its floor, after a history and through what may follow. -/
structure InOrder (cost : Cost) (h : List (Step ρ)) (q : FairQueue ρ) : Prop where
  /-- No busy target is behind the floor. -/
  floor_le : ∀ time ∈ q.busyTimes, q.floor ≤ time
  floor_le_after : ∀ calls, q.floor ≤ (q.after cost calls).floor
  /-- A delivery takes the slot of its target from the top of the heap, at the time that is the floor from
  then on. -/
  pop_at_floor : ∀ d q', q.popWith cost = (some d, q') →
    ∃ s e, q.settle.heap.least? = some s ∧ s.target = d.target ∧ s.virtualTime = q'.floor ∧
      q.targets.get? d.target = some e ∧ e.virtualTime = q'.floor
  /-- The deliveries so far were served at times that never decreased. -/
  sorted : (servedTimes h).Pairwise (· ≤ ·)
  /-- A target that a push makes busy is not set back, and is not behind the least of those that were busy
  before. -/
  push_lifts : ∀ t e resource size q', q.targets.get? t = some e → e.backlog.isEmpty = true →
    q.pushSized t resource size = .ok q' →
      ∃ e', q'.targets.get? t = some e' ∧ e.virtualTime ≤ e'.virtualTime ∧
        ∀ least, IsLeast q.busyTimes least → least ≤ e'.virtualTime

end Fair

namespace FairQueue

variable {cost : Cost} {h : List (Step ρ)} {q : FairQueue ρ}

theorem mem_busyTimes {time : Nat} :
    time ∈ q.busyTimes ↔
      ∃ t a, q.plain.account t = some a ∧ a.isBusy = true ∧ a.virtualTime = time := by
  constructor
  · rintro ⟨t, e, he, hbusy, rfl⟩
    refine ⟨t, e.account, ?_, ?_, rfl⟩
    · rw [account_plain, he, Option.map_some]
    · rw [e.isBusy_account, hbusy]
      rfl
  · rintro ⟨t, a, ha, hbusy, rfl⟩
    obtain ⟨e, he, rfl⟩ := Option.map_eq_some_iff.mp ha
    rw [e.isBusy_account, Bool.not_eq_true'] at hbusy
    exact ⟨t, e, he, hbusy, rfl⟩

/-- A pop that delivers takes the top of the settled heap. -/
theorem least_of_popWith {d : Delivery ρ} {q' : FairQueue ρ} (hpop : q.popWith cost = (some d, q')) :
    ∃ s, q.settle.heap.least? = some s ∧ s.target = d.target := by
  rw [popWith] at hpop
  cases hleast : q.settle.heap.least? with
  | none => simp [hleast] at hpop
  | some s =>
    refine ⟨s, rfl, ?_⟩
    simp only [hleast] at hpop
    split at hpop
    · cases hpop
    · split at hpop
      · cases hpop
      · exact congrArg Delivery.target (Option.some.inj (Prod.mk.inj hpop).1)

theorem pop_at_floor (hq : Sound q) (l : Level cost h q.plain) {d : Delivery ρ} {q' : FairQueue ρ}
    (hpop : q.popWith cost = (some d, q')) :
    ∃ s e, q.settle.heap.least? = some s ∧ s.target = d.target ∧ s.virtualTime = q'.floor ∧
      q.targets.get? d.target = some e ∧ e.virtualTime = q'.floor := by
  obtain ⟨s, hleast, htarget⟩ := least_of_popWith hpop
  obtain ⟨e, he, hslot, -⟩ := hq.slotted.settle_least_eq_some hleast
  obtain ⟨a, ha, hfloor⟩ := l.time_of_served (hq.effect (step_pop hpop))
  rw [account_plain, ← htarget, he] at ha
  obtain rfl : e.account = a := Option.some.inj ha
  have htime : s.virtualTime = e.virtualTime := congrArg Slot.virtualTime hslot
  rw [← htarget]
  exact ⟨s, e, hleast, rfl, htime.trans hfloor, he, hfloor⟩

theorem push_lifts (hq : Sound q) {t : TargetId} {e : Entry ρ} {resource : ρ} {size : Nat}
    {q' : FairQueue ρ} (he : q.targets.get? t = some e) (hidle : e.backlog.isEmpty = true)
    (hpush : q.pushSized t resource size = .ok q') :
    ∃ e', q'.targets.get? t = some e' ∧ e.virtualTime ≤ e'.virtualTime ∧
      ∀ least, IsLeast q.busyTimes least → least ≤ e'.virtualTime := by
  have ha : q.plain.account t = some e.account := by rw [account_plain, he, Option.map_some]
  have heffect := hq.effect (step_push (fun _ _ => 0) hpush)
  -- The push was accepted, so the books have the target lifted and with one more resource.
  obtain ⟨a', ha', htime⟩ : ∃ a', q'.plain.account t = some a' ∧
      a'.virtualTime = max e.virtualTime q.plain.leastBusy := by
    generalize hbooks : q'.plain = p' at heffect
    cases heffect with
    | @enqueued t a resource size hu =>
      obtain rfl : e.account = a := Option.some.inj (ha.symm.trans hu)
      refine ⟨_, Function.update_self .., ?_⟩
      have hnot : e.account.isBusy = false := by rw [e.isBusy_account, hidle]; rfl
      simp only [PlainQueue.filled, hnot]
      rfl
    | quiet hquiet => cases hquiet
  obtain ⟨e', he', rfl⟩ := Option.map_eq_some_iff.mp ha'
  refine ⟨e', he', ?_, ?_⟩
  · show e.virtualTime ≤ e'.account.virtualTime
    rw [htime]
    exact Nat.le_max_left _ _
  · rintro least ⟨hmem, hleast⟩
    obtain ⟨u, b, hb, hbusy, rfl⟩ := mem_busyTimes.mp hmem
    show b.virtualTime ≤ e'.account.virtualTime
    rw [htime]
    refine Nat.le_trans (q.listed_plain.le_leastBusy hb hbusy ?_) (Nat.le_max_right _ _)
    intro v c hc hother
    exact hleast (mem_busyTimes.mpr ⟨v, c, hc, hother, rfl⟩)

/-- **Service follows virtual time.** This holds after any calls on a new queue, at any costs, and also
where sums of times stop at the greatest word. -/
theorem in_order (settings : FairSettings) (cost : Cost) (calls : List (Call ρ)) :
    InOrder cost ((ofSettings settings : FairQueue ρ).history cost calls)
      ((ofSettings settings).after cost calls) := by
  have hstart : Sound (ofSettings settings : FairQueue ρ) := Sound.ofSettings settings
  have hsound := sound_after cost hstart calls
  have l := (Level.ofSettings cost settings).run cost calls (ρ := ρ)
  rw [List.nil_append, ← plain_ofSettings, ← plain_after cost hstart] at l
  have hsorted := ((Level.ofSettings cost settings).servedTimes_run cost calls (ρ := ρ)).2
  rw [← plain_ofSettings, ← history_plain cost hstart] at hsorted
  generalize (ofSettings settings : FairQueue ρ).after cost calls = q at *
  refine ⟨fun time htime => ?_, fun more => ?_, fun d q' => pop_at_floor hsound l, hsorted,
    fun t e resource size q' => push_lifts hsound⟩
  · obtain ⟨t, a, ha, hbusy, rfl⟩ := mem_busyTimes.mp htime
    exact l.floor_le ha hbusy
  · have hfloor := q.plain.floor_le_after cost more
    rw [← plain_after cost hsound] at hfloor
    exact hfloor

end FairQueue

end Sluice
