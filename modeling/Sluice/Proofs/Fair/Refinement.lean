import Sluice.Proofs.Fair.Effect
import Sluice.Proofs.Fair.Slots

/-!
# Fair queues keep the plain schedule

A fair queue is `Sound` when its heap is slotted and its count of what is pending is the sum of the
backlogs. A new queue is sound, and each call on a sound queue `Tracks` the same call on its books:
same answer, the books of the queue left are the books that the plain call leaves, and that queue is
sound again. So whole histories agree (`history_plain`), and whatever is proved of the plain queue
holds of the fair one.
-/

namespace Sluice

open Fair

variable {ρ : Type} {q : FairQueue ρ} {cost : Cost} {t : TargetId}

namespace FairQueue

theorem account_plain : q.plain.account t = (q.targets.get? t).map Entry.account := rfl

theorem account_set (r : Roster (Entry ρ)) (t : TargetId) (e : Entry ρ) :
    (fun u => ((r.set t e).get? u).map Entry.account) =
      Function.update (fun u => (r.get? u).map Entry.account) t (some e.account) := by
  funext u
  rw [Roster.get?_set, Function.update_apply]
  by_cases htu : t = u
  · simp only [htu, if_true, Option.map_some]
  · simp only [htu, Ne.symm htu, if_false]

theorem plain_set {e f : Entry ρ} (hf : q.targets.get? t = some f) :
    ({ q with targets := q.targets.set t e } : FairQueue ρ).plain = q.plain.write t e.account := by
  refine PlainQueue.ext rfl ?_ ?_ rfl rfl rfl rfl rfl rfl
  · exact Roster.targets_set_of_some hf
  · exact account_set q.targets t e

/-- Slots are not in the books. -/
theorem plain_issue (q : FairQueue ρ) (t : TargetId) : (q.issue t).plain = q.plain := by
  simp only [issue]
  cases he : q.targets.get? t with
  | none => rfl
  | some e =>
    have hset := plain_set (q := q) (e := { e with generation := q.nextGeneration }) he
    have hsame : q.plain.write t e.account = q.plain := by
      have : q.plain.account t = some e.account := by rw [account_plain, he, Option.map_some]
      refine PlainQueue.ext rfl rfl ?_ rfl rfl rfl rfl rfl rfl
      exact Function.update_eq_self_iff.mpr this.symm
    simp only
    split
    · exact hset.trans hsame
    · exact hset.trans hsame

theorem pending_issue (q : FairQueue ρ) (t : TargetId) : (q.issue t).pending = q.pending := by
  simp only [issue]
  cases q.targets.get? t with
  | none => rfl
  | some e =>
    simp only
    split
    · rfl
    · rfl

theorem plain_activate {e f : Entry ρ} (hf : q.targets.get? t = some f) (least : Nat) :
    (q.activate t e least).plain =
      { q.plain.write t { e.account with
          virtualTime := max e.account.virtualTime least
          activation := q.nextActivation } with
        nextActivation := q.nextActivation + 1 } := by
  refine (plain_issue _ t).trans ?_
  refine PlainQueue.ext rfl ?_ ?_ rfl rfl rfl rfl rfl rfl
  · exact Roster.targets_set_of_some hf
  · exact account_set q.targets t _

/-- Of the two counters that a push moves, the books have one. -/
theorem plain_counted (q : FairQueue ρ) (pending : Nat) :
    ({ q with pending, enqueued := q.enqueued + 1 } : FairQueue ρ).plain =
      { q.plain with enqueued := q.plain.enqueued + 1 } := rfl

theorem pending_activate (e : Entry ρ) (least : Nat) :
    (q.activate t e least).pending = q.pending :=
  pending_issue _ t

/-- The settled queue with a resource of its top served, and the entry that this leaves. The target
has a new slot if it is still busy. -/
def reslotted (q : FairQueue ρ) (s : Slot) (e : Entry ρ) : FairQueue ρ :=
  let q' := { q.settle with
    heap := q.settle.heap.dropLeast Slot.le
    floor := max q.settle.floor s.virtualTime
    targets := q.settle.targets.set s.target e }
  if e.backlog.isEmpty then q' else q'.issue s.target

theorem plain_reslotted {s : Slot} {f : Entry ρ} (hf : q.targets.get? s.target = some f)
    (e : Entry ρ) :
    (q.reslotted s e).plain =
      { q.plain.write s.target e.account with floor := max q.floor s.virtualTime } := by
  have hset := plain_set (e := e) (q := { q.settle with
    heap := q.settle.heap.dropLeast Slot.le
    floor := max q.settle.floor s.virtualTime }) hf
  rw [reslotted]
  split
  · exact hset
  · exact (plain_issue _ _).trans hset

theorem pending_reslotted (q : FairQueue ρ) (s : Slot) (e : Entry ρ) :
    (q.reslotted s e).pending = q.pending := by
  rw [reslotted]
  split
  · rfl
  · exact pending_issue _ _

theorem account_push (e : Entry ρ) (resource : ρ) (size : Nat) :
    ({ e with backlog := e.backlog.push (resource, size) } : Entry ρ).account =
      e.account.enqueue resource size := by
  simp only [Entry.account, Account.enqueue, Fifo.toList_push]

/-- The settled queue tells the lift of whoever becomes busy. -/
theorem leastBusy_settle (h : Slotted none q) : q.settle.leastBusy = q.plain.leastBusy := by
  cases hleast : q.settle.heap.least? with
  | none =>
    rw [PlainQueue.leastBusy_of_none (h.settle_least_eq_none hleast)]
    simp only [leastBusy, hleast]
    rfl
  | some s =>
    obtain ⟨e, -, hslot, hnext⟩ := h.settle_least_eq_some hleast
    have htime : s.virtualTime = e.account.virtualTime := congrArg Slot.virtualTime hslot
    rw [q.listed_plain.leastBusy_of_some hnext]
    simp only [leastBusy, hleast, htime]
    rfl

theorem listing_plain (q : FairQueue ρ) :
    q.plain.listing = q.targets.entries.map fun e => (e.1, e.2.account) := by
  simp only [PlainQueue.listing, plain, Option.map_map]
  exact Roster.filterMap_targets (fun t e => (t, e.account)) q.targets

theorem activeTargets_eq (q : FairQueue ρ) :
    (q.targets.values.filter fun entry => !entry.backlog.isEmpty).length =
      q.plain.busy.length := by
  simp only [PlainQueue.busy, listing_plain, Roster.values, List.filter_map, List.length_map]
  refine congrArg List.length (List.filter_congr fun e _ => ?_)
  simp only [Function.comp_apply, Entry.isBusy_account]

end FairQueue

namespace Fair

/-- The entry of a target after a resource is served. -/
def Entry.served (e : Entry ρ) (backlog : Fifo (ρ × Nat)) (virtualTime size : Nat) : Entry ρ :=
  { e with
    backlog
    virtualTime
    delivered := Word.add e.delivered size
    generation := if backlog.isEmpty then 0 else e.generation }

theorem Slotted.reslotted (h : Slotted none q) {s : Slot} (hs : q.settle.heap.least? = some s)
    (e : Entry ρ) : Slotted none (q.reslotted s e) := by
  have hmoving := h.dropLeast hs
  rw [FairQueue.reslotted]
  split
  · next hempty =>
    have hidle : e.account.isBusy = false := by
      rw [e.isBusy_account, hempty]
      rfl
    exact (hmoving.set_idle hidle).of_counters rfl rfl rfl
  · exact Slotted.issue ((hmoving.set e).of_counters rfl rfl rfl)

/-- The heap is slotted, and the count of what is pending is the sum of the backlogs. -/
structure Sound (q : FairQueue ρ) : Prop where
  slotted : Slotted none q
  pending : q.pending = q.plain.pending

/-- What a call did to a fair queue is what it does to the books. -/
structure Tracks (x : Answer ρ × FairQueue ρ) (y : Answer ρ × PlainQueue ρ) : Prop where
  answer : x.1 = y.1
  plain : x.2.plain = y.2
  slotted : Slotted none x.2
  pending : x.2.pending = y.2.pending

namespace Sound

theorem ofSettings (settings : FairSettings) : Sound (FairQueue.ofSettings settings : FairQueue ρ) :=
  ⟨Slotted.ofSettings settings, rfl⟩

/-- A call that changes nothing. -/
theorem tracks (h : Sound q) (answer : Answer ρ) : Tracks (answer, q) (answer, q.plain) :=
  ⟨rfl, rfl, h.slotted, h.pending⟩

theorem settle (h : Sound q) : Sound q.settle := ⟨h.slotted.settle, h.pending⟩

theorem addTarget (h : Sound q) (t : TargetId) (priority : Number.Single) :
    Tracks (q.step cost (.addTarget t priority)) (q.plain.step cost (.addTarget t priority)) := by
  simp only [FairQueue.step, PlainQueue.step, FairQueue.addTarget, PlainQueue.addTarget,
    FairQueue.checkPriority]
  have hsome : (q.plain.account t).isSome = q.targets.contains t := by
    rw [FairQueue.account_plain, Option.isSome_map]
    rfl
  have hlen : q.plain.ids.length = q.targets.size := q.targets.length_targets
  rw [hsome, hlen]
  cases hpositive : priority.isPositive with
  | false => exact h.tracks _
  | true =>
    cases hcontains : q.targets.contains t with
    | true => exact h.tracks _
    | false =>
      by_cases hmax : q.settings.maxTargets ≤ q.targets.size
      · have hmax' : q.plain.settings.maxTargets ≤ q.targets.size := hmax
        simp only [hmax, hmax', if_true]
        exact h.tracks _
      · have hmax' : ¬ q.plain.settings.maxTargets ≤ q.targets.size := hmax
        have hnone : q.targets.get? t = none := by simpa [Roster.contains] using hcontains
        simp only [hmax, hmax', if_false]
        refine ⟨rfl, ?_, ?_, ?_⟩
        · exact PlainQueue.ext rfl Roster.targets_set (FairQueue.account_set _ _ _) rfl rfl rfl rfl
            rfl rfl
        · exact (h.slotted.weaken.set_idle rfl).of_counters rfl rfl rfl
        · have hnew : q.plain.account t = none := by rw [FairQueue.account_plain, hnone]; rfl
          exact h.pending.trans (q.listed_plain.pending_enroll hnew).symm

theorem removeTarget (h : Sound q) (t : TargetId) :
    Tracks (q.step cost (.removeTarget t)) (q.plain.step cost (.removeTarget t)) := by
  simp only [FairQueue.step, PlainQueue.step, FairQueue.removeTarget, PlainQueue.removeTarget,
    FairQueue.account_plain]
  cases he : q.targets.get? t with
  | none => exact h.tracks _
  | some e =>
    have haccount : q.plain.account t = some e.account := by
      rw [FairQueue.account_plain, he, Option.map_some]
    refine ⟨rfl, ?_, ?_, ?_⟩
    · refine PlainQueue.ext rfl Roster.targets_erase ?_ rfl rfl rfl rfl rfl rfl
      funext u
      show ((q.targets.erase t).get? u).map Entry.account =
        Function.update (fun u => (q.targets.get? u).map Entry.account) t none u
      rw [Roster.get?_erase, Function.update_apply]
      by_cases htu : t = u
      · simp only [htu, if_true, Option.map_none]
      · simp only [htu, Ne.symm htu, if_false]
    · exact (h.slotted.erase t).of_counters rfl rfl rfl
    · have hdismiss := q.listed_plain.pending_dismiss haccount
      have hsize : e.backlog.size = e.account.backlog.length := e.backlog.size_eq_length
      show q.pending - e.backlog.size = (q.plain.dismiss t).pending
      rw [h.pending, hsize]
      omega

theorem setPriority (h : Sound q) (t : TargetId) (priority : Number.Single) :
    Tracks (q.step cost (.setPriority t priority)) (q.plain.step cost (.setPriority t priority)) := by
  simp only [FairQueue.step, PlainQueue.step, FairQueue.setPriority, PlainQueue.setPriority,
    FairQueue.checkPriority, FairQueue.account_plain]
  cases hpositive : priority.isPositive with
  | false => exact h.tracks _
  | true =>
    cases he : q.targets.get? t with
    | none => exact h.tracks _
    | some e =>
      have haccount : q.plain.account t = some e.account := by
        rw [FairQueue.account_plain, he, Option.map_some]
      have hplain := FairQueue.plain_set (q := q) (e := { e with priority }) he
      have hpending : q.pending = (q.plain.write t { e.account with priority }).pending := by
        have := q.listed_plain.pending_write (b := { e.account with priority }) haccount
        rw [h.pending]
        exact (Nat.add_right_cancel this).symm
      cases hempty : e.backlog.isEmpty with
      | true =>
        refine ⟨rfl, ?_, ?_, ?_⟩
        · simp only [hempty, if_true]
          exact hplain
        · simp only [hempty, if_true]
          refine h.slotted.weaken.set_idle ?_
          simp only [Entry.isBusy_account, hempty, Bool.not_true]
        · simp only [hempty, if_true]
          exact hpending
      | false =>
        refine ⟨rfl, ?_, ?_, ?_⟩
        · simp only [hempty, Bool.false_eq_true, if_false]
          exact (FairQueue.plain_issue _ _).trans hplain
        · simp only [hempty, Bool.false_eq_true, if_false]
          exact (h.slotted.weaken.set _).issue
        · simp only [hempty, Bool.false_eq_true, if_false]
          exact (FairQueue.pending_issue _ _).trans hpending

theorem push (h : Sound q) (t : TargetId) (resource : ρ) (size : Nat) :
    Tracks (q.step cost (.push t resource size)) (q.plain.step cost (.push t resource size)) := by
  simp only [FairQueue.step, PlainQueue.step, FairQueue.pushSized, PlainQueue.push,
    FairQueue.account_plain]
  cases he : q.targets.get? t with
  | none => exact h.tracks _
  | some e =>
    have haccount : q.plain.account t = some e.account := by
      rw [FairQueue.account_plain, he, Option.map_some]
    have hlen : e.account.backlog.length = e.backlog.size := e.backlog.size_eq_length.symm
    have hpending := q.listed_plain.pending_enqueue haccount resource size
    rw [← h.pending] at hpending
    simp only [Option.map_some, hlen]
    by_cases hmax : q.settings.maxBacklog ≤ e.backlog.size
    · have hmax' : q.plain.settings.maxBacklog ≤ e.backlog.size := hmax
      simp only [hmax, hmax', if_true]
      exact h.tracks _
    · have hmax' : ¬ q.plain.settings.maxBacklog ≤ e.backlog.size := hmax
      simp only [hmax, hmax', if_false]
      have hfilled := FairQueue.account_push e resource size
      have hslot : e.slot t = ({ e with backlog := e.backlog.push (resource, size) } : Entry ρ).slot t :=
        rfl
      generalize ({ e with backlog := e.backlog.push (resource, size) } : Entry ρ) = filled at *
      cases hempty : e.backlog.isEmpty with
      | true =>
        have hidle : e.account.isBusy = false := by rw [Entry.isBusy_account, hempty]; rfl
        simp only [if_true]
        refine ⟨rfl, ?_, ?_, ?_⟩
        · refine (FairQueue.plain_counted (q.settle.activate t filled q.settle.leastBusy) _).trans ?_
          rw [FairQueue.plain_activate (q := q.settle) he, FairQueue.leastBusy_settle h.slotted]
          simp only [Answer.ofDone, PlainQueue.enqueue, PlainQueue.filled, hidle, hfilled]
          rfl
        · exact (h.slotted.settle.activate t _ _).of_counters rfl rfl rfl
        · refine Eq.trans ?_ hpending.symm
          exact congrArg (· + 1) (FairQueue.pending_activate _ _)
      | false =>
        have hbusy : e.account.isBusy = true := by rw [Entry.isBusy_account, hempty]; rfl
        simp only [Bool.false_eq_true, if_false]
        refine ⟨rfl, ?_, ?_, ?_⟩
        · refine (FairQueue.plain_counted { q with targets := q.targets.set t filled } _).trans ?_
          rw [FairQueue.plain_set he]
          simp only [Answer.ofDone, PlainQueue.enqueue, PlainQueue.filled, hbusy, hfilled]
          rfl
        · exact (h.slotted.set_kept he hbusy filled hslot).of_counters rfl rfl rfl
        · exact hpending.symm

theorem peek (h : Sound q) : Tracks (q.step cost .peek) (q.plain.step cost .peek) := by
  refine ⟨?_, rfl, h.slotted.settle, h.pending⟩
  show Answer.head q.peek.1 = Answer.head q.plain.peek
  refine congrArg Answer.head ?_
  simp only [FairQueue.peek, PlainQueue.peek]
  cases hleast : q.settle.heap.least? with
  | none =>
    rw [h.slotted.settle_least_eq_none hleast]
    rfl
  | some s =>
    obtain ⟨e, he, -, hnext⟩ := h.slotted.settle_least_eq_some hleast
    have he' : q.settle.targets.get? s.target = some e := he
    rw [hnext]
    simp only [Option.bind_eq_bind, Option.bind_some, he', Fifo.first?_eq]
    rfl

theorem pop (h : Sound q) : Tracks (q.step cost .pop) (q.plain.step cost .pop) := by
  simp only [FairQueue.step, PlainQueue.step, FairQueue.popWith, PlainQueue.pop]
  cases hleast : q.settle.heap.least? with
  | none =>
    rw [h.slotted.settle_least_eq_none hleast]
    exact h.settle.tracks _
  | some s =>
    obtain ⟨e, he, hslot, hnext⟩ := h.slotted.settle_least_eq_some hleast
    obtain ⟨haccount, hbusy, -⟩ := q.listed_plain.next?_eq_some.mp hnext
    have he' : q.settle.targets.get? s.target = some e := he
    have htime : s.virtualTime = e.account.virtualTime := congrArg Slot.virtualTime hslot
    rw [hnext]
    simp only [he']
    cases hpop : e.backlog.pop? with
    | none =>
      -- The next target is busy.
      have hnil : e.account.backlog = [] := (Fifo.pop?_eq_none _).mp hpop
      simp [Account.isBusy, hnil] at hbusy
    | some popped =>
      obtain ⟨⟨resource, size⟩, backlog⟩ := popped
      have hbacklog : e.account.backlog = (resource, size) :: backlog.toList :=
        Fifo.toList_of_pop? hpop
      have hpending := q.listed_plain.pending_serve haccount hbacklog (cost e.account.priority size)
      rw [← h.pending] at hpending
      simp only [hbacklog]
      refine ⟨rfl, ?_, ?_, ?_⟩
      · refine (congrArg (PlainQueue.count size) (FairQueue.plain_reslotted he
          (e.served backlog (Word.add s.virtualTime (cost e.priority size)) size))).trans ?_
        rw [htime]
        rfl
      · exact (h.slotted.reslotted hleast (e.served backlog _ size)).of_counters rfl rfl rfl
      · have hsame := FairQueue.pending_reslotted q s
          (e.served backlog (Word.add s.virtualTime (cost e.priority size)) size)
        refine (congrArg (· - 1) hsame).trans ?_
        show q.pending - 1 = (q.plain.serve s.target e.account backlog.toList size
          (cost e.account.priority size)).pending
        omega

theorem query (h : Sound q) (question : Query) :
    Tracks (q.step cost (.query question)) (q.plain.step cost (.query question)) := by
  refine ⟨?_, rfl, h.slotted, h.pending⟩
  show q.answer question = q.plain.answer question
  have hlen : q.plain.ids.length = q.targets.size := q.targets.length_targets
  cases question with
  | pendingOf t =>
    have hsize : (fun e : Entry ρ => e.backlog.size) = fun e => e.account.backlog.length := by
      funext e
      exact e.backlog.size_eq_length
    simp only [FairQueue.answer, PlainQueue.answer, FairQueue.pendingOf, hsize,
      FairQueue.account_plain, Option.map_map]
    rfl
  | totalPending => simp only [FairQueue.answer, PlainQueue.answer, h.pending]
  | isEmpty => simp only [FairQueue.answer, PlainQueue.answer, FairQueue.isEmpty, h.pending]
  | deliveredOf t =>
    simp only [FairQueue.answer, PlainQueue.answer, FairQueue.account_plain, Option.map_map]
    rfl
  | priorityOf t =>
    simp only [FairQueue.answer, PlainQueue.answer, FairQueue.account_plain, Option.map_map]
    rfl
  | registrationOf t =>
    simp only [FairQueue.answer, PlainQueue.answer, FairQueue.account_plain, Option.map_map]
    rfl
  | contains t =>
    simp only [FairQueue.answer, PlainQueue.answer, FairQueue.account_plain, Option.isSome_map]
    rfl
  | targetIds => rfl
  | stats =>
    simp only [FairQueue.answer, PlainQueue.answer, FairQueue.stats, PlainQueue.stats, hlen,
      FairQueue.activeTargets_eq, h.pending]
    rfl
  | diagnostic =>
    simp only [FairQueue.answer, PlainQueue.answer, FairQueue.diagnostic, PlainQueue.diagnostic,
      hlen, h.pending]
    rfl

theorem step (h : Sound q) (cost : Cost) (call : Call ρ) :
    Tracks (q.step cost call) (q.plain.step cost call) := by
  cases call with
  | addTarget t priority => exact h.addTarget t priority
  | removeTarget t => exact h.removeTarget t
  | setPriority t priority => exact h.setPriority t priority
  | push t resource size => exact h.push t resource size
  | peek => exact h.peek
  | pop => exact h.pop
  | query question => exact h.query question

end Sound

theorem Tracks.sound {x : Answer ρ × FairQueue ρ} {y : Answer ρ × PlainQueue ρ} (h : Tracks x y) :
    Sound x.2 :=
  ⟨h.slotted, by rw [h.plain, h.pending]⟩

/-- A sound queue stays sound. -/
theorem Sound.of_step {q' : FairQueue ρ} {call : Call ρ} {answer : Answer ρ} (h : Sound q)
    (hstep : q.step cost call = (answer, q')) : Sound q' := by
  have hsound := (h.step cost call).sound
  rw [hstep] at hsound
  exact hsound

/-- What a call on a sound queue does to the books. -/
theorem Sound.effect {q' : FairQueue ρ} {call : Call ρ} {answer : Answer ρ} (h : Sound q)
    (hstep : q.step cost call = (answer, q')) : Effect cost q.plain call answer q'.plain := by
  have htracks := h.step cost call
  have heffect := step_effect cost q.plain call
  rw [← htracks.answer, ← htracks.plain, hstep] at heffect
  exact heffect

end Fair

/-! ### Runs -/

namespace FairQueue

theorem plain_ofSettings (settings : FairSettings) :
    (ofSettings settings : FairQueue ρ).plain = PlainQueue.ofSettings settings := by
  refine PlainQueue.ext rfl rfl ?_ rfl rfl rfl rfl rfl rfl
  funext t
  show ((Roster.empty : Roster (Entry ρ)).get? t).map Entry.account = none
  rw [Roster.get?_empty, Option.map_none]

theorem sound_after (cost : Cost) (h : Sound q) (calls : List (Call ρ)) :
    Sound (q.after cost calls) := by
  induction calls generalizing q with
  | nil => exact h
  | cons call calls ih => exact ih (h.step cost call).sound

theorem plain_after (cost : Cost) (h : Sound q) (calls : List (Call ρ)) :
    (q.after cost calls).plain = q.plain.after cost calls := by
  induction calls generalizing q with
  | nil => rfl
  | cons call calls ih =>
    have hstep := h.step cost call
    have hrest := ih hstep.sound
    rw [hstep.plain] at hrest
    exact hrest

/-- A run of a fair queue has the history that its books have. -/
theorem history_plain (cost : Cost) (h : Sound q) (calls : List (Call ρ)) :
    q.history cost calls = q.plain.history cost calls := by
  induction calls generalizing q with
  | nil => rfl
  | cons call calls ih =>
    have hstep := h.step cost call
    simp only [history, PlainQueue.history, ih hstep.sound, hstep.answer, hstep.plain]

/-- **A heap with stale slots keeps the plain schedule.** Whatever is asked of a new queue, it answers
as the queue without slots and generations does. -/
theorem answers_eq_plain_answers (settings : FairSettings) (cost : Cost) (calls : List (Call ρ)) :
    (ofSettings settings : FairQueue ρ).answers cost calls =
      (PlainQueue.ofSettings settings : PlainQueue ρ).answers cost calls := by
  rw [answers, history_plain cost (Sound.ofSettings settings), plain_ofSettings]
  rfl

end FairQueue

end Sluice
