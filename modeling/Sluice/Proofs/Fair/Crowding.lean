import Sluice.Proofs.Fair.Frame

/-!
# How many slots there are

Stale slots stay in the heap until they come to the top, or until the heap is built anew. A call adds one slot at
the most, and only a call that adds one looks at how many there are, so the bound at that moment is one for the
targets registered then. Taking targets out lowers that bound and not the heap: what bounds the heap throughout is
the largest number of targets that there has been (`heap_size_after`).

A rebuild keeps the live slots and nothing else. In a slotted queue no two live slots are of one target, so there
are no more of them than busy targets (`Slotted.live_length_le`).
-/

namespace Sluice

open Fair

variable {ρ : Type} {q : FairQueue ρ} {cost : Cost} {t : TargetId}

namespace FairQueue

theorem activeTargets_le (q : FairQueue ρ) : q.stats.activeTargets ≤ q.stats.targets := by
  refine (List.length_filter_le _ _).trans ?_
  rw [Roster.values, List.length_map, Roster.length_entries]
  exact Nat.le_refl _

/-- Settling adds no slot. -/
theorem settle_size_le (h : Slotted none q) : q.settle.heap.size ≤ q.heap.size := by
  obtain ⟨gone, hperm, -⟩ := Heap.perm_dropWhile Slot.compares (fun slot => !q.isLive slot) h.ordered
  have hlen : q.heap.toList.length = gone.length + q.settle.heap.toList.length := by
    rw [hperm.length_eq, List.length_append]
    rfl
  rw [Heap.size_eq_length, Heap.size_eq_length]
  omega

theorem mem_compact {s : Slot} : s ∈ q.compact.heap.toList ↔ s ∈ q.heap.toList ∧ q.isLive s = true :=
  (Heap.toList_filter Slot.le q.isLive q.heap).mem_iff.trans List.mem_filter

end FairQueue

namespace Fair

/-- A live slot is the slot of its target. -/
theorem Slotted.entry_of_live (h : Slotted none q) {s : Slot} (hs : s ∈ q.heap.toList.filter q.isLive) :
    ∃ e, q.targets.get? s.target = some e ∧ e.account.isBusy ∧ s = e.slot s.target := by
  obtain ⟨hmem, hlive⟩ := List.mem_filter.mp hs
  obtain ⟨e, he, hbusy, hgeneration⟩ := FairQueue.isLive_iff.mp hlive
  exact ⟨e, he, hbusy, h.live_eq hmem he hbusy hgeneration (by simp)⟩

/-- There are no more live slots than busy targets. -/
theorem Slotted.live_length_le (h : Slotted none q) :
    (q.heap.toList.filter q.isLive).length ≤ q.stats.activeTargets := by
  have hslots : (q.heap.toList.filter q.isLive).Nodup := (List.Nodup.of_map _ h.distinct).filter _
  have htargets : ((q.heap.toList.filter q.isLive).map (·.target)).Nodup := by
    refine (List.nodup_map_iff_inj_on hslots).mpr fun s hs s' hs' htarget => ?_
    obtain ⟨e, he, -, hslot⟩ := h.entry_of_live hs
    obtain ⟨e', he', -, hslot'⟩ := h.entry_of_live hs'
    rw [htarget, he'] at he
    rw [hslot, hslot', htarget, Option.some.inj he]
  have hbusy : (q.heap.toList.filter q.isLive).map (·.target) ⊆ q.plain.busy.map (·.1) := by
    intro u hu
    obtain ⟨s, hs, rfl⟩ := List.mem_map.mp hu
    obtain ⟨e, he, hbusy, -⟩ := h.entry_of_live hs
    have haccount : q.plain.account s.target = some e.account := by
      rw [FairQueue.account_plain, he, Option.map_some]
    exact List.mem_map.mpr ⟨_, q.listed_plain.mem_busy.mpr ⟨haccount, hbusy⟩, rfl⟩
  have hle := (List.subperm_of_subset htargets hbusy).length_le
  rw [List.length_map, List.length_map, ← FairQueue.activeTargets_eq] at hle
  exact hle

theorem Slotted.compact_size_le (h : Slotted none q) : q.compact.heap.size ≤ q.stats.activeTargets := by
  rw [Heap.size_eq_length]
  exact (Heap.toList_filter Slot.le q.isLive q.heap).length_eq.trans_le h.live_length_le

/-- When a target is about to have a new slot, it is the only one that may be without. -/
theorem Issue.slotted {call : Call ρ} {answer : Answer ρ} {p : FairQueue ρ} (h : Issue cost q call answer p t)
    (hq : Slotted none q) : Slotted (some t) p := by
  cases h with
  | reweighted => exact hq.weaken.set _
  | woken => exact (hq.settle.weaken.set _).of_counters rfl rfl rfl
  | served hleast => exact ((hq.dropLeast hleast).set _).of_counters rfl rfl rfl

/-- The target is registered. -/
theorem Issue.get? {call : Call ρ} {answer : Answer ρ} {p : FairQueue ρ} (h : Issue cost q call answer p t) :
    ∃ e, p.targets.get? t = some e := by
  cases h with
  | _ => exact ⟨_, (Roster.get?_set _ _ _ _).trans (if_pos rfl)⟩

/-- A call that adds a slot and thereby comes to a queue with too many of them, so that the heap is built anew. Nothing
else has it built anew. -/
inductive Rebuild (cost : Cost) (q : FairQueue ρ) (call : Call ρ) : FairQueue ρ → Prop
  | crowded {answer : Answer ρ} {p : FairQueue ρ} {t : TargetId} {e : Entry ρ} :
      Issue cost q call answer p t → p.targets.get? t = some e → (p.withSlot t e).IsCrowded →
      Rebuild cost q call (p.withSlot t e)

theorem Rebuild.slotted {call : Call ρ} {p : FairQueue ρ} (h : Rebuild cost q call p) (hq : Slotted none q) :
    Slotted none p := by
  cases h with
  | crowded hissue => exact (hissue.slotted hq).insert _

/-- The queue that the call leaves is the crowded one without its stale slots. -/
theorem Rebuild.step {call : Call ρ} {p : FairQueue ρ} (h : Rebuild cost q call p) :
    (q.step cost call).2 = p.compact := by
  cases h with
  | crowded hissue he hcrowded => rw [hissue.step, FairQueue.issue_of_get? he, if_pos hcrowded]

/-- A call leaves a larger heap than it finds only within the bound for the targets that it leaves. -/
theorem Outcome.heap_size_le {call : Call ρ} {answer : Answer ρ} {q' : FairQueue ρ}
    (h : Outcome cost q call answer q') (hq : Slotted none q) :
    q'.heap.size ≤ max q.heap.size (2 * q'.stats.targets + slack) := by
  have hsettle := FairQueue.settle_size_le hq
  cases h with
  | refused => exact le_max_left _ _
  | registered => exact le_max_left _ _
  | removed => exact le_max_left _ _
  | reweighted => exact le_max_left _ _
  | queued => exact le_max_left _ _
  | drained => exact le_max_of_le_left ((Nat.sub_le _ 1).trans hsettle)
  | @issued call answer p t hissue =>
    obtain ⟨e, he⟩ := hissue.get?
    rw [FairQueue.issue_of_get? he]
    split
    · have hactive : (p.withSlot t e).compact.heap.size ≤ (p.withSlot t e).stats.activeTargets :=
        ((hissue.slotted hq).insert e).compact_size_le
      have htargets := (p.withSlot t e).activeTargets_le
      refine le_max_of_le_right ?_
      show (p.withSlot t e).compact.heap.size ≤ 2 * (p.withSlot t e).stats.targets + slack
      omega
    · next hroomy => exact le_max_of_le_right (Nat.not_lt.mp hroomy)
  | unserved => exact le_max_of_le_left hsettle
  | peeked => exact le_max_of_le_left hsettle
  | asked => exact le_max_left _ _

end Fair

namespace FairQueue

/-- The largest number of targets that are registered at one time in the course of some calls. -/
def mostTargets (cost : Cost) (q : FairQueue ρ) : List (Call ρ) → Nat
  | [] => q.stats.targets
  | call :: calls => max q.stats.targets (mostTargets cost (q.step cost call).2 calls)

theorem targets_le_mostTargets (cost : Cost) (q : FairQueue ρ) (calls : List (Call ρ)) :
    q.stats.targets ≤ q.mostTargets cost calls := by
  cases calls with
  | nil => exact Nat.le_refl _
  | cons call calls => exact le_max_left _ _

/-- A heap within the bound for some number of targets stays within the bound for the largest number there is. -/
theorem heap_size_after (cost : Cost) (h : Sound q) {n : Nat} (hsize : q.heap.size ≤ 2 * n + slack)
    (calls : List (Call ρ)) :
    (q.after cost calls).heap.size ≤ 2 * max n (q.mostTargets cost calls) + slack := by
  induction calls generalizing q n with
  | nil =>
    have hmax := Nat.le_max_left n (q.mostTargets cost [])
    show q.heap.size ≤ _
    omega
  | cons call calls ih =>
    have hstep := (step_outcome cost h.slotted call).heap_size_le h.slotted
    have hnext : (q.step cost call).2.heap.size ≤ 2 * max n (q.step cost call).2.stats.targets + slack := by
      omega
    have hrest := ih (h.step cost call).sound hnext
    have hmost := targets_le_mostTargets cost (q.step cost call).2 calls
    show ((q.step cost call).2.after cost calls).heap.size ≤
      2 * max n (max q.stats.targets ((q.step cost call).2.mostTargets cost calls)) + slack
    omega

/-- **The heap stays small.** In every state that a new queue can come to, it holds two slots for each of the largest
number of targets that there have been, and some slack, at the most, and the slot of every busy target is in it. When a
call builds it anew, there are no more slots left than busy targets, and every live slot is among them. -/
theorem heap_bounded (settings : FairSettings) (cost : Cost) (calls : List (Call ρ)) :
    ((ofSettings settings).after cost calls).heap.size ≤
      2 * (ofSettings settings : FairQueue ρ).mostTargets cost calls + slack ∧
    (∀ t e, ((ofSettings settings).after cost calls).targets.get? t = some e → e.backlog.isEmpty = false →
      e.slot t ∈ ((ofSettings settings).after cost calls).heap.toList) ∧
    ∀ call p, Rebuild cost ((ofSettings settings).after cost calls) call p →
      (((ofSettings settings).after cost calls).step cost call).2 = p.compact ∧
      p.compact.heap.size ≤ p.compact.stats.activeTargets ∧
      ∀ s ∈ p.heap.toList, p.isLive s = true → s ∈ p.compact.heap.toList := by
  have hstart : Sound (ofSettings settings : FairQueue ρ) := Sound.ofSettings settings
  have hslotted := (sound_after cost hstart calls).slotted
  refine ⟨?_, fun t e he hbusy => ?_, fun call p hrebuild => ⟨hrebuild.step, ?_, fun s hs hlive => ?_⟩⟩
  · have hempty : (ofSettings settings : FairQueue ρ).heap.size ≤ 2 * 0 + slack := Nat.zero_le _
    have hsize := heap_size_after cost hstart hempty calls
    rw [Nat.zero_max] at hsize
    exact hsize
  · have haccount : e.account.isBusy = true := by
      rw [e.isBusy_account, hbusy]
      rfl
    exact hslotted.slot_mem he haccount (by simp)
  · exact (hrebuild.slotted hslotted).compact_size_le
  · exact mem_compact.mpr ⟨hs, hlive⟩

/-- One busy target whose priority is set as often as the heap takes it without being built anew. -/
def churn : List (Call Unit) :=
  [.addTarget ⟨1⟩ ⟨0x3f800000⟩, .push ⟨1⟩ () 10] ++
    List.replicate 65 (.setPriority ⟨1⟩ ⟨0x40000000⟩)

/-- The bound is attained. -/
example : ((ofSettings .small).after Fair.cost churn).heap.size = 2 * 1 + slack := by decide +kernel

/-- The queue after that, with its one target at the first priority again, but no slot for it yet. -/
def churned (e : Entry Unit) : FairQueue Unit :=
  let q := (ofSettings .small).after Fair.cost churn
  { q with targets := q.targets.set ⟨1⟩ { e with priority := ⟨0x3f800000⟩ } }

/-- Setting the priority once more leaves one slot. -/
theorem heap_bounded_churn :
    ∃ p, Rebuild Fair.cost ((ofSettings .small).after Fair.cost churn) (.setPriority ⟨1⟩ ⟨0x3f800000⟩) p ∧
      p.compact.heap.size ≤ p.compact.stats.activeTargets ∧
      ∀ s ∈ p.heap.toList, p.isLive s = true → s ∈ p.compact.heap.toList := by
  have hcrowded : ∃ e ∈ ((ofSettings .small).after Fair.cost churn).targets.get? ⟨1⟩,
      e.backlog.isEmpty = false ∧
        ((churned e).withSlot ⟨1⟩ { e with priority := ⟨0x3f800000⟩ }).IsCrowded := by
    decide +kernel
  obtain ⟨e, he, hbusy, hcrowded⟩ := hcrowded
  have hissue : Issue Fair.cost ((ofSettings .small).after Fair.cost churn)
      (.setPriority ⟨1⟩ ⟨0x3f800000⟩) .done (churned e) ⟨1⟩ :=
    .reweighted (by decide) he hbusy
  have hentry : (churned e).targets.get? ⟨1⟩ = some { e with priority := ⟨0x3f800000⟩ } :=
    (Roster.get?_set _ _ _ _).trans (if_pos rfl)
  have hrebuild := Rebuild.crowded hissue hentry hcrowded
  exact ⟨_, hrebuild, ((heap_bounded .small Fair.cost churn).2.2 _ _ hrebuild).2⟩

end FairQueue

end Sluice
