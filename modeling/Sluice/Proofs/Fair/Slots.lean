import Sluice.Proofs.Fair.Plain
import Sluice.Proofs.Heap
import Sluice.Proofs.Roster

/-!
# Slots of busy targets

`Slotted` is the invariant of the heap of a fair queue: every busy target has its slot there, with its
present virtual time and place in the order; a slot that carries the generation of its busy target is
that slot; and no two slots carry the same generation. All other slots are stale.

An operation that changes a busy target leaves it without a slot for a moment. `Slotted (some t)` is
the invariant with `t` excepted, and `Slotted.issue` makes it whole again, whether or not the heap is
built anew on the way. Each operation keeps the invariant. With it, the top of the settled heap is the
busy target that comes first (`settle_least_eq_some`), and there is none only if nobody is busy
(`settle_least_eq_none`).
-/

namespace Sluice

open Fair

namespace Fair

/-- The order of slots as an order of quadruples. -/
def Slot.rank (s : Slot) : Nat ×ₗ Nat ×ₗ Nat ×ₗ Nat :=
  toLex (s.virtualTime, toLex (s.activation, toLex (s.target.raw, s.generation)))

theorem Slot.le_iff (a b : Slot) : Slot.le a b = true ↔ a.rank ≤ b.rank := by
  simp only [Slot.le, Slot.rank, Prod.Lex.toLex_le_toLex]
  split
  · simp only [decide_eq_true_eq]
    omega
  · split
    · simp only [decide_eq_true_eq]
      omega
    · split
      · simp only [decide_eq_true_eq]
        omega
      · simp only [decide_eq_true_eq]
        omega

theorem Slot.compares : Compares Slot.le where
  total a b := by
    simp only [Slot.le_iff]
    exact le_total _ _
  trans hab hbc := by
    rw [Slot.le_iff] at hab hbc ⊢
    exact le_trans hab hbc

variable {ρ : Type}

/-- The slot that a target with an entry has when it is busy. -/
def Entry.slot (t : TargetId) (e : Entry ρ) : Slot := ⟨e.virtualTime, e.activation, t, e.generation⟩

theorem Entry.isBusy_account (e : Entry ρ) : e.account.isBusy = !e.backlog.isEmpty := by
  simp only [Account.isBusy, Entry.account, Fifo.isEmpty, Fifo.size_eq_length]
  cases e.backlog.toList <;> rfl

/-- Slots of busy targets stand in the order of the accounts. -/
theorem Entry.rank_le_of_slot_le {t u : TargetId} {e f : Entry ρ}
    (h : Slot.le (e.slot t) (f.slot u) = true) : e.account.rank t ≤ f.account.rank u := by
  simp only [Slot.le_iff, Slot.rank, Entry.slot, Prod.Lex.toLex_le_toLex] at h
  simp only [Account.rank, Entry.account, Prod.Lex.toLex_le_toLex]
  omega

/-- Every busy target, but for one that is being moved, has its slot in the heap, and this slot alone
carries its generation. -/
structure Slotted (moving : Option TargetId) (q : FairQueue ρ) : Prop where
  ordered : q.heap.Ordered Slot.le
  slot_mem : ∀ {t e}, q.targets.get? t = some e → e.account.isBusy → some t ≠ moving →
    e.slot t ∈ q.heap.toList
  live_eq : ∀ {s e}, s ∈ q.heap.toList → q.targets.get? s.target = some e → e.account.isBusy →
    e.generation = s.generation → some s.target ≠ moving → s = e.slot s.target
  old : ∀ {s}, s ∈ q.heap.toList → s.generation < q.nextGeneration
  distinct : (q.heap.toList.map (·.generation)).Nodup

end Fair

variable {ρ : Type} {moving : Option TargetId} {q : FairQueue ρ}

theorem FairQueue.isLive_iff {q : FairQueue ρ} {s : Slot} :
    q.isLive s = true ↔
      ∃ e, q.targets.get? s.target = some e ∧ e.account.isBusy ∧ e.generation = s.generation := by
  simp only [FairQueue.isLive]
  cases q.targets.get? s.target with
  | none => simp
  | some e =>
    simp only [Bool.and_eq_true, beq_iff_eq, Entry.isBusy_account, Option.some.injEq,
      exists_eq_left', and_comm]

namespace Fair.Slotted

theorem ofSettings (settings : FairSettings) :
    Slotted none (FairQueue.ofSettings settings : FairQueue ρ) where
  ordered := Heap.ordered_empty
  slot_mem h := by simp [FairQueue.ofSettings] at h
  live_eq h := by simp [FairQueue.ofSettings] at h
  old h := by simp [FairQueue.ofSettings] at h
  distinct := by simp [FairQueue.ofSettings]

/-- The slot of a busy target is live. -/
theorem isLive_slot {t : TargetId} {e : Entry ρ} (he : q.targets.get? t = some e)
    (hbusy : e.account.isBusy) : q.isLive (e.slot t) = true :=
  FairQueue.isLive_iff.mpr ⟨e, he, hbusy, rfl⟩

/-! ### What the operations do to the slots -/

/-- Changes to the entries that keep virtual times, places and generations of the busy targets, and
make nobody busy, keep the invariant. -/
theorem of_entries (h : Slotted moving q) {q' : FairQueue ρ} (hheap : q'.heap = q.heap)
    (hgen : q'.nextGeneration = q.nextGeneration)
    (hentry : ∀ {t e'}, some t ≠ moving → q'.targets.get? t = some e' → e'.account.isBusy →
      ∃ e, q.targets.get? t = some e ∧ e.account.isBusy ∧ e.slot t = e'.slot t) :
    Slotted moving q' where
  ordered := hheap ▸ h.ordered
  slot_mem he' hbusy' hmoving := by
    obtain ⟨e, he, hbusy, hslot⟩ := hentry hmoving he' hbusy'
    rw [hheap, ← hslot]
    exact h.slot_mem he hbusy hmoving
  live_eq {s e'} hs he' hbusy' hgeneration hmoving := by
    obtain ⟨e, he, hbusy, hslot⟩ := hentry hmoving he' hbusy'
    rw [hheap] at hs
    rw [← hslot]
    refine h.live_eq hs he hbusy ?_ hmoving
    rw [← hgeneration]
    exact congrArg Slot.generation hslot
  old hs := by
    rw [hheap] at hs
    rw [hgen]
    exact h.old hs
  distinct := hheap ▸ h.distinct

/-- Taking slots out of the heap keeps the invariant as long as the slots of busy targets stay. -/
theorem of_heap (h : Slotted moving q) {moving' : Option TargetId} {heap : Heap Slot}
    (hordered : heap.Ordered Slot.le) (gone : List Slot)
    (hperm : q.heap.toList.Perm (gone ++ heap.toList))
    (hstays : ∀ {t e}, q.targets.get? t = some e → e.account.isBusy → some t ≠ moving' →
      some t ≠ moving ∧ e.slot t ∉ gone) :
    Slotted moving' { q with heap } where
  ordered := hordered
  slot_mem {t e} he hbusy hmoving := by
    obtain ⟨hmoving, hgone⟩ := hstays he hbusy hmoving
    have hmem := hperm.mem_iff.mp (h.slot_mem he hbusy hmoving)
    exact (List.mem_append.mp hmem).resolve_left hgone
  live_eq {s e} hs he hbusy hgeneration hmoving := by
    obtain ⟨hmoving, -⟩ := hstays he hbusy hmoving
    exact h.live_eq (hperm.mem_iff.mpr (List.mem_append_right gone hs)) he hbusy hgeneration hmoving
  old hs := h.old (hperm.mem_iff.mpr (List.mem_append_right gone hs))
  distinct := by
    have hnodup := (hperm.map (·.generation)).nodup_iff.mp h.distinct
    rw [List.map_append] at hnodup
    exact hnodup.of_append_right

theorem settle (h : Slotted none q) : Slotted none q.settle := by
  obtain ⟨gone, hperm, hgone⟩ :=
    Heap.perm_dropWhile Slot.compares (fun slot => !q.isLive slot) h.ordered
  refine h.of_heap (Heap.ordered_dropWhile Slot.compares _ h.ordered) gone hperm ?_
  intro t e he hbusy hmoving
  refine ⟨hmoving, fun hmem => ?_⟩
  have hdead := hgone _ hmem
  simp [isLive_slot he hbusy] at hdead

theorem compact (h : Slotted moving q) : Slotted moving q.compact := by
  have hfilter : (q.heap.toList.filter (!q.isLive ·) ++ q.heap.toList.filter q.isLive).Perm
      q.heap.toList := by
    refine List.perm_append_comm.trans ?_
    exact List.filter_append_perm q.isLive q.heap.toList
  have hperm := hfilter.symm.trans
    (.append_left _ (Heap.toList_filter Slot.le q.isLive q.heap).symm)
  refine h.of_heap (Heap.ordered_filter Slot.compares _) _ hperm ?_
  intro t e he hbusy hmoving
  refine ⟨hmoving, fun hmem => ?_⟩
  have hdead := (List.mem_filter.mp hmem).2
  simp [isLive_slot he hbusy] at hdead

theorem weaken (h : Slotted none q) : Slotted moving q :=
  { h with
    slot_mem := fun he hbusy _ => h.slot_mem he hbusy (by simp)
    live_eq := fun hs he hbusy hgeneration _ => h.live_eq hs he hbusy hgeneration (by simp) }

/-- A target that is not busy needs no slot. -/
theorem of_idle {t : TargetId} (h : Slotted (some t) q)
    (hidle : ∀ e, q.targets.get? t = some e → e.account.isBusy = false) : Slotted none q := by
  have hne {u : TargetId} {e : Entry ρ} (he : q.targets.get? u = some e)
      (hbusy : e.account.isBusy) : some u ≠ some t := by
    rintro ⟨⟩
    rw [hidle e he] at hbusy
    cases hbusy
  exact { h with
    slot_mem := fun he hbusy _ => h.slot_mem he hbusy (hne he hbusy)
    live_eq := fun hs he hbusy hgeneration _ =>
      h.live_eq hs he hbusy hgeneration (hne he hbusy) }

/-- A new generation and a slot that carries it. -/
theorem insert {t : TargetId} (h : Slotted (some t) q) (e : Entry ρ) :
    Slotted none { q with
      targets := q.targets.set t { e with generation := q.nextGeneration }
      heap := q.heap.insert Slot.le ⟨e.virtualTime, e.activation, t, q.nextGeneration⟩
      nextGeneration := q.nextGeneration + 1 } := by
  have hperm := Heap.toList_insert Slot.le
    (⟨e.virtualTime, e.activation, t, q.nextGeneration⟩ : Slot) q.heap
  refine ⟨Heap.ordered_insert Slot.compares _ h.ordered, ?_, ?_, ?_, ?_⟩
  · intro u f hf hbusy _
    rw [Roster.get?_set] at hf
    refine hperm.mem_iff.mpr ?_
    by_cases htu : t = u
    · obtain rfl := Option.some.inj ((if_pos htu).symm.trans hf)
      subst htu
      exact List.mem_cons_self
    · rw [if_neg htu] at hf
      exact List.mem_cons_of_mem _ (h.slot_mem hf hbusy (by simpa using Ne.symm htu))
  · intro s f hs hf hbusy hgeneration _
    rw [Roster.get?_set] at hf
    rcases List.mem_cons.mp (hperm.mem_iff.mp hs) with rfl | hs
    · obtain rfl := Option.some.inj ((if_pos rfl).symm.trans hf)
      rfl
    · by_cases htu : t = s.target
      · -- No older slot carries the new generation.
        obtain rfl := Option.some.inj ((if_pos htu).symm.trans hf)
        have := h.old hs
        simp only at hgeneration
        omega
      · rw [if_neg htu] at hf
        exact h.live_eq hs hf hbusy hgeneration (by simpa using Ne.symm htu)
  · intro s hs
    rcases List.mem_cons.mp (hperm.mem_iff.mp hs) with rfl | hs
    · exact Nat.lt_succ_self _
    · exact Nat.lt_succ_of_lt (h.old hs)
  · refine (hperm.map (·.generation)).nodup_iff.mpr (List.nodup_cons.mpr ⟨?_, h.distinct⟩)
    intro hmem
    obtain ⟨s, hs, heq⟩ := List.mem_map.mp hmem
    exact Nat.lt_irrefl _ (heq ▸ h.old hs)

theorem issue {t : TargetId} (h : Slotted (some t) q) : Slotted none (q.issue t) := by
  simp only [FairQueue.issue]
  cases he : q.targets.get? t with
  | none =>
    refine h.of_idle fun e he' => ?_
    rw [he] at he'
    cases he'
  | some e =>
    simp only
    split
    · exact (h.insert e).compact
    · exact h.insert e

/-- A changed entry of one target leaves the others their slots. -/
theorem set {t : TargetId} (h : Slotted (some t) q) (e : Entry ρ) :
    Slotted (some t) { q with targets := q.targets.set t e } := by
  refine h.of_entries rfl rfl ?_
  intro u f hne hf hbusy
  rw [Roster.get?_set, if_neg (fun htu => hne (congrArg some htu.symm))] at hf
  exact ⟨f, hf, hbusy, rfl⟩

theorem set_idle {t : TargetId} (h : Slotted (some t) q) {e : Entry ρ}
    (he : e.account.isBusy = false) : Slotted none { q with targets := q.targets.set t e } := by
  refine (h.set e).of_idle fun f hf => ?_
  rw [Roster.get?_set, if_pos rfl] at hf
  exact Option.some.inj hf ▸ he

/-- An entry that keeps its slot, and was busy if it is. -/
theorem set_kept (h : Slotted none q) {t : TargetId} {e : Entry ρ}
    (he : q.targets.get? t = some e) (hbusy : e.account.isBusy) (e' : Entry ρ)
    (hslot : e.slot t = e'.slot t) :
    Slotted none { q with targets := q.targets.set t e' } := by
  refine h.of_entries rfl rfl ?_
  intro u f _ hf hbusy'
  rw [Roster.get?_set] at hf
  by_cases htu : t = u
  · obtain rfl := Option.some.inj ((if_pos htu).symm.trans hf)
    subst htu
    exact ⟨e, he, hbusy, hslot⟩
  · rw [if_neg htu] at hf
    exact ⟨f, hf, hbusy', rfl⟩

theorem erase (h : Slotted none q) (t : TargetId) :
    Slotted none { q with targets := q.targets.erase t } := by
  refine h.of_entries rfl rfl ?_
  intro u f _ hf hbusy
  rw [Roster.get?_erase] at hf
  by_cases htu : t = u
  · simp [htu] at hf
  · rw [if_neg htu] at hf
    exact ⟨f, hf, hbusy, rfl⟩

/-- The counters have nothing to do with the slots. -/
theorem of_counters (h : Slotted moving q) {q' : FairQueue ρ} (hheap : q'.heap = q.heap)
    (hgen : q'.nextGeneration = q.nextGeneration) (htargets : q'.targets = q.targets) :
    Slotted moving q' := by
  refine h.of_entries hheap hgen ?_
  intro t e _ he hbusy
  exact ⟨e, htargets ▸ he, hbusy, rfl⟩

theorem activate (h : Slotted none q) (t : TargetId) (e : Entry ρ) (least : Nat) :
    Slotted none (q.activate t e least) := by
  refine issue (t := t) ?_
  exact (h.weaken.set _).of_counters rfl rfl rfl

/-! ### The top of the settled heap -/

/-- A slot on top of the settled heap is that of the busy target that comes first. -/
theorem settle_least_eq_some (h : Slotted none q) {s : Slot}
    (hs : q.settle.heap.least? = some s) :
    ∃ e, q.targets.get? s.target = some e ∧ s = e.slot s.target ∧
      q.plain.next? = some (s.target, e.account) := by
  have hlive : q.isLive s = true := by
    have := Heap.dropWhile_stops Slot.compares (fun slot => !q.isLive slot) h.ordered hs
    simpa using this
  obtain ⟨e, he, hbusy, hgeneration⟩ := FairQueue.isLive_iff.mp hlive
  have hslot : s = e.slot s.target :=
    h.settle.live_eq (Heap.least_mem hs) he hbusy hgeneration (by simp)
  refine ⟨e, he, hslot, q.listed_plain.next?_eq_some.mpr ⟨?_, hbusy, ?_⟩⟩
  · simp only [FairQueue.plain, he, Option.map_some]
  · intro u b hb hbusyu
    obtain ⟨f, hf, rfl⟩ := Option.map_eq_some_iff.mp hb
    have hmem := h.settle.slot_mem hf hbusyu (by simp)
    refine Entry.rank_le_of_slot_le ?_
    rw [← hslot]
    exact Heap.least_le Slot.compares h.settle.ordered hs hmem

/-- The settled heap has no top only if nobody is busy. -/
theorem settle_least_eq_none (h : Slotted none q) (hnone : q.settle.heap.least? = none) :
    q.plain.next? = none := by
  refine q.listed_plain.next?_eq_none.mpr ?_
  intro t a ha
  obtain ⟨e, he, rfl⟩ := Option.map_eq_some_iff.mp ha
  rw [← Bool.not_eq_true]
  intro hbusy
  have hmem := h.settle.slot_mem he hbusy (by simp)
  rw [(Heap.least?_eq_none _).mp hnone] at hmem
  cases hmem

/-- Taking the top off the settled heap leaves its target without a slot. -/
theorem dropLeast (h : Slotted none q) {s : Slot} (hs : q.settle.heap.least? = some s) :
    Slotted (some s.target) { q.settle with heap := q.settle.heap.dropLeast Slot.le } := by
  refine h.settle.of_heap (Heap.ordered_dropLeast Slot.compares h.settle.ordered)
    [s] (Heap.toList_dropLeast Slot.le hs) ?_
  intro t e he hbusy hne
  refine ⟨by simp, fun hmem => hne ?_⟩
  obtain rfl : e.slot t = s := List.mem_singleton.mp hmem
  rfl

end Fair.Slotted

end Sluice
