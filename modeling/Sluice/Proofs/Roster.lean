import Mathlib.Algebra.BigOperators.Group.List.Basic
import Mathlib.Algebra.Ring.Nat
import Mathlib.Data.List.Sort
import Sluice.Roster

/-!
# The listing of a roster

The targets of a roster are listed in ascending order, each once, and an ascending list is fixed by
its members (`Id.Ascending.eq_of_mem_iff`). So what an operation does to the listing follows from what
it does to `get?`: setting a new target inserts it in its place (`targets_set`), setting a known one
changes nothing, and taking one out leaves the others (`targets_erase`).
-/

namespace Sluice

namespace Id

variable {kind : Kind}

/-- Each identifier of a list is above those before it. -/
def Ascending (ids : List (Id kind)) : Prop := ids.Pairwise fun i j => i.raw < j.raw

theorem Ascending.nodup {ids : List (Id kind)} (h : Ascending ids) : ids.Nodup :=
  h.imp fun hlt heq => Nat.ne_of_lt hlt (congrArg raw heq)

/-- An ascending list is fixed by its members. -/
theorem Ascending.eq_of_mem_iff {ids ids' : List (Id kind)} (h : Ascending ids)
    (h' : Ascending ids') (hmem : ∀ i, i ∈ ids ↔ i ∈ ids') : ids = ids' := by
  have hperm : ids.Perm ids' := (List.perm_ext_iff_of_nodup h.nodup h'.nodup).mpr hmem
  refine hperm.eq_of_pairwise ?_ h h'
  intro i j _ _ hij hji
  exact absurd hij (Nat.lt_asymm hji)

theorem mem_insertAscending {i j : Id kind} {ids : List (Id kind)} :
    j ∈ insertAscending i ids ↔ j = i ∨ j ∈ ids := by
  induction ids with
  | nil => simp [insertAscending]
  | cons k rest ih =>
    simp only [insertAscending]
    split
    · exact List.mem_cons
    · split
      · rename_i heq
        obtain rfl : i = k := Id.ext heq
        simp only [List.mem_cons, or_self_left]
      · simp only [List.mem_cons, ih]
        tauto

theorem Ascending.insert {i : Id kind} {ids : List (Id kind)} (h : Ascending ids) :
    Ascending (insertAscending i ids) := by
  induction ids with
  | nil => exact List.pairwise_singleton _ i
  | cons k rest ih =>
    obtain ⟨hk, hrest⟩ := List.pairwise_cons.mp h
    simp only [insertAscending]
    split
    · rename_i hlt
      refine List.pairwise_cons.mpr ⟨?_, h⟩
      intro j hj
      rcases List.mem_cons.mp hj with rfl | hj
      · exact hlt
      · exact Nat.lt_trans hlt (hk j hj)
    · split
      · exact h
      · refine List.pairwise_cons.mpr ⟨?_, ih hrest⟩
        intro j hj
        rcases mem_insertAscending.mp hj with rfl | hj
        · omega
        · exact hk j hj

theorem Ascending.filter {ids : List (Id kind)} (h : Ascending ids) (p : Id kind → Bool) :
    Ascending (ids.filter p) :=
  List.Pairwise.filter p h

/-- Inserting a new identifier only adds it. -/
theorem perm_insertAscending {i : Id kind} {ids : List (Id kind)} (h : Ascending ids)
    (hi : i ∉ ids) : (insertAscending i ids).Perm (i :: ids) := by
  refine (List.perm_ext_iff_of_nodup h.insert.nodup (List.nodup_cons.mpr ⟨hi, h.nodup⟩)).mpr ?_
  intro j
  rw [mem_insertAscending, List.mem_cons]

/-- A sum over identifiers, with one of them taken apart. -/
theorem Ascending.sum_map {ids : List (Id kind)} (h : Ascending ids) {i : Id kind} (hi : i ∈ ids)
    (f : Id kind → Nat) :
    (ids.map f).sum = f i + ((ids.filter (· ≠ i)).map f).sum := by
  have hperm : ids.Perm (i :: ids.filter (· ≠ i)) := by
    refine (List.perm_ext_iff_of_nodup h.nodup (List.nodup_cons.mpr ⟨?_, ?_⟩)).mpr ?_
    · simp
    · exact (h.filter _).nodup
    · intro j
      by_cases hji : j = i
      · simp [hji, hi]
      · simp [hji]
  rw [(hperm.map f).sum_eq, List.map_cons, List.sum_cons]

/-- Functions that agree off one identifier have sums that differ by their values there. -/
theorem Ascending.sum_map_of_eq {ids : List (Id kind)} (h : Ascending ids) {i : Id kind}
    (hi : i ∈ ids) {f g : Id kind → Nat} (hfg : ∀ j, j ≠ i → f j = g j) :
    (ids.map f).sum + g i = (ids.map g).sum + f i := by
  have hrest : (ids.filter (· ≠ i)).map f = (ids.filter (· ≠ i)).map g := by
    refine List.map_congr_left fun j hj => hfg j ?_
    simpa using (List.mem_filter.mp hj).2
  rw [h.sum_map hi f, h.sum_map hi g, hrest]
  omega

end Id

namespace Roster

variable {α : Type} {r : Roster α} {t : TargetId} {a : α}

theorem ascending_targets (r : Roster α) : Id.Ascending r.targets :=
  List.pairwise_map.mpr r.ascending_entries

theorem mem_targets : t ∈ r.targets ↔ ∃ a, r.get? t = some a := by
  simp only [targets, List.mem_map]
  constructor
  · rintro ⟨⟨u, a⟩, hmem, rfl⟩
    exact ⟨a, (mem_entries r u a).mp hmem⟩
  · rintro ⟨a, ha⟩
    exact ⟨(t, a), (mem_entries r t a).mpr ha, rfl⟩

@[simp]
theorem length_targets (r : Roster α) : r.targets.length = r.size := by
  simp only [targets, List.length_map, length_entries]

theorem targets_set : (r.set t a).targets = Id.insertAscending t r.targets := by
  refine (ascending_targets _).eq_of_mem_iff (ascending_targets r).insert ?_
  intro u
  rw [Id.mem_insertAscending, mem_targets, mem_targets, get?_set]
  by_cases htu : t = u
  · simp only [htu, if_true, Option.some.injEq, exists_eq', true_or]
  · simp only [htu, if_false, Ne.symm htu, false_or]

theorem targets_set_of_some {b : α} (h : r.get? t = some b) :
    (r.set t a).targets = r.targets := by
  refine (ascending_targets _).eq_of_mem_iff (ascending_targets r) ?_
  intro u
  rw [mem_targets, mem_targets, get?_set]
  by_cases htu : t = u
  · simp only [← htu, if_true, Option.some.injEq, exists_eq', h]
  · simp only [htu, if_false]

theorem targets_erase : (r.erase t).targets = r.targets.filter (· ≠ t) := by
  refine (ascending_targets _).eq_of_mem_iff ((ascending_targets r).filter _) ?_
  intro u
  rw [List.mem_filter, mem_targets, mem_targets, get?_erase]
  by_cases htu : t = u
  · simp [htu]
  · simp [htu, Ne.symm htu]

theorem mem_values : a ∈ r.values ↔ ∃ t, r.get? t = some a := by
  simp only [values, List.mem_map]
  constructor
  · rintro ⟨⟨t, b⟩, hmem, rfl⟩
    exact ⟨t, (mem_entries r t b).mp hmem⟩
  · rintro ⟨t, ht⟩
    exact ⟨(t, a), (mem_entries r t a).mpr ht, rfl⟩

theorem size_eq_zero (h : ∀ t, r.get? t = none) : r.size = 0 := by
  rw [← length_entries, List.length_eq_zero_iff, List.eq_nil_iff_forall_not_mem]
  rintro ⟨t, a⟩ hmem
  cases (h t).symm.trans ((mem_entries r t a).mp hmem)

/-- If no two targets have the same value, every value is listed once. -/
theorem nodup_values (hinj : ∀ t u a, r.get? t = some a → r.get? u = some a → t = u) :
    r.values.Nodup := by
  have hentries : r.entries.Nodup := List.Nodup.of_map _ r.ascending_targets.nodup
  refine (List.nodup_map_iff_inj_on hentries).mpr ?_
  rintro ⟨t, a⟩ ht ⟨u, b⟩ hu rfl
  rw [hinj t u a ((mem_entries r t a).mp ht) ((mem_entries r u a).mp hu)]

/-- What `get?` answers with, target by target, is what is listed. -/
theorem filterMap_targets {β : Type} (f : TargetId → α → β) (r : Roster α) :
    (r.targets.filterMap fun t => (r.get? t).map (f t)) = r.entries.map fun e => f e.1 e.2 := by
  rw [targets, List.filterMap_map, ← List.filterMap_eq_map]
  refine List.filterMap_congr ?_
  rintro ⟨t, a⟩ hmem
  simp only [Function.comp_apply, (mem_entries r t a).mp hmem, Option.map_some]

end Roster

end Sluice
