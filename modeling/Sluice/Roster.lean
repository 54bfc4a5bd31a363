import Sluice.Identifier.Basic
import Std.Data.TreeMap

/-!
# What is registered under each target

A `Roster` maps targets to values. It is a search tree over the numbers of the targets, so looking a
target up, setting its value and taking it out cost the logarithm of the number of targets. The view
is `get?`: `get?_set` and `get?_erase` say what the operations do to it. The entries are listed in
ascending order of the targets (`ascending_entries`) and are what `get?` answers with
(`mem_entries`).
-/

namespace Sluice

/-- Values by target, in ascending order of the targets. -/
structure Roster (α : Type) where
  tree : Std.TreeMap Nat α compare := ∅

namespace Roster

variable {α : Type}

/-- No entries. -/
def empty : Roster α := {}

instance : Inhabited (Roster α) := ⟨empty⟩

/-- The value of a target. -/
def get? (r : Roster α) (t : TargetId) : Option α := r.tree[t.raw]?

/-- Whether a target has a value. -/
def contains (r : Roster α) (t : TargetId) : Bool := (r.get? t).isSome

/-- Sets the value of a target. -/
def set (r : Roster α) (t : TargetId) (a : α) : Roster α := ⟨r.tree.insert t.raw a⟩

/-- Takes out the value of a target. -/
def erase (r : Roster α) (t : TargetId) : Roster α := ⟨r.tree.erase t.raw⟩

/-- The number of targets with a value. -/
def size (r : Roster α) : Nat := r.tree.size

/-- The targets with their values, in ascending order of the targets. -/
def entries (r : Roster α) : List (TargetId × α) := r.tree.toList.map fun e => (⟨e.1⟩, e.2)

/-- The targets in ascending order. -/
def targets (r : Roster α) : List TargetId := r.entries.map (·.1)

/-- The values in the order of their targets. -/
def values (r : Roster α) : List α := r.entries.map (·.2)

@[simp]
theorem get?_empty (t : TargetId) : (empty : Roster α).get? t = none := by
  simp [get?, empty]

theorem get?_set (r : Roster α) (t u : TargetId) (a : α) :
    (r.set t a).get? u = if t = u then some a else r.get? u := by
  simp [get?, set, Std.TreeMap.getElem?_insert, Id.ext_iff]

theorem get?_erase (r : Roster α) (t u : TargetId) :
    (r.erase t).get? u = if t = u then none else r.get? u := by
  simp [get?, erase, Std.TreeMap.getElem?_erase, Id.ext_iff]

@[simp]
theorem size_empty : (empty : Roster α).size = 0 := rfl

theorem contains_eq (r : Roster α) (t : TargetId) : r.contains t = r.tree.contains t.raw :=
  Std.TreeMap.contains_eq_isSome_getElem?.symm

theorem size_erase (r : Roster α) (t : TargetId) :
    (r.erase t).size = if r.contains t then r.size - 1 else r.size := by
  rw [contains_eq]
  exact Std.TreeMap.size_erase

@[simp]
theorem length_entries (r : Roster α) : r.entries.length = r.size := by
  simp [entries, size]

theorem mem_entries (r : Roster α) (t : TargetId) (a : α) :
    (t, a) ∈ r.entries ↔ r.get? t = some a := by
  simp only [entries, get?, List.mem_map, Prod.mk.injEq]
  constructor
  · rintro ⟨⟨n, b⟩, hmem, rfl, rfl⟩
    exact Std.TreeMap.mem_toList_iff_getElem?_eq_some.mp hmem
  · intro h
    exact ⟨(t.raw, a), Std.TreeMap.mem_toList_iff_getElem?_eq_some.mpr h, rfl, rfl⟩

theorem ascending_entries (r : Roster α) :
    r.entries.Pairwise fun a b => a.1.raw < b.1.raw := by
  refine List.pairwise_map.mpr (Std.TreeMap.ordered_keys_toList.imp ?_)
  intro a b h
  exact Nat.compare_eq_lt.mp h

end Roster

end Sluice
