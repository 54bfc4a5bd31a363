import Sluice.Heap

/-!
# The top of a heap is its least element

`Heap.Ordered` says that every tree of a heap has its least element on top. An empty heap is ordered,
and every operation keeps the order, so that `least?` answers with an element that is not above any
other one (`least_le`). Taking least elements out under a condition stops at the first one that does
not satisfy it (`dropWhile_stops`) and takes out only what does (`perm_dropWhile`).

The order is the test that the operations are called with. All that is asked of it is that it
compares any two elements and is transitive.
-/

namespace Sluice

/-- A test that compares any two elements, and consistently. -/
structure Compares {α : Type} (le : α → α → Bool) : Prop where
  total : ∀ a b, le a b = true ∨ le b a = true
  trans : ∀ {a b c}, le a b = true → le b c = true → le a c = true

theorem Compares.refl {α : Type} {le : α → α → Bool} (c : Compares le) (a : α) : le a a = true :=
  (c.total a a).elim id id

namespace Forest

variable {α : Type} {le : α → α → Bool}

/-- Every tree of a row has its least element on top. -/
def Ordered (le : α → α → Bool) : Forest α → Prop
  | empty => True
  | cons a below rest => (∀ b ∈ below.toList, le a b = true) ∧ below.Ordered le ∧ rest.Ordered le

/-- A tree has its least element on top, and so have the trees below it. -/
def TreeOrdered (le : α → α → Bool) (t : α × Forest α) : Prop :=
  (∀ b ∈ t.2.toList, le t.1 b = true) ∧ t.2.Ordered le

theorem ordered_join (c : Compares le) {s t : α × Forest α} (hs : TreeOrdered le s)
    (ht : TreeOrdered le t) : TreeOrdered le (join le s t) := by
  obtain ⟨a, as⟩ := s
  obtain ⟨b, bs⟩ := t
  simp only [join]
  split
  · rename_i hab
    refine ⟨?_, ht.1, ht.2, hs.2⟩
    intro x hx
    simp only [toList, List.mem_cons, List.mem_append] at hx
    rcases hx with rfl | hx | hx
    · exact hab
    · exact c.trans hab (ht.1 x hx)
    · exact hs.1 x hx
  · rename_i hab
    have hba : le b a = true := (c.total a b).resolve_left hab
    refine ⟨?_, hs.1, hs.2, ht.2⟩
    intro x hx
    simp only [toList, List.mem_cons, List.mem_append] at hx
    rcases hx with rfl | hx | hx
    · exact hba
    · exact c.trans hba (hs.1 x hx)
    · exact ht.1 x hx

theorem ordered_gather (c : Compares le) (row : Forest α) (h : row.Ordered le) :
    ∀ t ∈ gather le row, TreeOrdered le t := by
  fun_induction gather le row with
  | case1 => simp
  | case2 a as =>
    rintro t ⟨⟩
    exact ⟨h.1, h.2.1⟩
  | case3 a as b bs rest pair hrest ih =>
    rintro t ⟨⟩
    exact ordered_join c ⟨h.1, h.2.1⟩ ⟨h.2.2.1, h.2.2.2.1⟩
  | case4 a as b bs rest pair tree hrest ih =>
    rintro t ⟨⟩
    have hpair : TreeOrdered le pair := ordered_join c ⟨h.1, h.2.1⟩ ⟨h.2.2.1, h.2.2.2.1⟩
    exact ordered_join c hpair (ih h.2.2.2.2 tree hrest)

end Forest

namespace Heap

variable {α : Type} {le : α → α → Bool} {h : Heap α}

/-- Every tree of a heap has its least element on top. -/
def Ordered (le : α → α → Bool) (h : Heap α) : Prop := ∀ t ∈ h.tree, Forest.TreeOrdered le t

theorem ordered_empty : (empty : Heap α).Ordered le := by
  intro t ht
  simp [empty] at ht

theorem ordered_insert (c : Compares le) (a : α) (ho : h.Ordered le) :
    (h.insert le a).Ordered le := by
  intro t ht
  have hone : Forest.TreeOrdered le (a, Forest.empty) := ⟨by simp [Forest.toList], trivial⟩
  simp only [insert] at ht
  cases htree : h.tree with
  | none =>
    obtain rfl : (a, Forest.empty) = t := by simpa [htree] using ht
    exact hone
  | some tree =>
    obtain rfl : Forest.join le (a, .empty) tree = t := by simpa [htree] using ht
    exact Forest.ordered_join c hone (ho tree htree)

theorem ordered_dropLeast (c : Compares le) (ho : h.Ordered le) : (h.dropLeast le).Ordered le := by
  intro t ht
  obtain ⟨tree, htree, hgather⟩ := Option.bind_eq_some_iff.mp ht
  exact Forest.ordered_gather c tree.2 (ho tree htree).2 t hgather

theorem ordered_ofList (c : Compares le) (as : List α) : (ofList le as).Ordered le := by
  induction as with
  | nil => exact ordered_empty
  | cons a as ih => exact ordered_insert c a ih

theorem ordered_filter (c : Compares le) (p : α → Bool) : (h.filter le p).Ordered le :=
  ordered_ofList c _

/-- The top is not above any element. -/
theorem least_le (c : Compares le) (ho : h.Ordered le) {a b : α} (ha : h.least? = some a)
    (hb : b ∈ h.toList) : le a b = true := by
  obtain ⟨tree, htree, rfl⟩ := Option.map_eq_some_iff.mp ha
  have hb : b ∈ Forest.treeList tree := by simpa [toList, htree] using hb
  rcases List.mem_cons.mp hb with rfl | hb
  · exact c.refl _
  · exact (ho tree htree).1 b hb

theorem least_mem {a : α} (ha : h.least? = some a) : a ∈ h.toList := by
  have := toList_dropLeast (fun _ _ => true) ha
  exact this.mem_iff.mpr List.mem_cons_self

/-! ### Taking least elements out under a condition -/

/-- What is left is ordered and holds all elements that do not satisfy the condition; what is gone
satisfies it; and the first one left does not, unless the number of rounds was too small. -/
theorem dropLeastWhile_spec (c : Compares le) (p : α → Bool) (fuel : Nat) (h : Heap α)
    (ho : h.Ordered le) :
    (dropLeastWhile le p fuel h).Ordered le ∧
      (∃ gone, h.toList.Perm (gone ++ (dropLeastWhile le p fuel h).toList) ∧
        ∀ a ∈ gone, p a = true) ∧
      (h.size ≤ fuel → ∀ a, (dropLeastWhile le p fuel h).least? = some a → p a = false) := by
  induction fuel generalizing h with
  | zero =>
    refine ⟨ho, ⟨[], .refl _, by simp⟩, fun hsize a ha => ?_⟩
    have hnil : h.toList = [] := by
      rw [← List.length_eq_zero_iff, ← size_eq_length]
      omega
    have hmem := least_mem ha
    simp only [dropLeastWhile, hnil, List.not_mem_nil] at hmem
  | succ fuel ih =>
    simp only [dropLeastWhile]
    cases hleast : h.least? with
    | none =>
      refine ⟨ho, ⟨[], .refl _, by simp⟩, fun _ a ha => ?_⟩
      simp [hleast] at ha
    | some b =>
      cases hp : p b with
      | false =>
        simp only [hp, Bool.false_eq_true, if_false]
        refine ⟨ho, ⟨[], .refl _, by simp⟩, fun _ a ha => ?_⟩
        obtain rfl : b = a := by simpa [hleast] using ha
        exact hp
      | true =>
        simp only [hp, if_true]
        obtain ⟨hord, ⟨gone, hperm, hgone⟩, hstop⟩ :=
          ih (h.dropLeast le) (ordered_dropLeast c ho)
        have hdrop := toList_dropLeast le hleast
        refine ⟨hord, ⟨b :: gone, hdrop.trans (.cons b hperm), ?_⟩, fun hsize => hstop ?_⟩
        · intro a ha
          rcases List.mem_cons.mp ha with rfl | ha
          · exact hp
          · exact hgone a ha
        · have hlen := hdrop.length_eq
          rw [← size_eq_length, List.length_cons, ← size_eq_length] at hlen
          omega

variable (c : Compares le) (p : α → Bool)

include c

theorem ordered_dropWhile (ho : h.Ordered le) : (h.dropWhile le p).Ordered le :=
  (dropLeastWhile_spec c p h.size h ho).1

/-- The least element left does not satisfy the condition. -/
theorem dropWhile_stops (ho : h.Ordered le) {a : α} (ha : (h.dropWhile le p).least? = some a) :
    p a = false :=
  (dropLeastWhile_spec c p h.size h ho).2.2 (Nat.le_refl _) a ha

theorem perm_dropWhile (ho : h.Ordered le) :
    ∃ gone, h.toList.Perm (gone ++ (h.dropWhile le p).toList) ∧ ∀ a ∈ gone, p a = true :=
  (dropLeastWhile_spec c p h.size h ho).2.1

end Heap

end Sluice
