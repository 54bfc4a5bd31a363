/-!
# Heaps

A `Heap` gives back the least of its elements first. It is a pairing heap: a top, and a row of trees
below it. An insertion joins two trees in constant time, and taking the top off joins the trees of its
row in pairs. The order is a parameter of the operations. The view is `toList`, whose order means
nothing: what counts is which elements it holds.
-/

namespace Sluice

/-- A row of trees, each an element over a row of its own. -/
inductive Forest (α : Type) where
  | empty
  | cons (top : α) (below rest : Forest α)

namespace Forest

variable {α : Type}

/-- The elements of a row. -/
def toList : Forest α → List α
  | empty => []
  | cons a below rest => a :: (below.toList ++ rest.toList)

/-- Joins two trees into one whose top is the lesser of theirs. -/
def join (le : α → α → Bool) : α × Forest α → α × Forest α → α × Forest α
  | (a, as), (b, bs) => if le a b then (a, cons b bs as) else (b, cons a as bs)

/-- Joins the trees of a row, first in pairs and then from the end. -/
def gather (le : α → α → Bool) : Forest α → Option (α × Forest α)
  | empty => none
  | cons a as empty => some (a, as)
  | cons a as (cons b bs rest) =>
    let pair := join le (a, as) (b, bs)
    match gather le rest with
    | none => some pair
    | some tree => some (join le pair tree)

/-- The elements of a tree. -/
def treeList (t : α × Forest α) : List α := t.1 :: t.2.toList

theorem treeList_join (le : α → α → Bool) (s t : α × Forest α) :
    (treeList (join le s t)).Perm (treeList s ++ treeList t) := by
  obtain ⟨a, as⟩ := s
  obtain ⟨b, bs⟩ := t
  simp only [join]
  split
  · simp only [treeList, toList, List.cons_append]
    exact .cons a ((List.Perm.cons b List.perm_append_comm).trans List.perm_middle.symm)
  · simp only [treeList, toList, List.cons_append]
    refine (List.Perm.swap _ _ _).trans (.cons a ?_)
    exact List.perm_middle.symm

theorem gather_perm (le : α → α → Bool) (row : Forest α) :
    (((gather le row).map treeList).getD []).Perm row.toList := by
  fun_induction gather le row with
  | case1 => exact .refl _
  | case2 a as => simp [treeList, toList]
  | case3 a as b bs rest pair h ih =>
    have hnil : rest.toList = [] := by simpa [h] using ih.symm
    refine (treeList_join le _ _).trans ?_
    simp [treeList, toList, hnil]
  | case4 a as b bs rest pair tree h ih =>
    have ih : (treeList tree).Perm rest.toList := by simpa [h] using ih
    refine (treeList_join le _ _).trans (((treeList_join le _ _).append ih).trans ?_)
    simp [treeList, toList]

end Forest

/-- A heap, with the number of its elements. -/
structure Heap (α : Type) where
  tree : Option (α × Forest α) := none
  size : Nat := 0
  size_eq : size = ((tree.map Forest.treeList).getD []).length := by
    exact List.length_nil.symm

namespace Heap

variable {α : Type}

/-- No elements. -/
def empty : Heap α := {}

instance : Inhabited (Heap α) := ⟨empty⟩

/-- The elements, in no particular order. -/
def toList (h : Heap α) : List α := (h.tree.map Forest.treeList).getD []

theorem size_eq_length (h : Heap α) : h.size = h.toList.length := h.size_eq

/-- The least element. -/
def least? (h : Heap α) : Option α := h.tree.map (·.1)

/-- Adds an element. -/
def insert (le : α → α → Bool) (a : α) (h : Heap α) : Heap α where
  tree :=
    match h.tree with
    | none => some (a, .empty)
    | some tree => some (Forest.join le (a, .empty) tree)
  size := h.size + 1
  size_eq := by
    have hsize := h.size_eq
    cases htree : h.tree with
    | none => simp [htree] at hsize; simp [hsize, Forest.treeList, Forest.toList]
    | some tree =>
      have := (Forest.treeList_join le (a, .empty) tree).length_eq
      simp only [htree, Option.map_some, Option.getD_some] at hsize ⊢
      rw [this, hsize]
      simp only [Forest.treeList, Forest.toList, List.length_append, List.length_cons,
        List.length_nil]
      omega

/-- Takes the least element out. -/
def dropLeast (le : α → α → Bool) (h : Heap α) : Heap α where
  tree := h.tree.bind fun t => t.2.gather le
  size := h.size - 1
  size_eq := by
    have hsize := h.size_eq
    cases htree : h.tree with
    | none => simp [htree] at hsize; simp [hsize]
    | some tree =>
      have := (Forest.gather_perm le tree.2).length_eq
      simp only [htree, Option.map_some, Option.getD_some, Forest.treeList,
        List.length_cons] at hsize
      simp only [Option.bind_some, this]
      omega

/-- Takes least elements out as long as they satisfy a condition, at most `fuel` times. -/
def dropLeastWhile (le : α → α → Bool) (p : α → Bool) : Nat → Heap α → Heap α
  | 0, h => h
  | fuel + 1, h =>
    match h.least? with
    | some a => if p a then dropLeastWhile le p fuel (h.dropLeast le) else h
    | none => h

/-- Takes least elements out as long as they satisfy a condition. -/
def dropWhile (le : α → α → Bool) (p : α → Bool) (h : Heap α) : Heap α :=
  dropLeastWhile le p h.size h

/-- A heap of the elements of a list. -/
def ofList (le : α → α → Bool) (as : List α) : Heap α := as.foldr (insert le) empty

/-- The elements that satisfy a condition. -/
def filter (le : α → α → Bool) (p : α → Bool) (h : Heap α) : Heap α :=
  ofList le (h.toList.filter p)

@[simp]
theorem toList_empty : (empty : Heap α).toList = [] := rfl

theorem toList_insert (le : α → α → Bool) (a : α) (h : Heap α) :
    (h.insert le a).toList.Perm (a :: h.toList) := by
  simp only [toList, insert]
  cases h.tree with
  | none => simp [Forest.treeList, Forest.toList]
  | some tree => exact Forest.treeList_join le (a, .empty) tree

theorem toList_dropLeast (le : α → α → Bool) {a : α} {h : Heap α} (ha : h.least? = some a) :
    h.toList.Perm (a :: (h.dropLeast le).toList) := by
  cases htree : h.tree with
  | none => simp [least?, htree] at ha
  | some tree =>
    obtain rfl : tree.1 = a := by simpa [least?, htree] using ha
    simp only [toList, dropLeast, htree, Option.map_some, Option.getD_some, Option.bind_some]
    exact .cons _ (Forest.gather_perm le tree.2).symm

theorem toList_ofList (le : α → α → Bool) (as : List α) : (ofList le as).toList.Perm as := by
  induction as with
  | nil => exact .refl _
  | cons a as ih => exact (toList_insert le a _).trans (.cons a ih)

theorem toList_filter (le : α → α → Bool) (p : α → Bool) (h : Heap α) :
    (h.filter le p).toList.Perm (h.toList.filter p) := toList_ofList le _

theorem least?_eq_none (h : Heap α) : h.least? = none ↔ h.toList = [] := by
  simp only [least?, toList]
  cases h.tree <;> simp [Forest.treeList]

end Heap

end Sluice
