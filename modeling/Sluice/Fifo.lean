/-!
# First in, first out

A `Fifo` adds at one end and takes at the other, both in constant time on average: it keeps the
elements in two lists, the second one reversed, and counts them. Its view is `toList`.
-/

namespace Sluice

/-- Elements in the order of their arrival. -/
structure Fifo (α : Type) where
  front : List α := []
  back : List α := []
  size : Nat := 0
  size_eq : size = front.length + back.length := by rfl
  deriving DecidableEq, Repr

namespace Fifo

variable {α : Type}

/-- No elements. -/
def empty : Fifo α := {}

instance : Inhabited (Fifo α) := ⟨empty⟩

/-- The elements, earliest first. -/
def toList (q : Fifo α) : List α := q.front ++ q.back.reverse

/-- Whether there is no element. -/
def isEmpty (q : Fifo α) : Bool := q.size == 0

/-- Adds an element behind the others. -/
def push (q : Fifo α) (a : α) : Fifo α where
  front := q.front
  back := a :: q.back
  size := q.size + 1
  size_eq := by have := q.size_eq; simp only [List.length_cons]; omega

/-- The earliest element. -/
def first? (q : Fifo α) : Option α :=
  match q.front with
  | a :: _ => some a
  | [] => q.back.getLast?

/-- The earliest element and the others. -/
def pop? (q : Fifo α) : Option (α × Fifo α) :=
  match h : q.front with
  | a :: rest =>
    some (a, ⟨rest, q.back, q.size - 1, by
      have := q.size_eq; simp only [h, List.length_cons] at this; omega⟩)
  | [] =>
    match h' : q.back.reverse with
    | [] => none
    | a :: rest =>
      some (a, ⟨rest, [], q.size - 1, by
        have h₁ := q.size_eq
        have h₂ := congrArg List.length h'
        simp only [List.length_reverse, List.length_cons] at h₂
        simp only [h, List.length_nil] at h₁ ⊢
        omega⟩)

/-- The elements at the front that satisfy a predicate, and the others from the first one on that does
not. -/
def span (p : α → Bool) (q : Fifo α) : List α × Fifo α :=
  let gone := q.front.takeWhile p
  match h : q.front.dropWhile p with
  | a :: rest =>
    (gone, ⟨a :: rest, q.back, q.size - gone.length, by
      have h₁ := q.size_eq
      have h₂ : gone.length + (q.front.dropWhile p).length = q.front.length := by
        rw [← List.length_append, List.takeWhile_append_dropWhile]
      rw [h] at h₂
      omega⟩)
  | [] =>
    let others := q.back.reverse.dropWhile p
    (gone ++ q.back.reverse.takeWhile p, ⟨others, [], others.length, by simp⟩)

@[simp]
theorem toList_empty : (empty : Fifo α).toList = [] := rfl

@[simp]
theorem toList_push (q : Fifo α) (a : α) : (q.push a).toList = q.toList ++ [a] := by
  simp [toList, push]

theorem size_eq_length (q : Fifo α) : q.size = q.toList.length := by
  simp [toList, q.size_eq]

theorem isEmpty_iff (q : Fifo α) : q.isEmpty = true ↔ q.toList = [] := by
  simp [isEmpty, size_eq_length]

/-- There is one way of having no element. -/
theorem eq_empty {q : Fifo α} (h : q.toList = []) : q = empty := by
  obtain ⟨front, back, size, hsize⟩ := q
  obtain ⟨rfl, hback⟩ := List.append_eq_nil_iff.mp h
  obtain rfl := List.reverse_eq_nil_iff.mp hback
  obtain rfl : size = 0 := hsize
  rfl

theorem first?_eq (q : Fifo α) : q.first? = q.toList.head? := by
  simp only [first?, toList]
  split <;> rename_i h <;> simp [h]

theorem pop?_eq_none (q : Fifo α) : q.pop? = none ↔ q.toList = [] := by
  simp only [pop?, toList]
  split
  · rename_i h; simp [h]
  · rename_i h
    split
    · rename_i h'; simp [h, h']
    · rename_i h'; simp [h, h']

theorem toList_of_pop? {q rest : Fifo α} {a : α} (h : q.pop? = some (a, rest)) :
    q.toList = a :: rest.toList := by
  simp only [pop?] at h
  split at h
  · rename_i h'
    obtain ⟨rfl, rfl⟩ := by simpa using h
    simp [toList, h']
  · rename_i h'
    split at h
    · simp at h
    · rename_i h''
      obtain ⟨rfl, rfl⟩ := by simpa using h
      simp [toList, h', h'']

theorem span_eq (p : α → Bool) (q : Fifo α) :
    (q.span p).1 = q.toList.takeWhile p ∧ (q.span p).2.toList = q.toList.dropWhile p := by
  simp only [span, toList, List.takeWhile_append, List.dropWhile_append]
  split <;> rename_i h
  · have h' : (q.front.takeWhile p).length ≠ q.front.length := by
      have h₂ : (q.front.takeWhile p).length + (q.front.dropWhile p).length = q.front.length := by
        rw [← List.length_append, List.takeWhile_append_dropWhile]
      rw [h, List.length_cons] at h₂
      omega
    simp [h, h']
  · have h₂ : q.front.takeWhile p ++ q.front.dropWhile p = q.front :=
      List.takeWhile_append_dropWhile
    rw [h, List.append_nil] at h₂
    simp [h, h₂]

end Fifo

end Sluice
