import Mathlib.Data.List.MinMax
import Mathlib.Data.Prod.Lex
import Sluice.Fair.Queue
import Sluice.Proofs.Roster

/-!
# A fair scheduler without slots

A `PlainQueue` is the schedule that a `FairQueue` is to keep, said without a heap and without
generations. It lists its targets in ascending order and has an account of each: backlog, priority,
virtual time and the place in the order of becoming busy. The busy target with the least virtual time
is served next; of equals the one that became busy first, and of those the least target. A target that
becomes busy is lifted to the greatest of its own virtual time, the floor and the least virtual time of
the busy targets.

`FairQueue.plain` reads these books off a fair queue. What is left out is the heap, the generations and
the count of what is pending, which the books have as a sum.
-/

namespace Sluice

open Fair

namespace Fair

/-- What is kept for one target. -/
structure Account (ρ : Type) where
  registration : Nat
  priority : Number.Single
  /-- The resources waiting, earliest first, each with its size when it was queued. -/
  backlog : List (ρ × Nat) := []
  virtualTime : Nat := 0
  activation : Nat := 0
  delivered : Nat := 0

namespace Account

variable {ρ : Type}

/-- Whether something waits. -/
def isBusy (a : Account ρ) : Bool := !a.backlog.isEmpty

/-- Who comes first: the lesser virtual time, then the earlier to become busy, then the lesser
target. -/
def rank (t : TargetId) (a : Account ρ) : Nat ×ₗ Nat ×ₗ Nat :=
  toLex (a.virtualTime, toLex (a.activation, t.raw))

/-- The account with one more resource. -/
def enqueue (a : Account ρ) (resource : ρ) (size : Nat) : Account ρ :=
  { a with backlog := a.backlog ++ [(resource, size)] }

/-- The account after its first resource is served, at a cost. -/
def served (a : Account ρ) (rest : List (ρ × Nat)) (size cost : Nat) : Account ρ :=
  { a with
    backlog := rest
    virtualTime := Word.add a.virtualTime cost
    delivered := Word.add a.delivered size }

end Account

/-- The books have of an entry all but its generation. -/
def Entry.account {ρ : Type} (e : Entry ρ) : Account ρ where
  registration := e.registration
  priority := e.priority
  backlog := e.backlog.toList
  virtualTime := e.virtualTime
  activation := e.activation
  delivered := e.delivered

end Fair

/-- A fair scheduler that knows its targets and nothing of slots. -/
@[ext]
structure PlainQueue (ρ : Type) where
  settings : FairSettings
  /-- The registered targets in ascending order. -/
  ids : List TargetId := []
  account : TargetId → Option (Account ρ) := fun _ => none
  nextRegistration : Nat := 1
  nextActivation : Nat := 1
  /-- The virtual time of the target served last. -/
  floor : Nat := 0
  enqueued : Nat := 0
  delivered : Nat := 0
  deliveredBytes : Nat := 0

namespace PlainQueue

variable {ρ : Type}

/-- A queue without targets. -/
def ofSettings (settings : FairSettings) : PlainQueue ρ := { settings }

/-- The targets with their accounts, in ascending order of the targets. -/
def listing (p : PlainQueue ρ) : List (TargetId × Account ρ) :=
  p.ids.filterMap fun t => (p.account t).map (t, ·)

/-- The targets with something waiting. -/
def busy (p : PlainQueue ρ) : List (TargetId × Account ρ) := p.listing.filter (·.2.isBusy)

/-- How many resources wait for a target. -/
def waiting (p : PlainQueue ρ) (t : TargetId) : Nat := (p.account t).elim 0 (·.backlog.length)

/-- How many resources wait. -/
def pending (p : PlainQueue ρ) : Nat := (p.ids.map p.waiting).sum

/-- The busy target that comes first. -/
def next? (p : PlainQueue ρ) : Option (TargetId × Account ρ) := p.busy.argmin fun e => e.2.rank e.1

/-- The greater of the floor and the least virtual time of the busy targets. -/
def leastBusy (p : PlainQueue ρ) : Nat :=
  match (p.busy.map (·.2.virtualTime)).min? with
  | some time => max time p.floor
  | none => p.floor

/-- Writes down an account. -/
def write (p : PlainQueue ρ) (t : TargetId) (a : Account ρ) : PlainQueue ρ :=
  { p with account := Function.update p.account t (some a) }

/-- Opens an account for a new target. -/
def enroll (p : PlainQueue ρ) (t : TargetId) (priority : Number.Single) : PlainQueue ρ :=
  { p.write t { registration := p.nextRegistration, priority } with
    ids := t.insertAscending p.ids
    nextRegistration := p.nextRegistration + 1 }

/-- Strikes a target off. -/
def dismiss (p : PlainQueue ρ) (t : TargetId) : PlainQueue ρ :=
  { p with
    ids := p.ids.filter (· ≠ t)
    account := Function.update p.account t none }

/-- An account as it is when its target becomes busy. -/
def lift (p : PlainQueue ρ) (a : Account ρ) : Account ρ :=
  { a with
    virtualTime := max a.virtualTime p.leastBusy
    activation := p.nextActivation }

/-- An account with one more resource. Its target becomes busy if it was not. -/
def filled (p : PlainQueue ρ) (a : Account ρ) (resource : ρ) (size : Nat) : Account ρ :=
  (if a.isBusy then a else p.lift a).enqueue resource size

/-- Adds a resource to the backlog of a target. -/
def enqueue (p : PlainQueue ρ) (t : TargetId) (a : Account ρ) (resource : ρ) (size : Nat) :
    PlainQueue ρ :=
  { p.write t (p.filled a resource size) with
    nextActivation := if a.isBusy then p.nextActivation else p.nextActivation + 1
    enqueued := p.enqueued + 1 }

/-- Counts a delivery. -/
def count (size : Nat) (p : PlainQueue ρ) : PlainQueue ρ :=
  { p with
    delivered := p.delivered + 1
    deliveredBytes := Word.add p.deliveredBytes size }

/-- Takes the first resource of a target, at a cost. -/
def serve (p : PlainQueue ρ) (t : TargetId) (a : Account ρ) (rest : List (ρ × Nat))
    (size cost : Nat) : PlainQueue ρ :=
  count size { p.write t (a.served rest size cost) with floor := max p.floor a.virtualTime }

/-! ### Operations -/

/-- Registers a target. -/
def addTarget (p : PlainQueue ρ) (target : TargetId) (priority : Number.Single) :
    Except DeliveryError (Nat × PlainQueue ρ) := do
  FairQueue.checkPriority priority
  if (p.account target).isSome then throw (.targetExists target)
  if p.settings.maxTargets ≤ p.ids.length then throw (.tooManyTargets p.settings.maxTargets)
  return (p.nextRegistration, p.enroll target priority)

/-- Takes a target out and answers with its backlog. -/
def removeTarget (p : PlainQueue ρ) (target : TargetId) :
    Except DeliveryError (List ρ × PlainQueue ρ) :=
  match p.account target with
  | none => .error (.targetNotFound target)
  | some a => .ok (a.backlog.map (·.1), p.dismiss target)

/-- Changes the priority of a target. -/
def setPriority (p : PlainQueue ρ) (target : TargetId) (priority : Number.Single) :
    Except DeliveryError (PlainQueue ρ) := do
  FairQueue.checkPriority priority
  match p.account target with
  | none => throw (.targetNotFound target)
  | some a => return p.write target { a with priority }

/-- Queues a resource of a given size for a target. -/
def push (p : PlainQueue ρ) (target : TargetId) (resource : ρ) (size : Nat) :
    Except DeliveryError (PlainQueue ρ) :=
  match p.account target with
  | none => .error (.targetNotFound target)
  | some a =>
    if p.settings.maxBacklog ≤ a.backlog.length then
      .error (.queueFull target a.backlog.length p.settings.maxBacklog)
    else .ok (p.enqueue target a resource size)

/-- The target that is served next and the size of what it gets. -/
def peek (p : PlainQueue ρ) : Option (TargetId × Nat) := do
  let (target, a) ← p.next?
  let (_, size) ← a.backlog.head?
  return (target, size)

/-- Serves the next resource. -/
def pop (cost : Cost) (p : PlainQueue ρ) : Option (Delivery ρ) × PlainQueue ρ :=
  match p.next? with
  | none => (none, p)
  | some (target, a) =>
    match a.backlog with
    | [] => (none, p)
    | (resource, size) :: rest =>
      (some ⟨target, a.registration, resource, size⟩,
        p.serve target a rest size (cost a.priority size))

/-- The counters of the queue. -/
def stats (p : PlainQueue ρ) : Stats where
  targets := p.ids.length
  activeTargets := p.busy.length
  pending := p.pending
  totalEnqueued := p.enqueued
  totalDelivered := p.delivered
  deliveredBytes := p.deliveredBytes

/-- The queue in diagnostics. -/
def diagnostic (p : PlainQueue ρ) : String :=
  Text.openRecord "FairDeliveryQueue"
    [("targets", toString p.ids.length), ("pending", toString p.pending),
      ("floor", toString p.floor)]

/-! ### Listed books -/

/-- The books list exactly the targets that they have an account of. -/
structure Listed (p : PlainQueue ρ) : Prop where
  ascending : Id.Ascending p.ids
  mem_ids : ∀ t, t ∈ p.ids ↔ ∃ a, p.account t = some a

variable {p : PlainQueue ρ} {t : TargetId} {a : Account ρ}

theorem account_write {u : TargetId} :
    (p.write t a).account u = if u = t then some a else p.account u :=
  Function.update_apply ..

theorem account_enroll {u : TargetId} {priority : Number.Single} :
    (p.enroll t priority).account u =
      if u = t then some { registration := p.nextRegistration, priority } else p.account u :=
  Function.update_apply ..

theorem account_dismiss {u : TargetId} :
    (p.dismiss t).account u = if u = t then none else p.account u :=
  Function.update_apply ..

/-- An account after a write is the one written, or one that was there. -/
theorem of_account_write {u : TargetId} {b c : Account ρ} (hu : (p.write t b).account u = some c) :
    (u = t ∧ c = b) ∨ (u ≠ t ∧ p.account u = some c) := by
  rw [account_write] at hu
  by_cases hut : u = t
  · rw [if_pos hut] at hu
    exact .inl ⟨hut, (Option.some.inj hu).symm⟩
  · rw [if_neg hut] at hu
    exact .inr ⟨hut, hu⟩

theorem of_account_enroll {u : TargetId} {c : Account ρ} {priority : Number.Single}
    (hu : (p.enroll t priority).account u = some c) :
    (u = t ∧ c = { registration := p.nextRegistration, priority }) ∨
      (u ≠ t ∧ p.account u = some c) :=
  of_account_write (p := p) hu

theorem of_account_dismiss {u : TargetId} {c : Account ρ}
    (hu : (p.dismiss t).account u = some c) : u ≠ t ∧ p.account u = some c := by
  rw [account_dismiss] at hu
  by_cases hut : u = t
  · rw [if_pos hut] at hu
    cases hu
  · rw [if_neg hut] at hu
    exact ⟨hut, hu⟩

theorem backlog_filled {resource : ρ} {size : Nat} :
    (p.filled a resource size).backlog = a.backlog ++ [(resource, size)] := by
  simp only [filled, Account.enqueue]
  split <;> rfl

theorem registration_filled {resource : ρ} {size : Nat} :
    (p.filled a resource size).registration = a.registration := by
  simp only [filled, Account.enqueue]
  split <;> rfl

theorem Listed.mem_listing (h : p.Listed) : (t, a) ∈ p.listing ↔ p.account t = some a := by
  simp only [listing, List.mem_filterMap, Option.map_eq_some_iff, Prod.mk.injEq]
  constructor
  · rintro ⟨u, -, b, hb, rfl, rfl⟩
    exact hb
  · intro ha
    exact ⟨t, (h.mem_ids t).mpr ⟨a, ha⟩, a, ha, rfl, rfl⟩

theorem Listed.mem_busy (h : p.Listed) :
    (t, a) ∈ p.busy ↔ p.account t = some a ∧ a.isBusy = true := by
  rw [busy, List.mem_filter, h.mem_listing]

theorem Listed.next?_eq_none (h : p.Listed) :
    p.next? = none ↔ ∀ t a, p.account t = some a → a.isBusy = false := by
  rw [next?, List.argmin_eq_none, List.eq_nil_iff_forall_not_mem]
  constructor
  · intro hnone t a ha
    have := hnone (t, a)
    rw [h.mem_busy, not_and] at this
    exact Bool.eq_false_iff.mpr (this ha)
  · rintro hidle ⟨t, a⟩ hmem
    obtain ⟨ha, hbusy⟩ := h.mem_busy.mp hmem
    rw [hidle t a ha] at hbusy
    cases hbusy

/-- The next target is the busy one of least rank. No two targets have the same rank. -/
theorem Listed.next?_eq_some (h : p.Listed) :
    p.next? = some (t, a) ↔ p.account t = some a ∧ a.isBusy = true ∧
      ∀ u b, p.account u = some b → b.isBusy = true → a.rank t ≤ b.rank u := by
  classical
  rw [next?, List.argmin_eq_some_iff, h.mem_busy, and_assoc]
  refine and_congr_right fun ha => and_congr_right fun hbusy => ?_
  constructor
  · rintro ⟨hleast, -⟩ u b hb hbusy
    exact hleast (u, b) (h.mem_busy.mpr ⟨hb, hbusy⟩)
  · intro hleast
    refine ⟨fun e he => ?_, fun e he hle => ?_⟩
    · obtain ⟨hb, hbusy⟩ := h.mem_busy.mp he
      exact hleast e.1 e.2 hb hbusy
    · obtain ⟨u, b⟩ := e
      obtain ⟨hb, hbusy⟩ := h.mem_busy.mp he
      have heq : a.rank t = b.rank u := le_antisymm (hleast u b hb hbusy) hle
      have hraw : t.raw = u.raw := congrArg (fun k => (ofLex (ofLex k).2).2) heq
      obtain rfl : t = u := Id.ext hraw
      obtain rfl : a = b := Option.some.inj (ha.symm.trans hb)
      exact Nat.le_refl _

theorem leastBusy_of_none (hnone : p.next? = none) : p.leastBusy = p.floor := by
  have hbusy : p.busy = [] := List.argmin_eq_none.mp hnone
  simp only [leastBusy, hbusy, List.map_nil, List.min?_nil]

theorem Listed.leastBusy_of_some (h : p.Listed) (hnext : p.next? = some (t, a)) :
    p.leastBusy = max a.virtualTime p.floor := by
  obtain ⟨ha, hbusy, hleast⟩ := h.next?_eq_some.mp hnext
  have hmin : (p.busy.map (·.2.virtualTime)).min? = some a.virtualTime := by
    rw [List.min?_eq_some_iff]
    refine ⟨List.mem_map.mpr ⟨(t, a), h.mem_busy.mpr ⟨ha, hbusy⟩, rfl⟩, ?_⟩
    rintro time htime
    obtain ⟨⟨u, b⟩, hmem, rfl⟩ := List.mem_map.mp htime
    obtain ⟨hb, hbusy⟩ := h.mem_busy.mp hmem
    exact Prod.Lex.monotone_fst _ _ (hleast u b hb hbusy)
  simp only [leastBusy, hmin]

theorem Listed.write (h : p.Listed) {b : Account ρ} (ht : p.account t = some a) :
    (p.write t b).Listed where
  ascending := h.ascending
  mem_ids u := by
    rw [account_write]
    show u ∈ p.ids ↔ _
    rw [h.mem_ids]
    by_cases hut : u = t
    · simp only [hut, ht, if_true, Option.some.injEq, exists_eq']
    · simp only [hut, if_false]

theorem Listed.congr {p' : PlainQueue ρ} (h : p.Listed) (hids : p'.ids = p.ids)
    (haccount : p'.account = p.account) : p'.Listed where
  ascending := hids ▸ h.ascending
  mem_ids u := by
    rw [hids, haccount]
    exact h.mem_ids u

theorem Listed.enroll (h : p.Listed) (priority : Number.Single) :
    (p.enroll t priority).Listed where
  ascending := h.ascending.insert
  mem_ids u := by
    rw [account_enroll]
    show u ∈ t.insertAscending p.ids ↔ _
    rw [Id.mem_insertAscending, h.mem_ids]
    by_cases hut : u = t
    · simp only [hut, if_true, Option.some.injEq, exists_eq', true_or]
    · simp only [hut, if_false, false_or]

theorem Listed.dismiss (h : p.Listed) (t : TargetId) : (p.dismiss t).Listed where
  ascending := h.ascending.filter _
  mem_ids u := by
    rw [account_dismiss]
    show u ∈ p.ids.filter (· ≠ t) ↔ _
    rw [List.mem_filter, h.mem_ids]
    by_cases hut : u = t
    · simp [hut]
    · simp [hut]

/-! ### How much is pending -/

/-- A changed account changes the sum by its own backlog. -/
theorem Listed.pending_write (h : p.Listed) {b : Account ρ} (ht : p.account t = some a) :
    (p.write t b).pending + a.backlog.length = p.pending + b.backlog.length := by
  have hmem : t ∈ p.ids := (h.mem_ids t).mpr ⟨a, ht⟩
  have hoff : ∀ u, u ≠ t → (p.write t b).waiting u = p.waiting u := by
    intro u hne
    simp only [waiting, account_write, hne, if_false]
  have hsum := h.ascending.sum_map_of_eq hmem hoff
  have ha : p.waiting t = a.backlog.length := by simp only [waiting, ht, Option.elim_some]
  have hb : (p.write t b).waiting t = b.backlog.length := by
    simp only [waiting, account_write, if_true, Option.elim_some]
  rw [ha, hb] at hsum
  exact hsum

theorem Listed.pending_enqueue (h : p.Listed) (ht : p.account t = some a) (resource : ρ)
    (size : Nat) : (p.enqueue t a resource size).pending = p.pending + 1 := by
  have hwrite := h.pending_write (b := p.filled a resource size) ht
  rw [backlog_filled, List.length_append, List.length_singleton] at hwrite
  show (p.write t (p.filled a resource size)).pending = p.pending + 1
  omega

theorem Listed.pending_serve (h : p.Listed) (ht : p.account t = some a) {resource : ρ}
    {size : Nat} {rest : List (ρ × Nat)} (hbacklog : a.backlog = (resource, size) :: rest)
    (cost : Nat) : (p.serve t a rest size cost).pending + 1 = p.pending := by
  have hwrite := h.pending_write (b := a.served rest size cost) ht
  rw [hbacklog, List.length_cons] at hwrite
  show (p.write t (a.served rest size cost)).pending + 1 = p.pending
  have : (a.served rest size cost).backlog.length = rest.length := rfl
  omega

theorem Listed.pending_enroll (h : p.Listed) {priority : Number.Single}
    (ht : p.account t = none) : (p.enroll t priority).pending = p.pending := by
  have hnew : t ∉ p.ids := by
    rw [h.mem_ids, ht]
    simp
  have hoff : p.ids.map (p.enroll t priority).waiting = p.ids.map p.waiting := by
    refine List.map_congr_left fun u hu => ?_
    have hne : u ≠ t := fun heq => hnew (heq ▸ hu)
    have hu : (p.enroll t priority).account u = p.account u := Function.update_of_ne hne ..
    simp only [waiting, hu]
  have ht' : (p.enroll t priority).waiting t = 0 := by
    have : (p.enroll t priority).account t = some { registration := p.nextRegistration, priority } :=
      Function.update_self ..
    simp only [waiting, this, Option.elim_some, List.length_nil]
  have hperm := (Id.perm_insertAscending h.ascending hnew).map (p.enroll t priority).waiting
  show ((t.insertAscending p.ids).map (p.enroll t priority).waiting).sum = p.pending
  rw [hperm.sum_eq, List.map_cons, List.sum_cons, ht', hoff, Nat.zero_add]
  rfl

theorem Listed.pending_dismiss (h : p.Listed) (ht : p.account t = some a) :
    (p.dismiss t).pending + a.backlog.length = p.pending := by
  have hmem : t ∈ p.ids := (h.mem_ids t).mpr ⟨a, ht⟩
  have hoff : (p.ids.filter (· ≠ t)).map (p.dismiss t).waiting =
      (p.ids.filter (· ≠ t)).map p.waiting := by
    refine List.map_congr_left fun u hu => ?_
    have hne : u ≠ t := by simpa using (List.mem_filter.mp hu).2
    simp only [waiting, account_dismiss, hne, if_false]
  have ha : p.waiting t = a.backlog.length := by simp only [waiting, ht, Option.elim_some]
  show ((p.ids.filter (· ≠ t)).map (p.dismiss t).waiting).sum + a.backlog.length =
    (p.ids.map p.waiting).sum
  rw [hoff, h.ascending.sum_map hmem, ha, Nat.add_comm]

theorem Listed.waiting_le_pending (h : p.Listed) (ht : p.account t = some a) :
    a.backlog.length ≤ p.pending := by
  have hmem : t ∈ p.ids := (h.mem_ids t).mpr ⟨a, ht⟩
  have ha : p.waiting t = a.backlog.length := by simp only [waiting, ht, Option.elim_some]
  rw [pending, h.ascending.sum_map hmem, ha]
  exact Nat.le_add_right _ _

theorem Account.backlog_pos (hbusy : a.isBusy = true) : 0 < a.backlog.length := by
  refine List.length_pos_iff.mpr fun hnil => ?_
  simp [Account.isBusy, hnil] at hbusy

/-- Nothing is pending when nobody is busy. -/
theorem Listed.pending_eq_zero (h : p.Listed) : p.pending = 0 ↔ p.next? = none := by
  constructor
  · intro hzero
    refine h.next?_eq_none.mpr fun t a ht => ?_
    rw [← Bool.not_eq_true]
    intro hbusy
    have hle := h.waiting_le_pending ht
    have hpos := Account.backlog_pos hbusy
    omega
  · intro hnone
    refine List.sum_eq_zero ?_
    intro n hn
    obtain ⟨t, ht, rfl⟩ := List.mem_map.mp hn
    obtain ⟨a, ha⟩ := (h.mem_ids t).mp ht
    have hidle := h.next?_eq_none.mp hnone t a ha
    simp only [Account.isBusy, Bool.not_eq_false', List.isEmpty_iff] at hidle
    simp only [waiting, ha, Option.elim_some, hidle, List.length_nil]

theorem Listed.pop_eq_none (h : p.Listed) (cost : Cost) :
    (p.pop cost).1 = none ↔ p.next? = none := by
  cases hnext : p.next? with
  | none => simp only [pop, hnext]
  | some e =>
    obtain ⟨t, a⟩ := e
    obtain ⟨-, hbusy, -⟩ := h.next?_eq_some.mp hnext
    cases hbacklog : a.backlog with
    | nil => simp [Account.isBusy, hbacklog] at hbusy
    | cons head rest => simp [pop, hnext, hbacklog]

end PlainQueue

/-- The books of a fair queue. -/
def FairQueue.plain {ρ : Type} (q : FairQueue ρ) : PlainQueue ρ where
  settings := q.settings
  ids := q.targets.targets
  account t := (q.targets.get? t).map Entry.account
  nextRegistration := q.nextRegistration
  nextActivation := q.nextActivation
  floor := q.floor
  enqueued := q.enqueued
  delivered := q.delivered
  deliveredBytes := q.deliveredBytes

theorem FairQueue.listed_plain {ρ : Type} (q : FairQueue ρ) : q.plain.Listed where
  ascending := q.targets.ascending_targets
  mem_ids t := by
    simp only [plain, Roster.mem_targets, Option.map_eq_some_iff]
    constructor
    · rintro ⟨e, he⟩
      exact ⟨_, e, he, rfl⟩
    · rintro ⟨_, e, he, -⟩
      exact ⟨e, he⟩

end Sluice
