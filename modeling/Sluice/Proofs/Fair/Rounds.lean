import Sluice.Proofs.Fair.Overtaking

/-!
# Equals take turns

Let targets of one priority be filled in a new queue with resources that all cost the same, and then be emptied.
The targets stand in a circle, in the order in which they got their first resource. The one at the head is handed
its first resource and goes to the end of the circle, or leaves it when nothing is left (`deal`). The pops are
exactly that (`serves_in_rounds`).

While the queue is filled nobody's virtual time moves, so the order is that of the activations alone (`Filled`).
While it is emptied a round is under way: the targets ahead stand at one virtual time, and those that had
their turn at one charge more. Read from the latter to the former, the activations ascend (`Turning`). To set
the priority that a target has leaves the books as they are, whatever it does to the slots.
-/

namespace Sluice

open Fair

variable {ρ : Type}

namespace Fair

/-! ### The circle -/

/-- A target in a circle: what it is handed next, and then. -/
structure Lane (ρ : Type) where
  first : Delivery ρ
  later : List (Delivery ρ)

namespace Lane

/-- The target that the lane is for. -/
def target (lane : Lane ρ) : TargetId := lane.first.target

/-- All that is to be handed out. -/
def due (lane : Lane ρ) : List (Delivery ρ) := lane.first :: lane.later

/-- The lane without its first delivery, if there are more. -/
def rest? (lane : Lane ρ) : Option (Lane ρ) :=
  match lane.later with
  | [] => none
  | next :: later => some ⟨next, later⟩

theorem due_of_rest? {lane rest : Lane ρ} (h : lane.rest? = some rest) : rest.due = lane.later := by
  obtain ⟨first, later⟩ := lane
  cases later with
  | nil => cases h
  | cons next later =>
    cases h
    rfl

theorem exists_rest? {lane : Lane ρ} (h : lane.later ≠ []) : ∃ rest, lane.rest? = some rest := by
  obtain ⟨first, later⟩ := lane
  cases later with
  | nil => exact absurd rfl h
  | cons next later => exact ⟨_, rfl⟩

end Lane

/-- Puts a delivery behind the others for its target. A target that has none joins at the end. -/
def join (d : Delivery ρ) : List (Lane ρ) → List (Lane ρ)
  | [] => [⟨d, []⟩]
  | lane :: lanes =>
    if lane.target = d.target then ⟨lane.first, lane.later ++ [d]⟩ :: lanes else lane :: join d lanes

/-- The target at the head is handed its first resource and goes to the end, or leaves if it has no more. -/
def deal : List (Lane ρ) → Option (Delivery ρ) × List (Lane ρ)
  | [] => (none, [])
  | lane :: lanes => (some lane.first, lanes ++ lane.rest?.toList)

/-- What a circle hands out in a number of turns. -/
def deals : Nat → List (Lane ρ) → List (Option (Delivery ρ))
  | 0, _ => []
  | n + 1, lanes => (deal lanes).1 :: deals n (deal lanes).2

theorem join_of_not_mem {d : Delivery ρ} {lanes : List (Lane ρ)} (hd : d.target ∉ lanes.map Lane.target) :
    join d lanes = lanes ++ [⟨d, []⟩] := by
  induction lanes with
  | nil => rfl
  | cons lane lanes ih =>
    rw [List.map_cons, List.mem_cons, not_or] at hd
    rw [join, if_neg (Ne.symm hd.1), ih hd.2, List.cons_append]

theorem map_target_join {d : Delivery ρ} {lanes : List (Lane ρ)} (hd : d.target ∈ lanes.map Lane.target) :
    (join d lanes).map Lane.target = lanes.map Lane.target := by
  induction lanes with
  | nil => cases hd
  | cons lane lanes ih =>
    rw [join]
    split
    · rfl
    · next hne =>
      rw [List.map_cons, List.mem_cons] at hd
      rw [List.map_cons, List.map_cons, ih (hd.resolve_left (Ne.symm hne))]

/-- Of lanes for different targets, only that of the target gets longer. -/
theorem of_mem_join {d : Delivery ρ} {lanes : List (Lane ρ)} (hnodup : (lanes.map Lane.target).Nodup)
    (hd : d.target ∈ lanes.map Lane.target) {lane : Lane ρ} (hlane : lane ∈ join d lanes) :
    (lane ∈ lanes ∧ lane.target ≠ d.target) ∨
      ∃ old ∈ lanes, old.target = d.target ∧ lane.target = d.target ∧ lane.due = old.due ++ [d] := by
  induction lanes with
  | nil => cases hd
  | cons old lanes ih =>
    rw [List.map_cons, List.nodup_cons] at hnodup
    rw [join] at hlane
    split at hlane
    · next hold =>
      rcases List.mem_cons.mp hlane with rfl | hlane
      · exact .inr ⟨old, List.mem_cons_self, hold, hold, rfl⟩
      · refine .inl ⟨List.mem_cons_of_mem _ hlane, fun heq => hnodup.1 ?_⟩
        rw [hold, ← heq]
        exact List.mem_map_of_mem hlane
    · next hne =>
      rw [List.map_cons, List.mem_cons] at hd
      rcases List.mem_cons.mp hlane with rfl | hlane
      · exact .inl ⟨List.mem_cons_self, hne⟩
      · rcases ih hnodup.2 (hd.resolve_left (Ne.symm hne)) hlane with ⟨hmem, hne⟩ | ⟨old, hmem, hold⟩
        · exact .inl ⟨List.mem_cons_of_mem _ hmem, hne⟩
        · exact .inr ⟨old, List.mem_cons_of_mem _ hmem, hold⟩

/-! ### Histories -/

/-- What a push queues, under the registration that its target has. -/
def Step.queued (s : Step ρ) : List (Delivery ρ) :=
  match s.call, s.answer with
  | .push t resource size, .done =>
    (s.before.registrationOf t).toList.map fun r => ⟨t, r, resource, size⟩
  | _, _ => []

/-- What a pop answers. -/
def Step.handed (s : Step ρ) : List (Option (Delivery ρ)) :=
  match s.answer with
  | .delivery d => [d]
  | _ => []

/-- The circle of what a history queues. -/
def circle (h : List (Step ρ)) : List (Lane ρ) :=
  (h.flatMap Step.queued).foldl (fun lanes d => join d lanes) []

/-- What the pops of a history answer, in order. -/
def handed (h : List (Step ρ)) : List (Option (Delivery ρ)) := h.flatMap Step.handed

/-- Whether a call may be among those that fill a queue: all targets have the priority, and each resource comes
at the charge. -/
def Call.fills (cost : Cost) (priority : Number.Single) (charge : Nat) : Call ρ → Bool
  | .addTarget _ given => given = priority
  | .setPriority _ given => given = priority
  | .push _ _ size => cost priority size = charge
  | .peek => true
  | .query _ => true
  | _ => false

/-- Whether a call may be among those that empty a queue: a priority is at most set to what it is. -/
def Call.empties (priority : Number.Single) : Call ρ → Bool
  | .pop => true
  | .setPriority _ given => given = priority
  | .peek => true
  | .query _ => true
  | _ => false

/-- Whether a call is a pop. -/
def Call.isPop : Call ρ → Bool
  | .pop => true
  | _ => false

theorem Step.queued_of_quiet {p p' : PlainQueue ρ} {call : Call ρ} {answer : Answer ρ}
    (hquiet : answer.isQuiet = true) : (⟨p, call, answer, p'⟩ : Step ρ).queued = [] := by
  cases answer with
  | done => cases hquiet
  | _ => cases call <;> rfl

/-- What an account is still to be handed. -/
def Account.due (t : TargetId) (a : Account ρ) : List (Delivery ρ) :=
  a.backlog.map fun e => ⟨t, a.registration, e.1, e.2⟩

end Fair

namespace PlainQueue

/-- What a target is still to be handed. -/
def dueOf (p : PlainQueue ρ) (t : TargetId) : List (Delivery ρ) := (p.account t).elim [] (·.due t)

/-- The place of a target in the order of becoming busy. -/
def activationOf (p : PlainQueue ρ) (t : TargetId) : Nat := (p.account t).elim 0 (·.activation)

variable {p p' : PlainQueue ρ} {t : TargetId} {a : Account ρ}

theorem dueOf_eq (ha : p.account t = some a) : p.dueOf t = a.due t := by
  rw [dueOf, ha, Option.elim_some]

theorem activationOf_eq (ha : p.account t = some a) : p.activationOf t = a.activation := by
  rw [activationOf, ha, Option.elim_some]

theorem virtualTimeOf_eq (ha : p.account t = some a) : p.virtualTimeOf t = a.virtualTime := by
  rw [virtualTimeOf, ha, Option.elim_some]

theorem dueOf_congr (h : p'.account t = p.account t) : p'.dueOf t = p.dueOf t := by
  rw [dueOf, h, dueOf]

theorem activationOf_congr (h : p'.account t = p.account t) : p'.activationOf t = p.activationOf t := by
  rw [activationOf, h, activationOf]

theorem virtualTimeOf_congr (h : p'.account t = p.account t) : p'.virtualTimeOf t = p.virtualTimeOf t := by
  rw [virtualTimeOf, h, virtualTimeOf]

theorem account_serve_self (p : PlainQueue ρ) (t : TargetId) (a : Account ρ) (rest : List (ρ × Nat))
    (size cost : Nat) : (p.serve t a rest size cost).account t = some (a.served rest size cost) :=
  Function.update_self ..

theorem account_serve_of_ne (p : PlainQueue ρ) {u : TargetId} {rest : List (ρ × Nat)} {size cost : Nat}
    (hne : u ≠ t) : (p.serve t a rest size cost).account u = p.account u :=
  Function.update_of_ne hne ..

theorem account_enqueue_self (p : PlainQueue ρ) (t : TargetId) (a : Account ρ) (resource : ρ) (size : Nat) :
    (p.enqueue t a resource size).account t = some (p.filled a resource size) :=
  Function.update_self ..

theorem account_enqueue_of_ne (p : PlainQueue ρ) {u : TargetId} {resource : ρ} {size : Nat} (hne : u ≠ t) :
    (p.enqueue t a resource size).account u = p.account u :=
  Function.update_of_ne hne ..

theorem priority_filled {resource : ρ} {size : Nat} :
    (p.filled a resource size).priority = a.priority := by
  rw [filled]
  split <;> rfl

/-- A push adds to what its target is to be handed. -/
theorem dueOf_enqueue (ha : p.account t = some a) (resource : ρ) (size : Nat) :
    (p.enqueue t a resource size).dueOf t = p.dueOf t ++ [⟨t, a.registration, resource, size⟩] := by
  rw [dueOf_eq (p.account_enqueue_self t a resource size), dueOf_eq ha, Account.due, Account.due,
    backlog_filled, registration_filled, List.map_append]
  rfl

theorem write_self (ha : p.account t = some a) : p.write t a = p := by
  refine PlainQueue.ext rfl rfl ?_ rfl rfl rfl rfl rfl rfl
  exact Function.update_eq_self_iff.mpr ha.symm

end PlainQueue

namespace Fair

variable {cost : Cost} {priority : Number.Single} {charge time : Nat} {p p' : PlainQueue ρ}
  {lanes ahead behind : List (Lane ρ)} {lane : Lane ρ} {call : Call ρ} {answer : Answer ρ} {t : TargetId}
  {a : Account ρ}

/-- The busy targets are those of some lanes, in the order of becoming busy, and the lanes have what waits. Every
delivery comes at the same charge. -/
structure Circled (cost : Cost) (priority : Number.Single) (charge : Nat) (p : PlainQueue ρ)
    (lanes : List (Lane ρ)) : Prop where
  listed : p.Listed
  priority_eq : ∀ {t a}, p.account t = some a → a.priority = priority
  due_eq : ∀ lane ∈ lanes, p.dueOf lane.target = lane.due
  busy : ∀ {t a}, p.account t = some a → a.isBusy = true → t ∈ lanes.map Lane.target
  ordered : (lanes.map Lane.target).Pairwise (p.activationOf · < p.activationOf ·)
  cost_eq : ∀ lane ∈ lanes, ∀ d ∈ lane.due, cost priority d.size = charge

namespace Circled

theorem nodup (c : Circled cost priority charge p lanes) : (lanes.map Lane.target).Nodup :=
  c.ordered.imp fun hlt heq => by
    rw [heq] at hlt
    exact Nat.lt_irrefl _ hlt

/-- The account of a target in the circle, with the first of its backlog. -/
theorem account (c : Circled cost priority charge p lanes) (hlane : lane ∈ lanes) :
    ∃ a rest, p.account lane.target = some a ∧
      a.backlog = (lane.first.resource, lane.first.size) :: rest ∧
      lane.first = ⟨lane.target, a.registration, lane.first.resource, lane.first.size⟩ ∧
      lane.later = rest.map fun e => ⟨lane.target, a.registration, e.1, e.2⟩ := by
  have hdue := c.due_eq lane hlane
  cases ha : p.account lane.target with
  | none =>
    rw [PlainQueue.dueOf, ha] at hdue
    cases hdue
  | some a =>
    rw [PlainQueue.dueOf_eq ha, Account.due, Lane.due, List.map_eq_cons_iff] at hdue
    obtain ⟨⟨resource, size⟩, rest, hbacklog, hfirst, hlater⟩ := hdue
    refine ⟨a, rest, rfl, ?_, ?_, hlater.symm⟩
    · rw [hbacklog, ← hfirst]
    · rw [← hfirst]

/-- A target in the circle is busy. -/
theorem isBusy (c : Circled cost priority charge p lanes) (ht : t ∈ lanes.map Lane.target)
    (ha : p.account t = some a) : a.isBusy = true := by
  obtain ⟨lane, hlane, rfl⟩ := List.mem_map.mp ht
  obtain ⟨b, rest, hb, hbacklog, -⟩ := c.account hlane
  obtain rfl := Option.some.inj (ha.symm.trans hb)
  rw [Account.isBusy, hbacklog]
  rfl

/-- To set the priority that all have changes nothing. -/
theorem write_priority (c : Circled cost priority charge p lanes) (ha : p.account t = some a) :
    p.write t { a with priority } = p := by
  refine PlainQueue.write_self (ha.trans ?_)
  rw [← c.priority_eq ha]

theorem setPriority_eq (c : Circled cost priority charge p lanes)
    (h : p.setPriority t priority = .ok p') : p' = p := by
  simp only [PlainQueue.setPriority, FairQueue.checkPriority] at h
  cases hpositive : priority.isPositive with
  | false =>
    rw [hpositive] at h
    cases h
  | true =>
    rw [hpositive] at h
    cases ha : p.account t with
    | none =>
      rw [ha] at h
      cases h
    | some a =>
      rw [ha] at h
      obtain rfl := Except.ok.inj h
      exact c.write_priority ha

/-- A new target is not in the circle yet. -/
theorem enroll (c : Circled cost priority charge p lanes) (ht : p.account t = none) :
    Circled cost priority charge (p.enroll t priority) lanes := by
  have hother : ∀ lane ∈ lanes, (p.enroll t priority).account lane.target = p.account lane.target := by
    intro lane hlane
    obtain ⟨a, -, ha, -⟩ := c.account hlane
    rw [PlainQueue.account_enroll, if_neg]
    intro heq
    rw [heq, ht] at ha
    cases ha
  refine ⟨c.listed.enroll _, fun {u a} hu => ?_, fun lane hlane => ?_, fun {u a} hu hbusy => ?_, ?_, c.cost_eq⟩
  · rcases PlainQueue.of_account_enroll hu with ⟨-, rfl⟩ | ⟨-, ha⟩
    · rfl
    · exact c.priority_eq ha
  · rw [PlainQueue.dueOf_congr (hother lane hlane)]
    exact c.due_eq lane hlane
  · rcases PlainQueue.of_account_enroll hu with ⟨-, rfl⟩ | ⟨-, ha⟩
    · cases hbusy
    · exact c.busy ha hbusy
  · refine c.ordered.imp_of_mem fun {u v} hu hv hlt => ?_
    obtain ⟨lane, hlane, rfl⟩ := List.mem_map.mp hu
    obtain ⟨other, hmem, rfl⟩ := List.mem_map.mp hv
    rw [PlainQueue.activationOf_congr (hother lane hlane), PlainQueue.activationOf_congr (hother other hmem)]
    exact hlt

/-- What is left of a lane is a lane for the same target. -/
theorem of_rest? (c : Circled cost priority charge p lanes) (hlane : lane ∈ lanes) {rest : Lane ρ}
    (hrest : rest ∈ lane.rest?.toList) : rest.target = lane.target ∧ rest.due = lane.later := by
  have hdue := Lane.due_of_rest? (Option.mem_toList.mp hrest)
  obtain ⟨_, _, -, -, -, hlater⟩ := c.account hlane
  refine ⟨?_, hdue⟩
  rw [hlater, Lane.due] at hdue
  obtain ⟨e, -, -, hfirst, -⟩ := List.map_eq_cons_iff.mp hdue.symm
  rw [Lane.target, ← hfirst]

theorem target_ne (c : Circled cost priority charge p (behind ++ lane :: ahead)) {other : Lane ρ}
    (hother : other ∈ behind ++ ahead) : other.target ≠ lane.target := by
  intro heq
  have hnodup := c.nodup
  rw [List.map_append, List.map_cons, List.nodup_middle, ← List.map_append, List.nodup_cons] at hnodup
  exact hnodup.1 (heq ▸ List.mem_map_of_mem hother)

/-- A delivery leaves the rest of its lane, at the same place. -/
theorem serve (c : Circled cost priority charge p (behind ++ lane :: ahead))
    (ha : p.account lane.target = some a) {rest : List (ρ × Nat)}
    (hbacklog : a.backlog = (lane.first.resource, lane.first.size) :: rest) (size added : Nat) :
    Circled cost priority charge (p.serve lane.target a rest size added)
      (behind ++ lane.rest?.toList ++ ahead) := by
  have hlane : lane ∈ behind ++ lane :: ahead := List.mem_append_right _ List.mem_cons_self
  have hself := p.account_serve_self lane.target a rest size added
  have hdue : (p.serve lane.target a rest size added).dueOf lane.target = lane.later := by
    have hdue := c.due_eq lane hlane
    rw [PlainQueue.dueOf_eq ha, Account.due, hbacklog, List.map_cons, Lane.due] at hdue
    rw [PlainQueue.dueOf_eq hself]
    exact (List.cons.inj hdue).2
  have hplace : (p.serve lane.target a rest size added).activationOf = p.activationOf := by
    funext u
    by_cases hu : u = lane.target
    · rw [hu, PlainQueue.activationOf_eq hself, PlainQueue.activationOf_eq ha]
      rfl
    · exact PlainQueue.activationOf_congr (p.account_serve_of_ne hu)
  -- Every lane is one of the others, or the rest of this one.
  have hcases : ∀ l ∈ behind ++ lane.rest?.toList ++ ahead, l ∈ behind ++ ahead ∨ l ∈ lane.rest?.toList := by
    intro l hl
    simp only [List.mem_append] at hl ⊢
    tauto
  have hkept : ∀ l ∈ behind ++ ahead, l ∈ behind ++ lane :: ahead := by
    intro l hl
    simp only [List.mem_append, List.mem_cons] at hl ⊢
    tauto
  refine ⟨(c.listed.write ha).congr rfl rfl, fun {u b} hb => ?_, fun l hl => ?_, fun {u b} hb hbusy => ?_, ?_,
    fun l hl d hd => ?_⟩
  · rcases PlainQueue.of_account_write hb with ⟨-, rfl⟩ | ⟨-, hb⟩
    · have hsame := c.priority_eq ha
      exact hsame
    · exact c.priority_eq hb
  · rcases hcases l hl with hl | hl
    · rw [PlainQueue.dueOf_congr (p.account_serve_of_ne (c.target_ne hl))]
      exact c.due_eq l (hkept l hl)
    · obtain ⟨htarget, hlater⟩ := c.of_rest? hlane hl
      rw [htarget, hdue, hlater]
  · rw [List.map_append, List.map_append, List.mem_append, List.mem_append]
    rcases PlainQueue.of_account_write hb with ⟨rfl, rfl⟩ | ⟨hne, hb⟩
    · have hlater : lane.later ≠ [] := by
        rintro hnil
        rw [PlainQueue.dueOf_eq hself, hnil] at hdue
        have hempty : rest = [] := List.map_eq_nil_iff.mp hdue
        rw [Account.isBusy, Account.served, hempty] at hbusy
        cases hbusy
      obtain ⟨l, hl⟩ := Lane.exists_rest? hlater
      refine .inl (.inr ?_)
      rw [← (c.of_rest? hlane (Option.mem_toList.mpr hl)).1]
      exact List.mem_map_of_mem (Option.mem_toList.mpr hl)
    · have hmem := c.busy hb hbusy
      rw [List.map_append, List.map_cons, List.mem_append, List.mem_cons] at hmem
      tauto
  · rw [hplace]
    refine c.ordered.sublist ?_
    rw [List.append_assoc, List.map_append, List.map_append, List.map_append, List.map_cons]
    refine (List.Sublist.refl _).append ?_
    cases hrest : lane.rest? with
    | none => exact List.sublist_cons_self _ _
    | some l =>
      have hsame := (c.of_rest? hlane (Option.mem_toList.mpr hrest)).1
      rw [Option.toList_some, List.map_singleton, hsame]
      exact List.Sublist.refl _
  · rcases hcases l hl with hl | hl
    · exact c.cost_eq l (hkept l hl) d hd
    · rw [(c.of_rest? hlane hl).2] at hd
      exact c.cost_eq lane hlane d (List.mem_cons_of_mem _ hd)

section

variable {resource : ρ} {size : Nat}

theorem priority_enqueue (c : Circled cost priority charge p lanes) (ht : p.account t = some a)
    {u : TargetId} {b : Account ρ} (hb : (p.enqueue t a resource size).account u = some b) :
    b.priority = priority := by
  rcases PlainQueue.of_account_write hb with ⟨-, rfl⟩ | ⟨-, hb⟩
  · rw [PlainQueue.priority_filled]
    exact c.priority_eq ht
  · exact c.priority_eq hb

/-- Who is busy after a push and is not its target was busy before. -/
theorem busy_enqueue (c : Circled cost priority charge p lanes) {u : TargetId} {b : Account ρ} (hne : u ≠ t)
    (hb : (p.enqueue t a resource size).account u = some b) (hbusy : b.isBusy = true) :
    u ∈ lanes.map Lane.target := by
  rw [p.account_enqueue_of_ne hne] at hb
  exact c.busy hb hbusy

/-- A push for a target of the circle makes its lane longer. -/
theorem lengthen (c : Circled cost priority charge p lanes) (ht : p.account t = some a)
    (hmem : t ∈ lanes.map Lane.target) (hcost : cost priority size = charge) :
    Circled cost priority charge (p.enqueue t a resource size)
      (join ⟨t, a.registration, resource, size⟩ lanes) := by
  have hplace : (p.enqueue t a resource size).activationOf = p.activationOf := by
    funext u
    by_cases hut : u = t
    · have hkept : (p.filled a resource size).activation = a.activation := by
        rw [PlainQueue.filled, if_pos (c.isBusy hmem ht)]
        rfl
      rw [hut, PlainQueue.activationOf_eq (p.account_enqueue_self t a resource size),
        PlainQueue.activationOf_eq ht, hkept]
    · exact PlainQueue.activationOf_congr (p.account_enqueue_of_ne hut)
  have hjoin : ∀ {lane}, lane ∈ join ⟨t, a.registration, resource, size⟩ lanes →
      (lane ∈ lanes ∧ lane.target ≠ t) ∨ ∃ old ∈ lanes, old.target = t ∧ lane.target = t ∧
        lane.due = old.due ++ [⟨t, a.registration, resource, size⟩] :=
    fun hlane => of_mem_join c.nodup hmem hlane
  have htargets : (join ⟨t, a.registration, resource, size⟩ lanes).map Lane.target = lanes.map Lane.target :=
    map_target_join hmem
  refine ⟨(c.listed.write ht).congr rfl rfl, c.priority_enqueue ht, fun lane hlane => ?_,
    fun {u b} hb hbusy => ?_, ?_, fun lane hlane d hd => ?_⟩
  · rcases hjoin hlane with ⟨hold, hne⟩ | ⟨old, hold, htarget, htarget', hlonger⟩
    · rw [PlainQueue.dueOf_congr (p.account_enqueue_of_ne hne)]
      exact c.due_eq lane hold
    · rw [htarget', hlonger, PlainQueue.dueOf_enqueue ht, ← c.due_eq old hold, htarget]
  · rw [htargets]
    by_cases hut : u = t
    · rw [hut]
      exact hmem
    · exact c.busy_enqueue hut hb hbusy
  · rw [htargets, hplace]
    exact c.ordered
  · rcases hjoin hlane with ⟨hold, -⟩ | ⟨old, hold, -, -, hlonger⟩
    · exact c.cost_eq lane hold d hd
    · rw [hlonger] at hd
      rcases List.mem_append.mp hd with hd | hd
      · exact c.cost_eq old hold d hd
      · rw [List.mem_singleton.mp hd]
        exact hcost

/-- A target that gets its first resource is behind all that became busy before it. -/
theorem append (c : Circled cost priority charge p lanes) (n : Numbered p) (ht : p.account t = some a)
    (hmem : t ∉ lanes.map Lane.target) (hcost : cost priority size = charge) :
    Circled cost priority charge (p.enqueue t a resource size)
      (lanes ++ [⟨⟨t, a.registration, resource, size⟩, []⟩]) := by
  have hidle : a.isBusy = false := by
    rw [← Bool.not_eq_true]
    exact mt (c.busy ht) hmem
  have hplace : (p.enqueue t a resource size).activationOf t = p.nextActivation := by
    rw [PlainQueue.activationOf_eq (p.account_enqueue_self t a resource size), PlainQueue.filled, hidle]
    rfl
  have hdue : (p.enqueue t a resource size).dueOf t = [⟨t, a.registration, resource, size⟩] := by
    have hnil : a.backlog = [] := by simpa [Account.isBusy] using hidle
    rw [PlainQueue.dueOf_enqueue ht, PlainQueue.dueOf_eq ht, Account.due, hnil, List.map_nil, List.nil_append]
  have hsame : ∀ u ∈ lanes.map Lane.target,
      (p.enqueue t a resource size).activationOf u = p.activationOf u := fun u hu =>
    PlainQueue.activationOf_congr (p.account_enqueue_of_ne fun heq => hmem (heq ▸ hu))
  refine ⟨(c.listed.write ht).congr rfl rfl, c.priority_enqueue ht, fun lane hlane => ?_,
    fun {u b} hb hbusy => ?_, ?_, fun lane hlane d hd => ?_⟩
  · rcases List.mem_append.mp hlane with hold | hnew
    · have hne : lane.target ≠ t := fun heq => hmem (heq ▸ List.mem_map_of_mem hold)
      rw [PlainQueue.dueOf_congr (p.account_enqueue_of_ne hne)]
      exact c.due_eq lane hold
    · rw [List.mem_singleton.mp hnew]
      exact hdue
  · rw [List.map_append, List.mem_append]
    by_cases hut : u = t
    · exact .inr (List.mem_singleton.mpr hut)
    · exact .inl (c.busy_enqueue hut hb hbusy)
  · rw [List.map_append, List.map_singleton, List.pairwise_append]
    refine ⟨c.ordered.imp_of_mem fun {u v} hu hv hlt => ?_, List.pairwise_singleton _ _, fun u hu v hv => ?_⟩
    · rw [hsame u hu, hsame v hv]
      exact hlt
    · obtain ⟨lane, hlane, rfl⟩ := List.mem_map.mp hu
      obtain ⟨b, -, hb, -⟩ := c.account hlane
      rw [List.mem_singleton.mp hv]
      show _ < (p.enqueue t a resource size).activationOf t
      rw [hsame _ hu, hplace, PlainQueue.activationOf_eq hb]
      exact n.activation_lt hb
  · rcases List.mem_append.mp hlane with hold | hnew
    · exact c.cost_eq lane hold d hd
    · rw [List.mem_singleton.mp hnew] at hd
      rw [List.mem_singleton.mp hd]
      exact hcost

end

end Circled

/-! ### Filling -/

/-- A queue that is filled: nobody's virtual time has moved. -/
structure Filled (cost : Cost) (priority : Number.Single) (charge : Nat) (p : PlainQueue ρ)
    (lanes : List (Lane ρ)) : Prop where
  circled : Circled cost priority charge p lanes
  numbered : Numbered p
  floor_eq : p.floor = 0
  time_eq : ∀ {t a}, p.account t = some a → a.virtualTime = 0

namespace Filled

theorem ofSettings (settings : FairSettings) :
    Filled cost priority charge (PlainQueue.ofSettings settings : PlainQueue ρ) [] where
  circled :=
    { listed := (Ledger.empty settings).listed
      priority_eq := fun h => nomatch h
      due_eq := fun _ h => nomatch h
      busy := fun h => nomatch h
      ordered := List.Pairwise.nil
      cost_eq := fun _ h => nomatch h }
  numbered := .ofSettings settings
  floor_eq := rfl
  time_eq h := nomatch h

theorem leastBusy_eq (f : Filled cost priority charge p lanes) : p.leastBusy = 0 := by
  cases hnext : p.next? with
  | none => rw [PlainQueue.leastBusy_of_none hnext, f.floor_eq]
  | some next =>
    obtain ⟨t, a⟩ := next
    obtain ⟨ha, -⟩ := f.circled.listed.next?_eq_some.mp hnext
    rw [f.circled.listed.leastBusy_of_some hnext, f.time_eq ha, f.floor_eq]
    rfl

theorem enroll (f : Filled cost priority charge p lanes) (ht : p.account t = none)
    (n : Numbered (p.enroll t priority)) : Filled cost priority charge (p.enroll t priority) lanes where
  circled := f.circled.enroll ht
  numbered := n
  floor_eq := f.floor_eq
  time_eq {u b} hb := by
    rcases PlainQueue.of_account_enroll hb with ⟨-, rfl⟩ | ⟨-, hb⟩
    · rfl
    · exact f.time_eq hb

/-- A push puts its resource behind the others of its target, or at the end of the circle. -/
theorem enqueue (f : Filled cost priority charge p lanes) (ht : p.account t = some a) {resource : ρ}
    {size : Nat} (hcost : cost priority size = charge) (n : Numbered (p.enqueue t a resource size)) :
    Filled cost priority charge (p.enqueue t a resource size)
      (join ⟨t, a.registration, resource, size⟩ lanes) where
  circled := by
    by_cases hmem : t ∈ lanes.map Lane.target
    · exact f.circled.lengthen ht hmem hcost
    · rw [join_of_not_mem hmem]
      exact f.circled.append f.numbered ht hmem hcost
  numbered := n
  floor_eq := f.floor_eq
  time_eq {u b} hb := by
    rcases PlainQueue.of_account_write hb with ⟨-, rfl⟩ | ⟨-, hb⟩
    · have hzero := f.time_eq ht
      rw [PlainQueue.filled]
      split
      · exact hzero
      · show max a.virtualTime p.leastBusy = 0
        rw [hzero, f.leastBusy_eq]
        rfl
    · exact f.time_eq hb

theorem effect (f : Filled cost priority charge p lanes) (hcall : call.fills cost priority charge = true)
    (e : Effect cost p call answer p') :
    Filled cost priority charge p'
      ((⟨p, call, answer, p'⟩ : Step ρ).queued.foldl (fun lanes d => join d lanes) lanes) := by
  have n := f.numbered.effect e
  cases e with
  | enrolled ht =>
    obtain rfl := of_decide_eq_true hcall
    exact f.enroll ht n
  | dismissed => cases hcall
  | @reprioritised t a given ha =>
    obtain rfl := of_decide_eq_true hcall
    rw [f.circled.write_priority ha]
    exact f
  | @enqueued t a resource size ha =>
    have hqueued : (⟨p, .push t resource size, .done, p.enqueue t a resource size⟩ : Step ρ).queued =
        [⟨t, a.registration, resource, size⟩] := by
      simp only [Step.queued, PlainQueue.registrationOf_eq ha]
      rfl
    rw [hqueued]
    exact f.enqueue ha (of_decide_eq_true hcall) n
  | served => cases hcall
  | quiet hquiet =>
    rw [Step.queued_of_quiet hquiet]
    exact f

theorem run (f : Filled cost priority charge p lanes) {calls : List (Call ρ)}
    (hcalls : ∀ call ∈ calls, call.fills cost priority charge = true) :
    Filled cost priority charge (p.after cost calls)
      (((p.history cost calls).flatMap Step.queued).foldl (fun lanes d => join d lanes) lanes) := by
  induction calls generalizing p lanes with
  | nil => exact f
  | cons call calls ih =>
    obtain ⟨hcall, hcalls⟩ := List.forall_mem_cons.mp hcalls
    rw [PlainQueue.history, List.flatMap_cons, List.foldl_append]
    exact ih (f.effect hcall (step_effect cost p call)) hcalls

end Filled

/-! ### Emptying -/

/-- A round is under way: some lanes are still ahead at one virtual time, the others have had their turn and are
one charge further. No time comes to the greatest word. -/
structure Turning (cost : Cost) (priority : Number.Single) (charge : Nat) (p : PlainQueue ρ) (time : Nat)
    (ahead behind : List (Lane ρ)) : Prop where
  circled : Circled cost priority charge p (behind ++ ahead)
  ahead_time : ∀ lane ∈ ahead, p.virtualTimeOf lane.target = time
  behind_time : ∀ lane ∈ behind, p.virtualTimeOf lane.target = time + charge
  ahead_room : ∀ lane ∈ ahead, time + lane.due.length * charge ≤ Word.greatest
  behind_room : ∀ lane ∈ behind, time + charge + lane.due.length * charge ≤ Word.greatest

theorem Filled.turning (f : Filled cost priority charge p lanes)
    (hroom : ∀ lane ∈ lanes, lane.due.length * charge ≤ Word.greatest) :
    Turning cost priority charge p 0 lanes [] where
  circled := f.circled
  ahead_time lane hlane := by
    obtain ⟨a, -, ha, -⟩ := f.circled.account hlane
    rw [PlainQueue.virtualTimeOf_eq ha, f.time_eq ha]
  behind_time _ h := nomatch h
  ahead_room lane hlane := by
    rw [Nat.zero_add]
    exact hroom lane hlane
  behind_room _ h := nomatch h

namespace Turning

/-- When everybody had a turn, the next round begins. -/
theorem again (τ : Turning cost priority charge p time [] behind) :
    Turning cost priority charge p (time + charge) behind [] where
  circled := by
    have c := τ.circled
    rw [List.append_nil] at c
    exact c
  ahead_time := τ.behind_time
  behind_time _ h := nomatch h
  ahead_room := τ.behind_room
  behind_room _ h := nomatch h

/-- The target at the head of the circle comes first. -/
theorem next?_eq (τ : Turning cost priority charge p time (lane :: ahead) behind) (hcharge : 1 ≤ charge)
    (ha : p.account lane.target = some a) : p.next? = some (lane.target, a) := by
  have hself : a.virtualTime = time := by
    rw [← PlainQueue.virtualTimeOf_eq ha]
    exact τ.ahead_time lane List.mem_cons_self
  have hmem : lane.target ∈ (behind ++ lane :: ahead).map Lane.target :=
    List.mem_map_of_mem (List.mem_append_right _ List.mem_cons_self)
  refine τ.circled.listed.next?_eq_some.mpr ⟨ha, τ.circled.isBusy hmem ha, fun u b hb hbusy => ?_⟩
  rw [Account.rank, Account.rank, Prod.Lex.toLex_le_toLex, Prod.Lex.toLex_le_toLex]
  obtain ⟨other, hother, rfl⟩ := List.mem_map.mp (τ.circled.busy hb hbusy)
  have htime := PlainQueue.virtualTimeOf_eq hb
  rcases List.mem_append.mp hother with hbehind | hahead
  · -- Who had a turn is later.
    have := τ.behind_time other hbehind
    exact .inl (by simp only; omega)
  have := τ.ahead_time other hahead
  refine .inr ⟨by simp only; omega, ?_⟩
  rcases List.mem_cons.mp hahead with rfl | hahead
  · obtain rfl := Option.some.inj (ha.symm.trans hb)
    exact .inr ⟨rfl, Nat.le_refl _⟩
  · -- Of those ahead the head became busy first.
    have hordered := τ.circled.ordered
    rw [List.map_append, List.map_cons] at hordered
    obtain ⟨-, hordered, -⟩ := List.pairwise_append.mp hordered
    have hlt := (List.pairwise_cons.mp hordered).1 other.target (List.mem_map_of_mem hahead)
    rw [PlainQueue.activationOf_eq ha, PlainQueue.activationOf_eq hb] at hlt
    exact .inl hlt

/-- A pop hands out the first of the lane at the head, and the rest of the lane goes behind the others. -/
theorem serve (τ : Turning cost priority charge p time (lane :: ahead) behind) (hcharge : 1 ≤ charge) :
    (p.pop cost).1 = some lane.first ∧
      Turning cost priority charge (p.pop cost).2 time ahead (behind ++ lane.rest?.toList) := by
  have hlane : lane ∈ behind ++ lane :: ahead := List.mem_append_right _ List.mem_cons_self
  obtain ⟨a, rest, ha, hbacklog, hfirst, -⟩ := τ.circled.account hlane
  have hcost : cost a.priority lane.first.size = charge := by
    rw [τ.circled.priority_eq ha]
    exact τ.circled.cost_eq lane hlane lane.first List.mem_cons_self
  have hpop : p.pop cost = (some ⟨lane.target, a.registration, lane.first.resource, lane.first.size⟩,
      p.serve lane.target a rest lane.first.size charge) := by
    simp only [PlainQueue.pop, τ.next?_eq hcharge ha, hbacklog, hcost]
  have hroom := τ.ahead_room lane List.mem_cons_self
  rw [Lane.due, List.length_cons, Nat.succ_mul] at hroom
  -- The others keep their times, and the rest of the lane is one charge further.
  have hother : ∀ l ∈ behind ++ ahead,
      (p.serve lane.target a rest lane.first.size charge).virtualTimeOf l.target =
        p.virtualTimeOf l.target :=
    fun l hl => PlainQueue.virtualTimeOf_congr (p.account_serve_of_ne (τ.circled.target_ne hl))
  have hself : (p.serve lane.target a rest lane.first.size charge).virtualTimeOf lane.target =
      time + charge := by
    rw [PlainQueue.virtualTimeOf_eq (p.account_serve_self lane.target a rest lane.first.size charge)]
    show Word.add a.virtualTime charge = time + charge
    rw [← PlainQueue.virtualTimeOf_eq ha, τ.ahead_time lane List.mem_cons_self]
    exact Word.add_eq_of_le (by omega)
  rw [hpop]
  refine ⟨congrArg some hfirst.symm, τ.circled.serve ha hbacklog _ _, fun l hl => ?_, fun l hl => ?_,
    fun l hl => τ.ahead_room l (List.mem_cons_of_mem _ hl), fun l hl => ?_⟩
  · rw [hother l (List.mem_append_right _ hl)]
    exact τ.ahead_time l (List.mem_cons_of_mem _ hl)
  · rcases List.mem_append.mp hl with hl | hl
    · rw [hother l (List.mem_append_left _ hl)]
      exact τ.behind_time l hl
    · rw [(τ.circled.of_rest? hlane hl).1]
      exact hself
  · rcases List.mem_append.mp hl with hl | hl
    · exact τ.behind_room l hl
    · rw [(τ.circled.of_rest? hlane hl).2]
      omega

/-- A pop is a turn. -/
theorem pop (τ : Turning cost priority charge p time ahead behind) (hcharge : 1 ≤ charge) :
    (p.pop cost).1 = (deal (ahead ++ behind)).1 ∧
      ∃ time' ahead' behind', Turning cost priority charge (p.pop cost).2 time' ahead' behind' ∧
        ahead' ++ behind' = (deal (ahead ++ behind)).2 := by
  have turn : ∀ {time lane ahead behind}, Turning cost priority charge p time (lane :: ahead) behind →
      (p.pop cost).1 = (deal (lane :: ahead ++ behind)).1 ∧
        ∃ time' ahead' behind', Turning cost priority charge (p.pop cost).2 time' ahead' behind' ∧
          ahead' ++ behind' = (deal (lane :: ahead ++ behind)).2 := by
    intro time lane ahead behind τ
    obtain ⟨hfirst, hrest⟩ := τ.serve hcharge
    exact ⟨hfirst, time, ahead, _, hrest, (List.append_assoc ..).symm⟩
  cases ahead with
  | cons lane ahead => exact turn τ
  | nil =>
    cases behind with
    | cons lane behind =>
      have h := turn τ.again
      rw [List.append_nil] at h
      exact h
    | nil =>
      have hnone : p.next? = none := by
        refine τ.circled.listed.next?_eq_none.mpr fun t a ha => ?_
        rw [← Bool.not_eq_true]
        exact fun hbusy => nomatch τ.circled.busy ha hbusy
      have hpop : p.pop cost = (none, p) := by simp only [PlainQueue.pop, hnone]
      rw [hpop]
      exact ⟨rfl, time, [], [], τ, rfl⟩

/-- Every other call leaves the books as they are, and hands out nothing. -/
theorem step_of_not_pop (τ : Turning cost priority charge p time ahead behind)
    (hcall : call.empties priority = true) (hpop : call.isPop = false) :
    (p.step cost call).2 = p ∧
      (⟨p, call, (p.step cost call).1, (p.step cost call).2⟩ : Step ρ).handed = [] := by
  cases call with
  | setPriority t given =>
    obtain rfl := of_decide_eq_true hcall
    show (Answer.ofDone p (p.setPriority t given)).2 = p ∧ _
    cases hset : p.setPriority t given with
    | error e =>
      simp only [PlainQueue.step, hset]
      exact ⟨rfl, rfl⟩
    | ok p' =>
      simp only [PlainQueue.step, hset]
      exact ⟨τ.circled.setPriority_eq hset, rfl⟩
  | peek => exact ⟨rfl, rfl⟩
  | query question => cases question with | _ => exact ⟨rfl, rfl⟩
  | pop => cases hpop
  | addTarget t given => cases hcall
  | removeTarget t => cases hcall
  | push t resource size => cases hcall

/-- The pops of a run are the turns of the circle. -/
theorem run (τ : Turning cost priority charge p time ahead behind) (hcharge : 1 ≤ charge)
    {calls : List (Call ρ)} (hcalls : ∀ call ∈ calls, call.empties priority = true) :
    handed (p.history cost calls) = deals (calls.countP (·.isPop)) (ahead ++ behind) := by
  induction calls generalizing p time ahead behind with
  | nil => rfl
  | cons call calls ih =>
    obtain ⟨hcall, hothers⟩ := List.forall_mem_cons.mp hcalls
    rw [PlainQueue.history, handed, List.flatMap_cons]
    cases hpop : call.isPop with
    | false =>
      obtain ⟨hsame, hnone⟩ := τ.step_of_not_pop hcall hpop
      rw [hnone, hsame, List.countP_cons_of_neg (by rw [hpop]; decide), List.nil_append]
      exact ih τ hothers
    | true =>
      obtain rfl : call = .pop := by
        cases call with
        | pop => rfl
        | _ => cases hpop
      obtain ⟨hfirst, time', ahead', behind', hturning, hrest⟩ := τ.pop hcharge
      rw [List.countP_cons_of_pos rfl, deals, ← hfirst, ← hrest]
      exact congrArg ((p.pop cost).1 :: ·) (ih hturning hothers)

end Turning

end Fair

namespace FairQueue

/-- **Equals take turns.** Fill a new queue with targets of one priority and with resources that come at one
charge, at least one, and at what is short of the greatest virtual time in all for each target. Then let the
pops be interleaved with whatever sets a priority to what it is, and with questions. They hand out what the
circle deals, one resource of each target in turn, in the order in which the targets got their first one. -/
theorem serves_in_rounds (settings : FairSettings) (cost : Cost) {priority : Number.Single} {charge : Nat}
    (hcharge : 1 ≤ charge) (filling emptying : List (Call ρ))
    (hfilling : ∀ call ∈ filling, call.fills cost priority charge = true)
    (hemptying : ∀ call ∈ emptying, call.empties priority = true)
    (hroom : ∀ lane ∈ circle ((ofSettings settings).history cost filling),
      lane.due.length * charge < Nat.pow 2 64) :
    handed (((ofSettings settings).after cost filling).history cost emptying) =
      deals (emptying.countP (·.isPop)) (circle ((ofSettings settings).history cost filling)) := by
  have hstart : Sound (ofSettings settings : FairQueue ρ) := Sound.ofSettings settings
  rw [history_plain cost (sound_after cost hstart filling), plain_after cost hstart]
  rw [history_plain cost hstart] at hroom ⊢
  rw [plain_ofSettings] at hroom ⊢
  have f := (Filled.ofSettings settings).run hfilling
  have τ := f.turning fun lane hlane => by
    have hlt := hroom lane hlane
    rw [Word.greatest_eq]
    exact Nat.le_sub_one_of_lt hlt
  have hrun := τ.run hcharge hemptying
  rw [List.append_nil] at hrun
  exact hrun

/-- Three targets with backlogs of different lengths, which get their first resources in an order of their own. -/
def uneven : List (Call Unit) :=
  [.addTarget ⟨1⟩ ⟨0x40000000⟩, .addTarget ⟨2⟩ ⟨0x40000000⟩, .push ⟨2⟩ () 5,
    .addTarget ⟨3⟩ ⟨0x40000000⟩, .push ⟨3⟩ () 5, .push ⟨4⟩ () 5, .push ⟨3⟩ () 5, .push ⟨1⟩ () 5,
    .push ⟨2⟩ () 5, .push ⟨3⟩ () 5]

/-- More pops than there are resources, and between them enough changes of priorities for the heap to be built
anew. -/
def restless : List (Call Unit) :=
  [.pop] ++ List.replicate 70 (.setPriority ⟨3⟩ ⟨0x40000000⟩) ++ [.pop, .peek, .pop, .pop] ++
    List.replicate 70 (.setPriority ⟨2⟩ ⟨0x40000000⟩) ++ [.pop, .pop, .pop]

theorem serves_in_rounds_uneven :
    handed (((ofSettings .small).after Fair.cost uneven).history Fair.cost restless) =
        deals (restless.countP (·.isPop)) (circle ((ofSettings .small).history Fair.cost uneven)) ∧
      (deals (restless.countP (·.isPop)) (circle ((ofSettings .small).history Fair.cost uneven))).map
          (·.map (·.target.raw)) =
        [some 2, some 3, some 1, some 2, some 3, some 3, none] := by
  have hcharge : 1 ≤ 2500000 := by decide
  have hfilling : ∀ call ∈ uneven, call.fills Fair.cost ⟨0x40000000⟩ 2500000 = true := by decide +kernel
  have hemptying : ∀ call ∈ restless, call.empties ⟨0x40000000⟩ = true := by decide +kernel
  have hroom : ∀ lane ∈ circle ((ofSettings .small).history Fair.cost uneven),
      lane.due.length * 2500000 < Nat.pow 2 64 := by
    decide +kernel
  have hdeals : (deals (restless.countP (·.isPop)) (circle ((ofSettings .small).history Fair.cost uneven))).map
      (·.map (·.target.raw)) = [some 2, some 3, some 1, some 2, some 3, some 3, none] := by
    decide +kernel
  exact ⟨serves_in_rounds .small Fair.cost hcharge uneven restless hfilling hemptying hroom, hdeals⟩

end FairQueue

end Sluice
