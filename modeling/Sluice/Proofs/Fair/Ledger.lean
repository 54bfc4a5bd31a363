import Sluice.Proofs.Fair.Refinement

/-!
# What became of every resource

A history says what was accepted, handed out and returned under each registration number. `Ledger` is
the invariant that ties these lists to the books: of a number that a target still has, what was accepted
is what was handed out and then the backlog; of a number that has ended, what was handed out and then
what its removal returned; of a number not given out yet, nothing. Each effect of a call keeps it
(`Ledger.effect`), and so does a run (`Ledger.after`).

`conserved` draws the conclusions for a fair queue: nothing is lost, doubled or put out of order, the
count of what is pending is the sum of the backlogs, nothing is subtracted that is not there, and a
pop finds nothing only when nothing is pending.
-/

namespace Sluice

open Fair

variable {ρ : Type}

/-- The number of the registration that a target has. -/
def PlainQueue.registrationOf (p : PlainQueue ρ) (t : TargetId) : Option Nat :=
  (p.account t).map (·.registration)

theorem PlainQueue.registrationOf_eq {p : PlainQueue ρ} {t : TargetId} {a : Account ρ}
    (ht : p.account t = some a) : p.registrationOf t = some a.registration := by
  rw [registrationOf, ht, Option.map_some]

namespace Fair

namespace Step

/-- The registration that a step makes. -/
def registered (s : Step ρ) : List (TargetId × Nat) :=
  match s.call, s.answer with
  | .addTarget t _, .registered r => [(t, r)]
  | _, _ => []

/-- What a push is accepted for under a number, with its size. -/
def accepted (r : Nat) (s : Step ρ) : List (ρ × Nat) :=
  match s.call, s.answer with
  | .push t resource size, .done =>
    if s.before.registrationOf t = some r then [(resource, size)] else []
  | _, _ => []

/-- The delivery that a step makes. -/
def delivered (s : Step ρ) : List (Delivery ρ) :=
  match s.answer with
  | .delivery (some d) => [d]
  | _ => []

/-- What a pop hands out under a number, with its size. -/
def popped (r : Nat) (s : Step ρ) : List (ρ × Nat) :=
  (s.delivered.filter (·.registration == r)).map fun d => (d.resource, d.size)

/-- The backlog that a removal returns. -/
def returned (s : Step ρ) : List (TargetId × List ρ) :=
  match s.call, s.answer with
  | .removeTarget t, .returned resources => [(t, resources)]
  | _, _ => []

/-- The backlog that the removal that ends a number returns. -/
def returnedOf (r : Nat) (s : Step ρ) : List (List ρ) :=
  (s.returned.filter fun e => s.before.registrationOf e.1 == some r).map (·.2)

end Step

/-- The registrations of a history, in order. -/
def registrations (h : List (Step ρ)) : List (TargetId × Nat) := h.flatMap (·.registered)

/-- What was accepted under a number, in order. -/
def acceptedUnder (r : Nat) (h : List (Step ρ)) : List (ρ × Nat) := h.flatMap (·.accepted r)

/-- The deliveries of a history, in order. -/
def deliveries (h : List (Step ρ)) : List (Delivery ρ) := h.flatMap (·.delivered)

/-- What was handed out under a number, in order. -/
def poppedUnder (r : Nat) (h : List (Step ρ)) : List (ρ × Nat) := h.flatMap (·.popped r)

/-- What the removals that ended a number returned. -/
def returnedUnder (r : Nat) (h : List (Step ρ)) : List (List ρ) := h.flatMap (·.returnedOf r)

/-- How many resources were returned by removals. -/
def returnedCount (h : List (Step ρ)) : Nat :=
  ((h.flatMap (·.returned)).map (·.2.length)).sum

section

variable (h : List (Step ρ)) (s : Step ρ) (r : Nat)

theorem registrations_snoc : registrations (h ++ [s]) = registrations h ++ s.registered := by
  simp only [registrations, List.flatMap_append, List.flatMap_singleton]

theorem acceptedUnder_snoc : acceptedUnder r (h ++ [s]) = acceptedUnder r h ++ s.accepted r := by
  simp only [acceptedUnder, List.flatMap_append, List.flatMap_singleton]

theorem deliveries_snoc : deliveries (h ++ [s]) = deliveries h ++ s.delivered := by
  simp only [deliveries, List.flatMap_append, List.flatMap_singleton]

theorem poppedUnder_snoc : poppedUnder r (h ++ [s]) = poppedUnder r h ++ s.popped r := by
  simp only [poppedUnder, List.flatMap_append, List.flatMap_singleton]

theorem returnedUnder_snoc : returnedUnder r (h ++ [s]) = returnedUnder r h ++ s.returnedOf r := by
  simp only [returnedUnder, List.flatMap_append, List.flatMap_singleton]

theorem returnedCount_snoc :
    returnedCount (h ++ [s]) = returnedCount h + (s.returned.map (·.2.length)).sum := by
  simp only [returnedCount, List.flatMap_append, List.flatMap_singleton, List.map_append,
    List.sum_append]

variable {s}

theorem acceptedUnder_snoc_nil (hs : s.accepted r = []) :
    acceptedUnder r (h ++ [s]) = acceptedUnder r h := by
  rw [acceptedUnder_snoc, hs, List.append_nil]

theorem poppedUnder_snoc_nil (hs : s.popped r = []) :
    poppedUnder r (h ++ [s]) = poppedUnder r h := by
  rw [poppedUnder_snoc, hs, List.append_nil]

theorem returnedUnder_snoc_nil (hs : s.returned = []) :
    returnedUnder r (h ++ [s]) = returnedUnder r h := by
  have hnil : s.returnedOf r = [] := by
    simp only [Step.returnedOf, hs, List.filter_nil, List.map_nil]
  rw [returnedUnder_snoc, hnil, List.append_nil]

theorem Step.popped_nil (hs : s.delivered = []) : s.popped r = [] := by
  simp only [Step.popped, hs, List.filter_nil, List.map_nil]

end

/-- The books agree with the history. -/
structure Ledger (h : List (Step ρ)) (p : PlainQueue ρ) : Prop where
  listed : p.Listed
  pos : 1 ≤ p.nextRegistration
  /-- The numbers given out are `1`, `2`, `3` and so on. -/
  numbers : (registrations h).map (·.2) = List.range' 1 (p.nextRegistration - 1)
  current : ∀ {t a}, p.account t = some a → (t, a.registration) ∈ registrations h
  running : ∀ {t a}, p.account t = some a →
    acceptedUnder a.registration h = poppedUnder a.registration h ++ a.backlog ∧
      returnedUnder a.registration h = []
  ended : ∀ {t r}, (t, r) ∈ registrations h → p.registrationOf t ≠ some r →
    ∃ rest, acceptedUnder r h = poppedUnder r h ++ rest ∧ returnedUnder r h = [rest.map (·.1)]
  unused : ∀ {r}, p.nextRegistration ≤ r →
    acceptedUnder r h = [] ∧ poppedUnder r h = [] ∧ returnedUnder r h = []
  targets : ∀ d ∈ deliveries h, (d.target, d.registration) ∈ registrations h
  counts : p.enqueued = p.delivered + p.pending + returnedCount h

namespace Ledger

variable {h : List (Step ρ)} {p : PlainQueue ρ} {t u : TargetId} {a b : Account ρ} {r : Nat}

theorem nodup (l : Ledger h p) : ((registrations h).map (·.2)).Nodup := by
  rw [l.numbers]
  exact List.nodup_range'

theorem target_unique (l : Ledger h p) (ht : (t, r) ∈ registrations h)
    (hu : (u, r) ∈ registrations h) : t = u :=
  congrArg Prod.fst (List.inj_on_of_nodup_map l.nodup ht hu rfl)

theorem lt_next (l : Ledger h p) (ht : (t, r) ∈ registrations h) : r < p.nextRegistration := by
  have hmem : r ∈ (registrations h).map (·.2) := List.mem_map_of_mem ht
  rw [l.numbers, List.mem_range'_1] at hmem
  omega

/-- Two targets never have the same number. -/
theorem registration_ne (l : Ledger h p) (ht : p.account t = some a) (hu : p.account u = some b)
    (hne : u ≠ t) : b.registration ≠ a.registration := by
  intro heq
  have hcurrent := l.current hu
  rw [heq] at hcurrent
  exact hne (l.target_unique hcurrent (l.current ht))

theorem empty (settings : FairSettings) : Ledger [] (PlainQueue.ofSettings settings : PlainQueue ρ) where
  listed := ⟨List.Pairwise.nil, by simp [PlainQueue.ofSettings]⟩
  pos := Nat.le_refl 1
  numbers := rfl
  current ht := by cases ht
  running ht := by cases ht
  ended ht := by cases ht
  unused _ := ⟨rfl, rfl, rfl⟩
  targets d hd := by cases hd
  counts := rfl

/-- A step that nothing tells of. -/
theorem quiet (l : Ledger h p) {call : Call ρ} {answer : Answer ρ} (hquiet : answer.isQuiet = true) :
    Ledger (h ++ [⟨p, call, answer, p⟩]) p := by
  have hregistered : (⟨p, call, answer, p⟩ : Step ρ).registered = [] := by
    cases call <;> cases answer <;> first | rfl | cases hquiet
  have haccepted : ∀ r, (⟨p, call, answer, p⟩ : Step ρ).accepted r = [] := by
    intro r
    cases call <;> cases answer <;> first | rfl | cases hquiet
  have hdelivered : (⟨p, call, answer, p⟩ : Step ρ).delivered = [] := by
    cases answer with
    | delivery d => cases d <;> first | rfl | cases hquiet
    | _ => rfl
  have hreturned : (⟨p, call, answer, p⟩ : Step ρ).returned = [] := by
    cases call <;> cases answer <;> first | rfl | cases hquiet
  generalize (⟨p, call, answer, p⟩ : Step ρ) = s at *
  have hacc r := acceptedUnder_snoc_nil h r (haccepted r)
  have hpop r := poppedUnder_snoc_nil h r (Step.popped_nil r hdelivered)
  have hret r := returnedUnder_snoc_nil h r hreturned
  have hreg : registrations (h ++ [s]) = registrations h := by
    rw [registrations_snoc, hregistered, List.append_nil]
  have hdel : deliveries (h ++ [s]) = deliveries h := by
    rw [deliveries_snoc, hdelivered, List.append_nil]
  have hcount : returnedCount (h ++ [s]) = returnedCount h := by
    rw [returnedCount_snoc, hreturned, List.map_nil, List.sum_nil, Nat.add_zero]
  refine ⟨l.listed, l.pos, ?_, ?_, ?_, ?_, ?_, ?_, ?_⟩
  · rw [hreg]
    exact l.numbers
  · intro t a ht
    rw [hreg]
    exact l.current ht
  · intro t a ht
    rw [hacc, hpop, hret]
    exact l.running ht
  · intro t r ht hne
    rw [hreg] at ht
    rw [hacc, hpop, hret]
    exact l.ended ht hne
  · intro r hr
    rw [hacc, hpop, hret]
    exact l.unused hr
  · rw [hdel, hreg]
    exact l.targets
  · rw [hcount]
    exact l.counts

/-- A step that changes the account of one target, but not its number: what is accepted and what is
popped under the number are the difference that they make to the backlog. -/
theorem rewrite (l : Ledger h p) {s : Step ρ} {p' : PlainQueue ρ} (b : Account ρ)
    (x y : List (ρ × Nat)) (ht : p.account t = some a) (hb : b.registration = a.registration)
    (hids : p'.ids = p.ids) (haccount : p'.account = (p.write t b).account)
    (hnext : p'.nextRegistration = p.nextRegistration)
    (hcounts : p'.enqueued = p'.delivered + p'.pending + returnedCount h)
    (hregistered : s.registered = []) (hreturned : s.returned = [])
    (haccepted : ∀ r, s.accepted r = if r = a.registration then x else [])
    (hpopped : ∀ r, s.popped r = if r = a.registration then y else [])
    (hdelivered : ∀ d ∈ s.delivered, d.target = t ∧ d.registration = a.registration)
    (hbacklog : a.backlog ++ x = y ++ b.backlog) :
    Ledger (h ++ [s]) p' := by
  have hreg : registrations (h ++ [s]) = registrations h := by
    rw [registrations_snoc, hregistered, List.append_nil]
  have hret r := returnedUnder_snoc_nil h r hreturned
  have hacc {r} (hr : r ≠ a.registration) : acceptedUnder r (h ++ [s]) = acceptedUnder r h :=
    acceptedUnder_snoc_nil h r ((haccepted r).trans (if_neg hr))
  have hpop {r} (hr : r ≠ a.registration) : poppedUnder r (h ++ [s]) = poppedUnder r h :=
    poppedUnder_snoc_nil h r ((hpopped r).trans (if_neg hr))
  have hwrite : ∀ u c, p'.account u = some c →
      (u = t ∧ c = b) ∨ (u ≠ t ∧ p.account u = some c) := by
    intro u c hu
    rw [haccount] at hu
    exact PlainQueue.of_account_write hu
  have hsame : ∀ u, p'.registrationOf u = p.registrationOf u := by
    intro u
    simp only [PlainQueue.registrationOf, haccount, PlainQueue.account_write]
    by_cases hut : u = t
    · simp only [hut, if_true, ht, Option.map_some, hb]
    · simp only [hut, if_false]
  refine ⟨(l.listed.write ht).congr hids haccount, hnext ▸ l.pos, ?_, ?_, ?_, ?_, ?_, ?_, ?_⟩
  · rw [hreg, hnext]
    exact l.numbers
  · intro u c hu
    rw [hreg]
    rcases hwrite u c hu with ⟨rfl, rfl⟩ | ⟨-, hu⟩
    · rw [hb]
      exact l.current ht
    · exact l.current hu
  · intro u c hu
    rw [hret]
    rcases hwrite u c hu with ⟨-, rfl⟩ | ⟨hut, hu⟩
    · obtain ⟨hrunning, hreturned⟩ := l.running ht
      rw [hb]
      refine ⟨?_, hreturned⟩
      rw [acceptedUnder_snoc, poppedUnder_snoc, haccepted, hpopped, if_pos rfl, if_pos rfl,
        hrunning, List.append_assoc, hbacklog, List.append_assoc]
    · have hne := l.registration_ne ht hu hut
      rw [hacc hne, hpop hne]
      exact l.running hu
  · intro u r hu hne
    rw [hreg] at hu
    rw [hsame] at hne
    have hr : r ≠ a.registration := by
      rintro rfl
      obtain rfl := l.target_unique hu (l.current ht)
      exact hne (PlainQueue.registrationOf_eq ht)
    rw [hacc hr, hpop hr, hret]
    exact l.ended hu hne
  · intro r hr
    rw [hnext] at hr
    have hne : r ≠ a.registration := Nat.ne_of_gt (Nat.lt_of_lt_of_le (l.lt_next (l.current ht)) hr)
    rw [hacc hne, hpop hne, hret]
    exact l.unused hr
  · intro d hd
    rw [hreg]
    rw [deliveries_snoc] at hd
    rcases List.mem_append.mp hd with hd | hd
    · exact l.targets d hd
    · obtain ⟨htarget, hregistration⟩ := hdelivered d hd
      rw [htarget, hregistration]
      exact l.current ht
  · rw [hcounts, returnedCount_snoc, hreturned, List.map_nil, List.sum_nil, Nat.add_zero]

theorem enroll (l : Ledger h p) {s : Step ρ} (ht : p.account t = none) (priority : Number.Single)
    (hregistered : s.registered = [(t, p.nextRegistration)]) (haccepted : ∀ r, s.accepted r = [])
    (hdelivered : s.delivered = []) (hreturned : s.returned = []) :
    Ledger (h ++ [s]) (p.enroll t priority) := by
  have hacc r := acceptedUnder_snoc_nil h r (haccepted r)
  have hpop r := poppedUnder_snoc_nil h r (Step.popped_nil r hdelivered)
  have hret r := returnedUnder_snoc_nil h r hreturned
  have hpos := l.pos
  refine ⟨l.listed.enroll _, Nat.le_succ_of_le hpos, ?_, ?_, ?_, ?_, ?_, ?_, ?_⟩
  · rw [registrations_snoc, hregistered, List.map_append, l.numbers]
    show _ ++ [p.nextRegistration] = List.range' 1 (p.nextRegistration + 1 - 1)
    obtain ⟨n, hn⟩ : ∃ n, p.nextRegistration = n + 1 := ⟨p.nextRegistration - 1, by omega⟩
    rw [hn, Nat.add_sub_cancel, Nat.add_sub_cancel, List.range'_concat, Nat.one_mul, Nat.add_comm 1]
  · intro u c hu
    rw [registrations_snoc, hregistered]
    rcases PlainQueue.of_account_enroll hu with ⟨rfl, rfl⟩ | ⟨-, hu⟩
    · exact List.mem_append_right _ (List.mem_singleton.mpr rfl)
    · exact List.mem_append_left _ (l.current hu)
  · intro u c hu
    rw [hacc, hpop, hret]
    rcases PlainQueue.of_account_enroll hu with ⟨-, rfl⟩ | ⟨-, hu⟩
    · obtain ⟨haccepted, hpopped, hreturned⟩ := l.unused (Nat.le_refl _)
      rw [haccepted, hpopped]
      exact ⟨rfl, hreturned⟩
    · exact l.running hu
  · intro u r hu hne
    rw [registrations_snoc, hregistered] at hu
    rw [hacc, hpop, hret]
    simp only [PlainQueue.registrationOf, PlainQueue.account_enroll] at hne
    rcases List.mem_append.mp hu with hu | hu
    · refine l.ended hu ?_
      by_cases hut : u = t
      · simp [PlainQueue.registrationOf, hut, ht]
      · rw [if_neg hut] at hne
        exact hne
    · obtain ⟨rfl, rfl⟩ := Prod.mk.inj (List.mem_singleton.mp hu)
      simp at hne
  · intro r hr
    rw [hacc, hpop, hret]
    exact l.unused (Nat.le_of_succ_le hr)
  · intro d hd
    rw [deliveries_snoc, hdelivered, List.append_nil] at hd
    rw [registrations_snoc]
    exact List.mem_append_left _ (l.targets d hd)
  · rw [returnedCount_snoc, hreturned, l.listed.pending_enroll ht]
    exact l.counts

theorem dismiss (l : Ledger h p) {s : Step ρ} (ht : p.account t = some a) (hbefore : s.before = p)
    (hregistered : s.registered = []) (haccepted : ∀ r, s.accepted r = [])
    (hdelivered : s.delivered = []) (hreturned : s.returned = [(t, a.backlog.map (·.1))]) :
    Ledger (h ++ [s]) (p.dismiss t) := by
  have hacc r := acceptedUnder_snoc_nil h r (haccepted r)
  have hpop r := poppedUnder_snoc_nil h r (Step.popped_nil r hdelivered)
  have hret r : returnedUnder r (h ++ [s]) = returnedUnder r h ++
      if r = a.registration then [a.backlog.map (·.1)] else [] := by
    rw [returnedUnder_snoc, Step.returnedOf, hreturned, hbefore]
    by_cases hr : r = a.registration
    · simp [hr, PlainQueue.registrationOf_eq ht]
    · simp [hr, Ne.symm hr, PlainQueue.registrationOf_eq ht]
  have hreg : registrations (h ++ [s]) = registrations h := by
    rw [registrations_snoc, hregistered, List.append_nil]
  refine ⟨l.listed.dismiss t, l.pos, ?_, ?_, ?_, ?_, ?_, ?_, ?_⟩
  · rw [hreg]
    exact l.numbers
  · intro u c hu
    rw [hreg]
    exact l.current (PlainQueue.of_account_dismiss hu).2
  · intro u c hu
    obtain ⟨hut, hu⟩ := PlainQueue.of_account_dismiss hu
    rw [hacc, hpop, hret, if_neg (l.registration_ne ht hu hut), List.append_nil]
    exact l.running hu
  · intro u r hu hne
    rw [hreg] at hu
    rw [hacc, hpop, hret]
    by_cases hr : r = a.registration
    · -- The number ends here: what it still held is what is returned.
      obtain ⟨hrunning, hreturned⟩ := l.running ht
      rw [if_pos hr, hr, hreturned]
      exact ⟨a.backlog, hrunning, rfl⟩
    · rw [if_neg hr, List.append_nil]
      refine l.ended hu ?_
      by_cases hut : u = t
      · rw [hut, PlainQueue.registrationOf_eq ht]
        exact fun heq => hr (Option.some.inj heq).symm
      · simp only [PlainQueue.registrationOf, PlainQueue.account_dismiss, hut, if_false] at hne
        exact hne
  · intro r hr
    have hlt := l.lt_next (l.current ht)
    have hne : r ≠ a.registration := Nat.ne_of_gt (Nat.lt_of_lt_of_le hlt hr)
    rw [hacc, hpop, hret, if_neg hne, List.append_nil]
    exact l.unused hr
  · intro d hd
    rw [hreg]
    rw [deliveries_snoc, hdelivered, List.append_nil] at hd
    exact l.targets d hd
  · have hpending := l.listed.pending_dismiss ht
    have hcounts := l.counts
    rw [returnedCount_snoc, hreturned, List.map_singleton, List.sum_singleton, List.length_map]
    show p.enqueued = p.delivered + (p.dismiss t).pending + _
    omega

theorem reprioritise (l : Ledger h p) (ht : p.account t = some a) (priority : Number.Single) :
    Ledger (h ++ [⟨p, .setPriority t priority, .done, p.write t { a with priority }⟩])
      (p.write t { a with priority }) := by
  refine l.rewrite { a with priority } [] [] ht rfl rfl rfl rfl ?_ rfl rfl ?_ ?_ ?_ ?_
  · have hpending := l.listed.pending_write (b := { a with priority }) ht
    have hsame : (p.write t { a with priority }).pending = p.pending :=
      Nat.add_right_cancel hpending
    rw [hsame]
    exact l.counts
  · intro r
    rw [ite_self]
    rfl
  · intro r
    rw [ite_self]
    exact Step.popped_nil r rfl
  · intro d hd
    cases hd
  · exact List.append_nil _

theorem enqueue (l : Ledger h p) (ht : p.account t = some a) (resource : ρ) (size : Nat) :
    Ledger (h ++ [⟨p, .push t resource size, .done, p.enqueue t a resource size⟩])
      (p.enqueue t a resource size) := by
  have hreg := PlainQueue.registrationOf_eq ht
  refine l.rewrite (p.filled a resource size) [(resource, size)] [] ht ?_ rfl rfl rfl ?_ rfl rfl
    ?_ ?_ ?_ ?_
  · exact PlainQueue.registration_filled
  · rw [l.listed.pending_enqueue ht]
    show p.enqueued + 1 = _
    rw [l.counts]
    show _ = p.delivered + (p.pending + 1) + returnedCount h
    omega
  · intro r
    simp only [Step.accepted, hreg, Option.some.injEq, eq_comm]
  · intro r
    rw [ite_self]
    exact Step.popped_nil r rfl
  · intro d hd
    cases hd
  · rw [PlainQueue.backlog_filled]
    rfl

theorem serve (l : Ledger h p) (ht : p.account t = some a) {resource : ρ} {size : Nat}
    {rest : List (ρ × Nat)} (hbacklog : a.backlog = (resource, size) :: rest) (cost : Nat) :
    Ledger (h ++ [⟨p, .pop, .delivery (some ⟨t, a.registration, resource, size⟩),
      p.serve t a rest size cost⟩]) (p.serve t a rest size cost) := by
  refine l.rewrite (a.served rest size cost) [] [(resource, size)] ht rfl rfl rfl rfl ?_ rfl rfl
    ?_ ?_ ?_ ?_
  · have hpending := l.listed.pending_serve ht hbacklog cost
    have hcounts := l.counts
    show p.enqueued = p.delivered + 1 + _ + returnedCount h
    omega
  · intro r
    rw [ite_self]
    rfl
  · intro r
    simp only [Step.popped, Step.delivered]
    by_cases hr : r = a.registration
    · simp [hr]
    · simp [hr, Ne.symm hr]
  · intro d hd
    obtain rfl := List.mem_singleton.mp hd
    exact ⟨rfl, rfl⟩
  · rw [hbacklog, List.append_nil]
    rfl

/-- Every effect of a call keeps the ledger. -/
theorem effect {cost : Cost} {p' : PlainQueue ρ} {call : Call ρ} {answer : Answer ρ}
    (l : Ledger h p) (e : Effect cost p call answer p') :
    Ledger (h ++ [⟨p, call, answer, p'⟩]) p' := by
  cases e with
  | enrolled ht => exact l.enroll ht _ rfl (fun _ => rfl) rfl rfl
  | dismissed ht => exact l.dismiss ht rfl rfl (fun _ => rfl) rfl rfl
  | reprioritised ht => exact l.reprioritise ht _
  | enqueued ht => exact l.enqueue ht _ _
  | served hnext hbacklog => exact l.serve (l.listed.next?_eq_some.mp hnext).1 hbacklog _
  | quiet hquiet => exact l.quiet hquiet

theorem run (cost : Cost) (l : Ledger h p) (calls : List (Call ρ)) :
    Ledger (h ++ p.history cost calls) (p.after cost calls) := by
  induction calls generalizing h p with
  | nil =>
    simp only [PlainQueue.history, List.append_nil]
    exact l
  | cons call calls ih =>
    have hrest := ih (l.effect (step_effect cost p call))
    rw [List.append_assoc] at hrest
    exact hrest

end Ledger

/-- What became of everything that was accepted under a number of a target. -/
structure Accounted (h : List (Step ρ)) (p : PlainQueue ρ) (t : TargetId) (r : Nat) : Prop where
  /-- Nobody else is served under the number. -/
  target : ∀ d ∈ deliveries h, d.registration = r → d.target = t
  /-- It was handed out in order, and the others are still held in order or were returned. -/
  fate :
    (∃ a, p.account t = some a ∧ a.registration = r ∧
      acceptedUnder r h = poppedUnder r h ++ a.backlog ∧ returnedUnder r h = []) ∨
    (p.registrationOf t ≠ some r ∧
      ∃ rest, acceptedUnder r h = poppedUnder r h ++ rest ∧ returnedUnder r h = [rest.map (·.1)])

theorem Ledger.accounted {h : List (Step ρ)} {p : PlainQueue ρ} (l : Ledger h p) {t : TargetId}
    {r : Nat} (ht : (t, r) ∈ registrations h) : Accounted h p t r where
  target d hd hr := by
    have hd := l.targets d hd
    rw [hr] at hd
    exact l.target_unique hd ht
  fate := by
    by_cases hcurrent : p.registrationOf t = some r
    · obtain ⟨a, ha, rfl⟩ := Option.map_eq_some_iff.mp hcurrent
      exact .inl ⟨a, ha, rfl, l.running ha⟩
    · exact .inr ⟨hcurrent, l.ended ht hcurrent⟩

/-- A fair queue and its history account for every resource. -/
structure Conserved (cost : Cost) (h : List (Step ρ)) (q : FairQueue ρ) : Prop where
  accounted : ∀ t r, (t, r) ∈ registrations h → Accounted h q.plain t r
  /-- No number is given out twice. -/
  numbers : ((registrations h).map (·.2)).Nodup
  pending_eq_sum : q.pending = (q.targetIds.map fun t => (q.pendingOf t).getD 0).sum
  enqueued_eq : q.enqueued = q.delivered + q.pending + returnedCount h
  /-- A removal does not subtract more than is pending. -/
  backlog_le : ∀ t e, q.targets.get? t = some e → e.backlog.size ≤ q.pending
  pop_eq_none : (q.popWith cost).1 = none ↔ q.pending = 0
  /-- A slot that a pop takes off the heap belongs to a target with something waiting. -/
  top_busy : ∀ s, q.settle.heap.least? = some s →
    ∃ e head rest, q.settle.targets.get? s.target = some e ∧ e.backlog.pop? = some (head, rest)

end Fair

namespace FairQueue

theorem waiting_plain (q : FairQueue ρ) (t : TargetId) :
    q.plain.waiting t = (q.pendingOf t).getD 0 := by
  simp only [PlainQueue.waiting, pendingOf, account_plain]
  cases q.targets.get? t with
  | none => rfl
  | some e => exact e.backlog.size_eq_length.symm

/-- **Nothing is lost, doubled or put out of order.** This holds after any calls on a new queue, at any
costs. -/
theorem conserved (settings : FairSettings) (cost : Cost) (calls : List (Call ρ)) :
    Conserved cost ((ofSettings settings : FairQueue ρ).history cost calls)
      ((ofSettings settings).after cost calls) := by
  have hstart : Sound (ofSettings settings : FairQueue ρ) := Sound.ofSettings settings
  have hsound := sound_after cost hstart calls
  have l := (Ledger.empty settings).run cost calls (ρ := ρ)
  rw [List.nil_append, ← plain_ofSettings, ← history_plain cost hstart,
    ← plain_after cost hstart] at l
  generalize (ofSettings settings : FairQueue ρ).history cost calls = h at *
  generalize (ofSettings settings : FairQueue ρ).after cost calls = q at *
  refine ⟨fun t r ht => l.accounted ht, l.nodup, ?_, ?_, ?_, ?_, ?_⟩
  · rw [hsound.pending]
    refine congrArg List.sum (List.map_congr_left fun t _ => ?_)
    exact q.waiting_plain t
  · rw [hsound.pending]
    exact l.counts
  · intro t e he
    have ha : q.plain.account t = some e.account := by rw [account_plain, he, Option.map_some]
    rw [hsound.pending, e.backlog.size_eq_length]
    exact q.listed_plain.waiting_le_pending ha
  · have hanswer : Answer.delivery (q.popWith cost).1 = Answer.delivery (q.plain.pop cost).1 :=
      (hsound.step cost .pop).answer
    rw [Answer.delivery.inj hanswer, hsound.pending, q.listed_plain.pop_eq_none,
      q.listed_plain.pending_eq_zero]
  · intro s hs
    obtain ⟨e, he, -, hnext⟩ := hsound.slotted.settle_least_eq_some hs
    obtain ⟨-, hbusy, -⟩ := q.listed_plain.next?_eq_some.mp hnext
    cases hpop : e.backlog.pop? with
    | none =>
      have hnil : e.account.backlog = [] := (Fifo.pop?_eq_none _).mp hpop
      simp [Account.isBusy, hnil] at hbusy
    | some popped => exact ⟨e, popped.1, popped.2, he, hpop⟩

end FairQueue

end Sluice
