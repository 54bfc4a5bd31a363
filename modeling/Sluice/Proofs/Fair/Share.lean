import Mathlib.Algebra.Order.Group.Unbundled.Int
import Mathlib.Data.List.Infix
import Mathlib.Order.Nat
import Sluice.Proofs.Fair.Ledger

/-!
# Fair shares

Every delivery charges its target the cost of its size at the priority then in force. `Level` is the
invariant that keeps the virtual times together: the floor is below every busy target, an idle target is
ahead of the floor by one charge of its own at the most, and a busy target is ahead of any other busy
target by one charge of its own at the most. A target that becomes busy is lifted to a time that some
busy target has, or to the floor, so that the last two bounds are what the lift asks for. None of the three
needs a time to be short of the greatest word.

While a target stays busy and its time is not at the greatest word, the time rises by exactly what the
target is charged. Between two targets that stay busy, the difference in charges is then the change of
the gap between their times (`share_bound`).
-/

namespace Sluice

open Fair

variable {ρ : Type}

namespace Fair

/-- What a target is charged for a delivery. -/
structure Charge where
  target : TargetId
  registration : Nat
  cost : Nat

/-- The charge of a step, at the priority that the target has then. -/
def Step.charges (cost : Cost) (s : Step ρ) : List Charge :=
  s.delivered.filterMap fun d =>
    (s.before.account d.target).map fun a => ⟨d.target, d.registration, cost a.priority d.size⟩

/-- The charges of a history, in order. -/
def charges (cost : Cost) (h : List (Step ρ)) : List Charge := h.flatMap (·.charges cost)

/-- What a target is charged in all. -/
def charged (cost : Cost) (t : TargetId) (h : List (Step ρ)) : Nat :=
  (((charges cost h).filter (·.target = t)).map (·.cost)).sum

/-- The largest charge under a registration number. -/
def dearest (cost : Cost) (r : Nat) (h : List (Step ρ)) : Nat :=
  (((charges cost h).filter (·.registration = r)).map (·.cost)).foldr max 0

section

variable (cost : Cost) (t : TargetId) (r : Nat) (h more : List (Step ρ))

theorem charges_append : charges cost (h ++ more) = charges cost h ++ charges cost more :=
  List.flatMap_append

theorem charges_cons (s : Step ρ) : charges cost (s :: h) = charges cost [s] ++ charges cost h :=
  charges_append cost [s] h

theorem charged_append :
    charged cost t (h ++ more) = charged cost t h + charged cost t more := by
  simp only [charged, charges_append, List.filter_append, List.map_append, List.sum_append]

theorem dearest_le_append : dearest cost r h ≤ dearest cost r (h ++ more) := by
  refine List.max_le_of_forall_le _ _ fun c hc => List.le_max_of_le ?_ (Nat.le_refl c)
  rw [charges_append, List.filter_append, List.map_append]
  exact List.mem_append_left _ hc

end

theorem Step.mem_delivered {s : Step ρ} {d : Delivery ρ} :
    d ∈ s.delivered ↔ s.answer = .delivery (some d) := by
  obtain ⟨p, call, answer, p'⟩ := s
  cases answer with
  | delivery o =>
    cases o with
    | none => simp [Step.delivered]
    | some e => simp [Step.delivered, eq_comm]
  | _ => simp [Step.delivered]

theorem charged_of_ne {cost : Cost} {t : TargetId} {s : Step ρ}
    (hs : ∀ d ∈ s.delivered, d.target ≠ t) : charged cost t [s] = 0 := by
  have hnone : (charges cost [s]).filter (·.target = t) = [] := by
    refine List.filter_eq_nil_iff.mpr fun c hc => ?_
    rw [charges, List.flatMap_singleton, Step.charges, List.mem_filterMap] at hc
    obtain ⟨d, hd, hcharge⟩ := hc
    obtain ⟨a, -, rfl⟩ := Option.map_eq_some_iff.mp hcharge
    simpa using hs d hd
  rw [charged, hnone]
  rfl

theorem cost_le_dearest {cost : Cost} {h more : List (Step ρ)} {c : Charge}
    (hc : c ∈ charges cost more) : c.cost ≤ dearest cost c.registration (h ++ more) := by
  refine List.le_max_of_le (List.mem_map_of_mem (List.mem_filter.mpr ⟨?_, ?_⟩)) (Nat.le_refl _)
  · rw [charges_append]
    exact List.mem_append_right _ hc
  · exact decide_eq_true rfl

/-- Virtual times are no further apart than the charges under the current registrations allow. -/
structure Level (cost : Cost) (h : List (Step ρ)) (p : PlainQueue ρ) : Prop where
  listed : p.Listed
  floor_le_greatest : p.floor ≤ Word.greatest
  time_le_greatest : ∀ {t a}, p.account t = some a → a.virtualTime ≤ Word.greatest
  floor_le : ∀ {t a}, p.account t = some a → a.isBusy = true → p.floor ≤ a.virtualTime
  idle_le : ∀ {t a}, p.account t = some a → a.isBusy = false →
    a.virtualTime ≤ p.floor + dearest cost a.registration h
  busy_le : ∀ {t a u b}, p.account t = some a → a.isBusy = true → p.account u = some b →
    b.isBusy = true → a.virtualTime ≤ b.virtualTime + dearest cost a.registration h

namespace Level

variable {cost : Cost} {h : List (Step ρ)} {p p' : PlainQueue ρ} {t : TargetId} {a b : Account ρ}

theorem ofSettings (cost : Cost) (settings : FairSettings) :
    Level cost [] (PlainQueue.ofSettings settings : PlainQueue ρ) where
  listed := Ledger.empty settings |>.listed
  floor_le_greatest := Nat.zero_le _
  time_le_greatest h := nomatch h
  floor_le h := nomatch h
  idle_le h := nomatch h
  busy_le h := nomatch h

theorem append (l : Level cost h p) (more : List (Step ρ)) : Level cost (h ++ more) p where
  listed := l.listed
  floor_le_greatest := l.floor_le_greatest
  time_le_greatest := l.time_le_greatest
  floor_le := l.floor_le
  idle_le ht hidle :=
    Nat.le_trans (l.idle_le ht hidle) (Nat.add_le_add_left (dearest_le_append ..) _)
  busy_le ht hbusy hu hbusy' :=
    Nat.le_trans (l.busy_le ht hbusy hu hbusy') (Nat.add_le_add_left (dearest_le_append ..) _)

/-- The gaps are kept when one account is rewritten, if they are kept between it and each other one. -/
theorem rewrite (l : Level cost h p) (ht : p.account t = some a) (hids : p'.ids = p.ids)
    (haccount : p'.account = (p.write t b).account) (hfloor : p.floor ≤ p'.floor)
    (hfloor_greatest : p'.floor ≤ Word.greatest) (htime : b.virtualTime ≤ Word.greatest)
    (hothers : ∀ u c, p.account u = some c → c.isBusy = true → u ≠ t → p'.floor ≤ c.virtualTime)
    (hself : b.isBusy = true → p'.floor ≤ b.virtualTime)
    (hidle : b.isBusy = false → b.virtualTime ≤ p'.floor + dearest cost b.registration h)
    (hgap : b.isBusy = true → ∀ u c, p.account u = some c → c.isBusy = true → u ≠ t →
      b.virtualTime ≤ c.virtualTime + dearest cost b.registration h ∧
        c.virtualTime ≤ b.virtualTime + dearest cost c.registration h) :
    Level cost h p' := by
  have hwrite : ∀ u c, p'.account u = some c →
      (u = t ∧ c = b) ∨ (u ≠ t ∧ p.account u = some c) := by
    intro u c hu
    rw [haccount] at hu
    exact PlainQueue.of_account_write hu
  refine ⟨(l.listed.write ht).congr hids haccount, hfloor_greatest, ?_, ?_, ?_, ?_⟩
  · intro u c hu
    rcases hwrite u c hu with ⟨-, rfl⟩ | ⟨-, hu⟩
    · exact htime
    · exact l.time_le_greatest hu
  · intro u c hu hbusy
    rcases hwrite u c hu with ⟨-, rfl⟩ | ⟨hut, hu⟩
    · exact hself hbusy
    · exact hothers u c hu hbusy hut
  · intro u c hu hc
    rcases hwrite u c hu with ⟨-, rfl⟩ | ⟨-, hu⟩
    · exact hidle hc
    · exact Nat.le_trans (l.idle_le hu hc) (Nat.add_le_add_right hfloor _)
  · intro u c v d hu hc hv hd
    rcases hwrite u c hu with ⟨-, rfl⟩ | ⟨hut, hu⟩
    · rcases hwrite v d hv with ⟨-, rfl⟩ | ⟨hvt, hv⟩
      · exact Nat.le_add_right _ _
      · exact (hgap hc v d hv hd hvt).1
    · rcases hwrite v d hv with ⟨-, rfl⟩ | ⟨-, hv⟩
      · exact (hgap hd u c hu hc hut).2
      · exact l.busy_le hu hc hv hd

theorem enroll (l : Level cost h p) (priority : Number.Single) :
    Level cost h (p.enroll t priority) := by
  refine ⟨l.listed.enroll priority, l.floor_le_greatest, ?_, ?_, ?_, ?_⟩
  · intro u c hu
    rcases PlainQueue.of_account_enroll hu with ⟨-, rfl⟩ | ⟨-, hu⟩
    · exact Nat.zero_le _
    · exact l.time_le_greatest hu
  · intro u c hu hc
    rcases PlainQueue.of_account_enroll hu with ⟨-, rfl⟩ | ⟨-, hu⟩
    · cases hc
    · exact l.floor_le hu hc
  · intro u c hu hc
    rcases PlainQueue.of_account_enroll hu with ⟨-, rfl⟩ | ⟨-, hu⟩
    · exact Nat.zero_le _
    · exact l.idle_le hu hc
  · intro u c v d hu hc hv hd
    rcases PlainQueue.of_account_enroll hu with ⟨-, rfl⟩ | ⟨-, hu⟩
    · cases hc
    · rcases PlainQueue.of_account_enroll hv with ⟨-, rfl⟩ | ⟨-, hv⟩
      · cases hd
      · exact l.busy_le hu hc hv hd

theorem dismiss (l : Level cost h p) (t : TargetId) : Level cost h (p.dismiss t) := by
  refine ⟨l.listed.dismiss t, l.floor_le_greatest, ?_, ?_, ?_, ?_⟩
  · intro u c hu
    exact l.time_le_greatest (PlainQueue.of_account_dismiss hu).2
  · intro u c hu hc
    exact l.floor_le (PlainQueue.of_account_dismiss hu).2 hc
  · intro u c hu hc
    exact l.idle_le (PlainQueue.of_account_dismiss hu).2 hc
  · intro u c v d hu hc hv hd
    have hu := (PlainQueue.of_account_dismiss hu).2
    have hv := (PlainQueue.of_account_dismiss hv).2
    exact l.busy_le hu hc hv hd

theorem rewrite_same (l : Level cost h p) (ht : p.account t = some a) (hids : p'.ids = p.ids)
    (haccount : p'.account = (p.write t b).account) (hfloor : p'.floor = p.floor)
    (htime : b.virtualTime = a.virtualTime) (hreg : b.registration = a.registration)
    (hbusy : b.isBusy = a.isBusy) : Level cost h p' := by
  refine l.rewrite ht hids haccount (Nat.le_of_eq hfloor.symm) ?_ ?_ ?_ ?_ ?_ ?_
  · rw [hfloor]
    exact l.floor_le_greatest
  · rw [htime]
    exact l.time_le_greatest ht
  · intro u c hu hc _
    rw [hfloor]
    exact l.floor_le hu hc
  · intro hb
    rw [hbusy] at hb
    rw [hfloor, htime]
    exact l.floor_le ht hb
  · intro hb
    rw [hbusy] at hb
    rw [hfloor, htime, hreg]
    exact l.idle_le ht hb
  · intro hb u c hu hc _
    rw [hbusy] at hb
    rw [htime, hreg]
    exact ⟨l.busy_le ht hb hu hc, l.busy_le hu hc ht hb⟩

/-- What a target that becomes busy is lifted to: a time not above that of any busy target, below
which a busy target is ahead by its own charge at the most. -/
theorem leastBusy_spec (l : Level cost h p) :
    p.floor ≤ p.leastBusy ∧ p.leastBusy ≤ Word.greatest ∧
      ∀ u c, p.account u = some c → c.isBusy = true →
        p.leastBusy ≤ c.virtualTime ∧
          c.virtualTime ≤ p.leastBusy + dearest cost c.registration h := by
  cases hnext : p.next? with
  | none =>
    rw [PlainQueue.leastBusy_of_none hnext]
    refine ⟨Nat.le_refl _, l.floor_le_greatest, fun u c hu hbusy => ?_⟩
    rw [l.listed.next?_eq_none.mp hnext u c hu] at hbusy
    cases hbusy
  | some e =>
    obtain ⟨v, d⟩ := e
    obtain ⟨hv, hd, hleast⟩ := l.listed.next?_eq_some.mp hnext
    have hfloor := l.floor_le hv hd
    rw [l.listed.leastBusy_of_some hnext, Nat.max_eq_left hfloor]
    refine ⟨hfloor, l.time_le_greatest hv, fun u c hu hbusy => ⟨?_, ?_⟩⟩
    · exact Prod.Lex.monotone_fst _ _ (hleast u c hu hbusy)
    · exact l.busy_le hu hbusy hv hd

theorem enqueue (l : Level cost h p) (ht : p.account t = some a) (resource : ρ) (size : Nat) :
    Level cost h (p.enqueue t a resource size) := by
  have hbusy : (p.filled a resource size).isBusy = true := by
    rw [Account.isBusy, PlainQueue.backlog_filled]
    simp
  have hreg : (p.filled a resource size).registration = a.registration :=
    PlainQueue.registration_filled
  cases ha : a.isBusy with
  | true =>
    have htime : (p.filled a resource size).virtualTime = a.virtualTime := by
      simp only [PlainQueue.filled, ha, if_true]
      rfl
    exact l.rewrite_same ht rfl rfl rfl htime hreg (hbusy.trans ha.symm)
  | false =>
    -- The target becomes busy: it is not ahead of the floor by more than a charge of its own, and the
    -- lift takes it no further than to the least of the busy targets.
    have htime : (p.filled a resource size).virtualTime = max a.virtualTime p.leastBusy := by
      simp only [PlainQueue.filled, ha]
      rfl
    obtain ⟨hfloor, hgreatest, hspec⟩ := l.leastBusy_spec
    have hidle := l.idle_le ht ha
    refine l.rewrite ht rfl rfl (Nat.le_refl _) l.floor_le_greatest ?_ ?_ ?_ ?_ ?_
    · rw [htime]
      exact Nat.max_le.mpr ⟨l.time_le_greatest ht, hgreatest⟩
    · intro u c hu hc _
      exact l.floor_le hu hc
    · intro _
      rw [htime]
      exact Nat.le_trans hfloor (Nat.le_max_right _ _)
    · intro hidle
      rw [hbusy] at hidle
      cases hidle
    · intro _ u c hu hc _
      have hbelow := l.floor_le hu hc
      obtain ⟨hle, hgap⟩ := hspec u c hu hc
      rw [htime, hreg]
      constructor
      · refine Nat.max_le.mpr ⟨?_, ?_⟩
        · exact Nat.le_trans hidle (Nat.add_le_add_right hbelow _)
        · exact Nat.le_add_right_of_le hle
      · exact Nat.le_trans hgap (Nat.add_le_add_right (Nat.le_max_right _ _) _)

/-- A delivery raises the least busy time by a charge that counts from then on. -/
theorem serve (l : Level cost h p) {size : Nat} {rest : List (ρ × Nat)}
    (hnext : p.next? = some (t, a)) (hcost : cost a.priority size ≤ dearest cost a.registration h) :
    Level cost h (p.serve t a rest size (cost a.priority size)) := by
  obtain ⟨ht, ha, hleast⟩ := l.listed.next?_eq_some.mp hnext
  have htime := l.time_le_greatest ht
  have hfloor := l.floor_le ht ha
  -- Nobody busy is below the served target, so the floor can move up to its time.
  have hmax : max p.floor a.virtualTime = a.virtualTime := Nat.max_eq_right hfloor
  have hle : ∀ u c, p.account u = some c → c.isBusy = true → a.virtualTime ≤ c.virtualTime :=
    fun u c hu hc => Prod.Lex.monotone_fst _ _ (hleast u c hu hc)
  have hrise : a.virtualTime ≤ Word.add a.virtualTime (cost a.priority size) := by
    rw [Word.add]
    omega
  have hcharge : Word.add a.virtualTime (cost a.priority size) ≤
      a.virtualTime + dearest cost a.registration h := by
    rw [Word.add]
    omega
  refine l.rewrite (b := a.served rest size (cost a.priority size)) ht rfl rfl ?_ ?_ ?_ ?_ ?_ ?_ ?_
  · exact Nat.le_max_left _ _
  · show max p.floor a.virtualTime ≤ Word.greatest
    rw [hmax]
    exact htime
  · exact Nat.min_le_right _ _
  · intro u c hu hc _
    show max p.floor a.virtualTime ≤ c.virtualTime
    rw [hmax]
    exact hle u c hu hc
  · intro _
    show max p.floor a.virtualTime ≤ Word.add a.virtualTime (cost a.priority size)
    rw [hmax]
    exact hrise
  · intro _
    show Word.add a.virtualTime (cost a.priority size) ≤
      max p.floor a.virtualTime + dearest cost a.registration h
    rw [hmax]
    exact hcharge
  · intro _ u c hu hc _
    constructor
    · exact Nat.le_trans hcharge (Nat.add_le_add_right (hle u c hu hc) _)
    · exact Nat.le_trans (l.busy_le hu hc ht ha) (Nat.add_le_add_right hrise _)

/-- Every effect of a call keeps the times level. -/
theorem effect {call : Call ρ} {answer : Answer ρ} (l : Level cost h p)
    (e : Effect cost p call answer p') : Level cost (h ++ [⟨p, call, answer, p'⟩]) p' := by
  have l := l.append [⟨p, call, answer, p'⟩]
  cases e with
  | enrolled ht => exact l.enroll _
  | dismissed ht => exact l.dismiss _
  | reprioritised ht => exact l.rewrite_same ht rfl rfl rfl rfl rfl rfl
  | enqueued ht => exact l.enqueue ht _ _
  | @served t a resource size rest hnext hbacklog =>
    have ht := (l.listed.next?_eq_some.mp hnext).1
    refine l.serve hnext (cost_le_dearest (c := ⟨t, a.registration, cost a.priority size⟩) ?_)
    simp [charges, Step.charges, Step.delivered, ht]
  | quiet hquiet => exact l

theorem run (cost : Cost) (l : Level cost h p) (calls : List (Call ρ)) :
    Level cost (h ++ p.history cost calls) (p.after cost calls) := by
  induction calls generalizing h p with
  | nil =>
    simp only [PlainQueue.history, List.append_nil]
    exact l
  | cons call calls ih =>
    have hrest := ih (l.effect (step_effect cost p call))
    rw [List.append_assoc] at hrest
    exact hrest

end Level

/-! ### Charges and virtual times -/

section

variable {cost : Cost} {p : PlainQueue ρ} {t : TargetId} {a a' : Account ρ} {answer : Answer ρ}

/-- The virtual time of a target that stays busy, short of the greatest word, rises by what a step
charges it. -/
theorem Change.time_eq (c : Change cost p t a answer a') (call : Call ρ) (p' : PlainQueue ρ)
    (ha : p.account t = some a) (hbusy : a.isBusy = true) (htime : a'.virtualTime < Word.greatest) :
    a'.virtualTime = a.virtualTime + charged cost t [⟨p, call, answer, p'⟩] := by
  cases c with
  | kept _ hsame _ _ hother =>
    have hnone : charged cost t [⟨p, call, answer, p'⟩] = 0 := by
      refine charged_of_ne fun d hd => ?_
      exact hother d (Step.mem_delivered.mp hd)
    rw [hnone, hsame, Nat.add_zero]
  | lifted hidle =>
    rw [hidle] at hbusy
    cases hbusy
  | @served resource size rest hnext hbacklog =>
    have hcharged : charged cost t
        [⟨p, call, .delivery (some ⟨t, a.registration, resource, size⟩), p'⟩] =
          cost a.priority size := by
      simp [charged, charges, Step.charges, Step.delivered, ha]
    have hadd : Word.add a.virtualTime (cost a.priority size) < Word.greatest := htime
    rw [hcharged]
    show Word.add a.virtualTime (cost a.priority size) = a.virtualTime + cost a.priority size
    rw [Word.add] at hadd ⊢
    omega

end

end Fair

/-- A target has something waiting, and its virtual time is short of the greatest word. -/
def PlainQueue.Steady (p : PlainQueue ρ) (t : TargetId) : Prop :=
  ∃ a, p.account t = some a ∧ a.isBusy = true ∧ a.virtualTime < Word.greatest

/-- Over a run that leaves a target steady throughout, its virtual time rises by what it is charged. -/
theorem PlainQueue.Listed.charged_eq {cost : Cost} {p : PlainQueue ρ} (hp : p.Listed)
    {t : TargetId} {calls : List (Call ρ)}
    (hsteady : ∀ start, start <+: calls → (p.after cost start).Steady t) :
    ∃ a b, p.account t = some a ∧ a.isBusy = true ∧ (p.after cost calls).account t = some b ∧
      b.isBusy = true ∧ b.registration = a.registration ∧
      b.virtualTime = a.virtualTime + charged cost t (p.history cost calls) := by
  induction calls generalizing p with
  | nil =>
    obtain ⟨a, ha, hbusy, -⟩ := hsteady [] List.nil_prefix
    exact ⟨a, a, ha, hbusy, ha, hbusy, rfl, rfl⟩
  | cons call calls ih =>
    -- The first call leads to a state in which the target is steady, and from there the rest goes on.
    have he := step_effect cost p call
    have hnext : [call] <+: call :: calls := (List.prefix_cons_inj call).mpr List.nil_prefix
    obtain ⟨a, ha, hbusy, -⟩ := hsteady [] List.nil_prefix
    obtain ⟨a', ha', -, htime⟩ := hsteady [call] hnext
    obtain ⟨b, c, hb, -, hc, hcbusy, hreg, hrest⟩ := ih (he.listed hp) fun start hstart =>
      hsteady (call :: start) ((List.prefix_cons_inj call).mpr hstart)
    obtain rfl : a' = b := Option.some.inj (ha'.symm.trans hb)
    have hchange := he.change hp ha ha'
    have hstep := hchange.time_eq call (p.step cost call).2 ha hbusy htime
    refine ⟨a, c, ha, hbusy, hc, hcbusy, hreg.trans hchange.registration_eq, ?_⟩
    have hcharged := charged_append cost t
      [⟨p, call, (p.step cost call).1, (p.step cost call).2⟩]
      ((p.step cost call).2.history cost calls)
    rw [hrest, hstep, Nat.add_assoc, ← hcharged]
    rfl

/-- The largest charge in a history under the registration that a target has. -/
def PlainQueue.dearest (p : PlainQueue ρ) (cost : Cost) (h : List (Step ρ)) (t : TargetId) : Nat :=
  (p.registrationOf t).elim 0 fun r => Fair.dearest cost r h

/-- Of two targets steady throughout a run, the first is charged more than the second by the largest charge
of each at the most: that is how far the gap between their times can move. -/
theorem Fair.Level.charged_le {cost : Cost} {h : List (Step ρ)} {p : PlainQueue ρ}
    (l : Level cost h p) {i j : TargetId} {calls : List (Call ρ)}
    (hi : ∀ start, start <+: calls → (p.after cost start).Steady i)
    (hj : ∀ start, start <+: calls → (p.after cost start).Steady j) :
    charged cost i (p.history cost calls) ≤ charged cost j (p.history cost calls) +
      ((p.after cost calls).dearest cost (h ++ p.history cost calls) i +
        (p.after cost calls).dearest cost (h ++ p.history cost calls) j) := by
  obtain ⟨a, a', ha, hbusy, ha', hbusy', -, hi⟩ := l.listed.charged_eq hi
  obtain ⟨b, b', hb, hother, hb', hother', hreg, hj⟩ := l.listed.charged_eq hj
  -- At the start the second target is not ahead by more than a charge of its own, at the end the first.
  have hbefore : b.virtualTime ≤
      a.virtualTime + dearest cost b.registration (h ++ p.history cost calls) :=
    (l.append _).busy_le hb hother ha hbusy
  have hafter : a'.virtualTime ≤
      b'.virtualTime + dearest cost a'.registration (h ++ p.history cost calls) :=
    (l.run cost calls).busy_le ha' hbusy' hb' hother'
  rw [PlainQueue.dearest, PlainQueue.dearest, PlainQueue.registrationOf_eq ha',
    PlainQueue.registrationOf_eq hb', Option.elim_some, Option.elim_some, hreg]
  omega

namespace FairQueue

/-- A target has something waiting, and its virtual time is short of the greatest word. -/
def Steady (q : FairQueue ρ) (t : TargetId) : Prop :=
  ∃ e ∈ q.targets.get? t, e.backlog.isEmpty = false ∧ e.virtualTime < Word.greatest

instance (q : FairQueue ρ) (t : TargetId) : Decidable (q.Steady t) :=
  inferInstanceAs (Decidable (∃ e ∈ _, _))

theorem Steady.plain {q : FairQueue ρ} {t : TargetId} (h : q.Steady t) : q.plain.Steady t := by
  obtain ⟨e, he, hbusy, htime⟩ := h
  refine ⟨e.account, ?_, ?_, htime⟩
  · rw [account_plain, Option.mem_def.mp he, Option.map_some]
  · rw [e.isBusy_account, hbusy]
    rfl

/-- The largest charge in a history under the registration that a target has. -/
def dearest (q : FairQueue ρ) (cost : Cost) (h : List (Step ρ)) (t : TargetId) : Nat :=
  (q.registrationOf t).elim 0 fun r => Fair.dearest cost r h

theorem dearest_plain (q : FairQueue ρ) (cost : Cost) (h : List (Step ρ)) (t : TargetId) :
    q.plain.dearest cost h t = q.dearest cost h t := by
  rw [dearest, PlainQueue.dearest, registrationOf, PlainQueue.registrationOf, account_plain,
    Option.map_map]
  rfl

theorem charged_le {cost : Cost} {h : List (Step ρ)} {q : FairQueue ρ} (hq : Sound q)
    (l : Level cost h q.plain) {i j : TargetId} {calls : List (Call ρ)}
    (hi : ∀ start, start <+: calls → (q.after cost start).Steady i)
    (hj : ∀ start, start <+: calls → (q.after cost start).Steady j) :
    charged cost i (q.history cost calls) ≤ charged cost j (q.history cost calls) +
      ((q.after cost calls).dearest cost (h ++ q.history cost calls) i +
        (q.after cost calls).dearest cost (h ++ q.history cost calls) j) := by
  rw [history_plain cost hq, ← dearest_plain, ← dearest_plain, plain_after cost hq]
  refine l.charged_le (fun start hstart => ?_) fun start hstart => ?_
  · rw [← plain_after cost hq]
    exact (hi start hstart).plain
  · rw [← plain_after cost hq]
    exact (hj start hstart).plain

/-- **Shares are fair.** Take any run of a new queue and any further calls through which two targets stay
busy, short of the greatest virtual time. What the two are charged in the meantime differs by the largest
charge of the one and the largest charge of the other at the most. -/
theorem share_bound (settings : FairSettings) (cost : Cost) (calls more : List (Call ρ))
    {i j : TargetId}
    (hi : ∀ start, start <+: more →
      ((ofSettings settings : FairQueue ρ).after cost (calls ++ start)).Steady i)
    (hj : ∀ start, start <+: more →
      ((ofSettings settings : FairQueue ρ).after cost (calls ++ start)).Steady j) :
    |(charged cost i (((ofSettings settings).after cost calls).history cost more) : ℤ) -
        charged cost j (((ofSettings settings).after cost calls).history cost more)| ≤
      ((ofSettings settings).after cost (calls ++ more)).dearest cost
          ((ofSettings settings).history cost (calls ++ more)) i +
        ((ofSettings settings).after cost (calls ++ more)).dearest cost
          ((ofSettings settings).history cost (calls ++ more)) j := by
  have hstart : Sound (ofSettings settings : FairQueue ρ) := Sound.ofSettings settings
  have hsound := sound_after cost hstart calls
  have l := (Level.ofSettings cost settings).run cost calls (ρ := ρ)
  rw [List.nil_append, ← plain_ofSettings, ← history_plain cost hstart,
    ← plain_after cost hstart] at l
  have hi' : ∀ start, start <+: more →
      (((ofSettings settings : FairQueue ρ).after cost calls).after cost start).Steady i := by
    intro start hprefix
    rw [← after_append]
    exact hi start hprefix
  have hj' : ∀ start, start <+: more →
      (((ofSettings settings : FairQueue ρ).after cost calls).after cost start).Steady j := by
    intro start hprefix
    rw [← after_append]
    exact hj start hprefix
  have hle := charged_le hsound l hi' hj'
  have hge := charged_le hsound l hj' hi'
  rw [after_append, history_append, abs_le']
  constructor
  · omega
  · omega

/-- Calls that make two targets busy, the second at twice the priority of the first, after a third one
has been served and has become idle. The first is then ahead. -/
def rivals : List (Call Unit) :=
  [.addTarget ⟨1⟩ ⟨0x3f800000⟩, .addTarget ⟨2⟩ ⟨0x40000000⟩, .addTarget ⟨3⟩ ⟨0x3f800000⟩,
    .push ⟨3⟩ () 500, .pop, .push ⟨1⟩ () 300, .push ⟨1⟩ () 100, .push ⟨1⟩ () 100,
    .push ⟨2⟩ () 100, .push ⟨2⟩ () 100, .push ⟨2⟩ () 100, .push ⟨2⟩ () 100, .pop]

/-- Further calls, which leave both of them busy while the third comes and goes. -/
def rivalry : List (Call Unit) :=
  [.pop, .push ⟨3⟩ () 50, .setPriority ⟨2⟩ ⟨0x3f800000⟩, .pop, .removeTarget ⟨3⟩, .pop]

theorem share_bound_rivals :
    (∀ start, start <+: rivalry →
      ((ofSettings .small).after cost (rivals ++ start)).Steady ⟨1⟩) ∧
    (∀ start, start <+: rivalry →
      ((ofSettings .small).after cost (rivals ++ start)).Steady ⟨2⟩) ∧
    |(charged cost ⟨1⟩ (((ofSettings .small).after cost rivals).history cost rivalry) : ℤ) -
        charged cost ⟨2⟩ (((ofSettings .small).after cost rivals).history cost rivalry)| ≤
      ((ofSettings .small).after cost (rivals ++ rivalry)).dearest cost
          ((ofSettings .small).history cost (rivals ++ rivalry)) ⟨1⟩ +
        ((ofSettings .small).after cost (rivals ++ rivalry)).dearest cost
          ((ofSettings .small).history cost (rivals ++ rivalry)) ⟨2⟩ := by
  have hfirst : ∀ start, start <+: rivalry →
      ((ofSettings .small).after cost (rivals ++ start)).Steady ⟨1⟩ := by
    simp only [← List.mem_inits]
    decide +kernel
  have hsecond : ∀ start, start <+: rivalry →
      ((ofSettings .small).after cost (rivals ++ start)).Steady ⟨2⟩ := by
    simp only [← List.mem_inits]
    decide +kernel
  exact ⟨hfirst, hsecond, share_bound .small cost rivals rivalry hfirst hsecond⟩

end FairQueue

end Sluice
