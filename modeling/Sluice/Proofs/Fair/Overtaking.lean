import Mathlib.Data.List.TakeWhile
import Sluice.Proofs.Fair.Share

/-!
# Nobody starves

While a busy target waits, its virtual time stands still. Another target can be served before it only at
a time that is not later, and the delivery then raises that time by one at the least, unless both are at
the greatest word, where the target that became busy first goes first for as long as it stays busy. So a
target that is short of the greatest word, or that became busy before the other busy targets, is overtaken
by each target as often as that one is behind it and once more, at the most (`Awaits.count_le`). A target
that becomes busy in the meantime is later in the order, and is lifted but never set back.

`overtakes_le` adds this up over the targets. `overtakes_at_ceiling` is a run that shows what happens
otherwise: a target at the greatest word is overtaken again and again by one that became busy before it.
-/

namespace Sluice

open Fair

variable {ρ : Type}

namespace Fair

/-- Whether a call leaves the registered targets as they are. -/
def Call.keepsTargets : Call ρ → Bool
  | .addTarget _ _ => false
  | .removeTarget _ => false
  | _ => true

/-- The deliveries of a history before the first one for a target. -/
def overtakes (t : TargetId) (h : List (Step ρ)) : List (Delivery ρ) :=
  (deliveries h).takeWhile (·.target ≠ t)

theorem deliveries_cons (s : Step ρ) (h : List (Step ρ)) :
    deliveries (s :: h) = s.delivered ++ deliveries h :=
  List.flatMap_cons

theorem target_ne_of_mem_overtakes {t : TargetId} {h : List (Step ρ)} {d : Delivery ρ}
    (hd : d ∈ overtakes t h) : d.target ≠ t :=
  of_decide_eq_true (List.mem_takeWhile_imp (p := fun d : Delivery ρ => decide (d.target ≠ t)) hd)

theorem overtakes_cons_of_ne {t : TargetId} {s : Step ρ} (h : List (Step ρ))
    (hs : ∀ d ∈ s.delivered, d.target ≠ t) :
    overtakes t (s :: h) = s.delivered ++ overtakes t h := by
  rw [overtakes, deliveries_cons]
  refine List.takeWhile_append_of_pos fun d hd => ?_
  exact decide_eq_true (hs d hd)

theorem overtakes_cons_of_mem {s : Step ρ} {d : Delivery ρ} (h : List (Step ρ))
    (hd : d ∈ s.delivered) : overtakes d.target (s :: h) = [] := by
  have hs : s.delivered = [d] := by
    rw [Step.delivered, Step.mem_delivered.mp hd]
  rw [overtakes, deliveries_cons, hs, List.singleton_append]
  exact List.takeWhile_cons_of_neg (by simp)

/-- A list is no longer than the bounds on how often it takes each value add up to. -/
theorem length_le_sum {α : Type} (f : α → TargetId) {l : List α} {ks : List TargetId}
    {bound : TargetId → Nat} (hl : ∀ x ∈ l, f x ∈ ks)
    (hbound : ∀ k ∈ ks, l.countP (f · = k) ≤ bound k) : l.length ≤ (ks.map bound).sum := by
  induction ks generalizing l with
  | nil =>
    rw [List.eq_nil_iff_forall_not_mem.mpr fun x hx => List.not_mem_nil (hl x hx)]
    exact Nat.zero_le _
  | cons k ks ih =>
    have hrest : ∀ x ∈ l.filter (f · ≠ k), f x ∈ ks := by
      intro x hx
      obtain ⟨hmem, hne⟩ := List.mem_filter.mp hx
      exact List.mem_of_ne_of_mem (by simpa using hne) (hl x hmem)
    have hlength : (l.filter (f · ≠ k)).length ≤ (ks.map bound).sum := by
      refine ih hrest fun u hu => ?_
      exact Nat.le_trans List.filter_sublist.countP_le (hbound u (List.mem_cons_of_mem _ hu))
    have hk := hbound k List.mem_cons_self
    have hsplit := List.length_eq_length_filter_add (l := l) (fun x => decide (f x = k))
    rw [List.map_cons, List.sum_cons, hsplit, ← List.countP_eq_length_filter]
    simp only [ne_eq, decide_not] at hlength
    omega

/-- What is known of two targets while the first waits for its turn. It is busy, and short of the greatest
word unless it became busy first. -/
structure Awaits (p : PlainQueue ρ) (j k : TargetId) (a b : Account ρ) : Prop where
  account : p.account j = some a
  busy : a.isBusy = true
  time_le : a.virtualTime ≤ Word.greatest
  activation_lt : a.activation < p.nextActivation
  other : p.account k = some b
  first : a.virtualTime < Word.greatest ∨ (b.isBusy = true → a.activation < b.activation)

section

variable {cost : Cost} {p p' : PlainQueue ρ} {call : Call ρ} {answer : Answer ρ}

theorem Effect.ids_eq (e : Effect cost p call answer p') (hcall : call.keepsTargets = true) :
    p'.ids = p.ids := by
  cases e with
  | enrolled => cases hcall
  | dismissed => cases hcall
  | _ => rfl

theorem Effect.nextActivation_le (e : Effect cost p call answer p') :
    p.nextActivation ≤ p'.nextActivation := by
  cases e with
  | @enqueued t a resource size ha =>
    show p.nextActivation ≤ if a.isBusy then p.nextActivation else p.nextActivation + 1
    split
    · exact Nat.le_refl _
    · exact Nat.le_succ _
  | _ => exact Nat.le_refl _

/-- A target that stays registered has an account after the step. -/
theorem Effect.account_of_keepsTargets (e : Effect cost p call answer p') (hp : p.Listed)
    (hcall : call.keepsTargets = true) {t : TargetId} {a : Account ρ} (ha : p.account t = some a) :
    ∃ a', p'.account t = some a' ∧ Change cost p t a answer a' := by
  have hmem : t ∈ p'.ids := by
    rw [e.ids_eq hcall]
    exact (hp.mem_ids t).mpr ⟨a, ha⟩
  obtain ⟨a', ha'⟩ := ((e.listed hp).mem_ids t).mp hmem
  exact ⟨a', ha', e.change hp ha ha'⟩

theorem Effect.target_mem {d : Delivery ρ} (e : Effect cost p call (.delivery (some d)) p')
    (hp : p.Listed) : d.target ∈ p.ids := by
  cases e with
  | served hnext hbacklog => exact (hp.mem_ids _).mpr ⟨_, (hp.next?_eq_some.mp hnext).1⟩
  | quiet hquiet => cases hquiet

/-- A busy target that is not served keeps its time and its place. -/
theorem Change.kept_of_busy {t : TargetId} {a a' : Account ρ} (c : Change cost p t a answer a')
    (hbusy : a.isBusy = true) (hother : ∀ d, answer = .delivery (some d) → d.target ≠ t) :
    a'.virtualTime = a.virtualTime ∧ a'.activation = a.activation ∧ a'.isBusy = true := by
  cases c with
  | kept _ htime hactivation hsame _ => exact ⟨htime, hactivation, hsame.trans hbusy⟩
  | lifted hidle =>
    rw [hidle] at hbusy
    cases hbusy
  | served => exact absurd rfl (hother _ rfl)

/-- A busy target has the place that it had, or the next one if it has just become busy. -/
theorem Change.activation_of_busy {t : TargetId} {a a' : Account ρ}
    (c : Change cost p t a answer a') (hp : p.Listed) (hbusy : a'.isBusy = true) :
    a.isBusy = true ∧ a'.activation = a.activation ∨ a'.activation = p.nextActivation := by
  cases c with
  | kept _ _ hactivation hsame _ => exact .inl ⟨hsame ▸ hbusy, hactivation⟩
  | lifted hidle =>
    right
    rw [PlainQueue.filled, hidle]
    rfl
  | served hnext _ => exact .inl ⟨(hp.next?_eq_some.mp hnext).2.1, rfl⟩

end

namespace Awaits

variable {cost : Cost} {p p' : PlainQueue ρ} {j k : TargetId} {a b : Account ρ} {call : Call ρ}
  {answer : Answer ρ}

/-- Whoever is served before a waiting target is not later, and is earlier when its time is no longer
raised. -/
theorem time_of_next (w : Awaits p j k a b) (hp : p.Listed) (hnext : p.next? = some (k, b)) :
    b.virtualTime ≤ a.virtualTime ∧ b.virtualTime < Word.greatest := by
  obtain ⟨-, hbusy, hleast⟩ := hp.next?_eq_some.mp hnext
  have hrank := hleast j a w.account w.busy
  rcases Prod.Lex.le_iff.mp hrank with hlt | ⟨heq, htail⟩
  · have hlt : b.virtualTime < a.virtualTime := hlt
    exact ⟨Nat.le_of_lt hlt, Nat.lt_of_lt_of_le hlt w.time_le⟩
  · have heq : b.virtualTime = a.virtualTime := heq
    refine ⟨Nat.le_of_eq heq, ?_⟩
    rcases w.first with hshort | hfirst
    · rw [heq]
      exact hshort
    · have hle : b.activation ≤ a.activation := Prod.Lex.monotone_fst _ _ htail
      exact absurd (hfirst hbusy) (Nat.not_lt.mpr hle)

/-- A step serves another target at most once, and a delivery to it is taken off from how far that target
can still go before the waiting one. -/
theorem count_add_le (w : Awaits p j k a b) (hp : p.Listed) {b' : Account ρ}
    (c : Change cost p k b answer b')
    (hcost : ∀ c ∈ charges cost [⟨p, call, answer, p'⟩], 1 ≤ c.cost) :
    (Step.delivered ⟨p, call, answer, p'⟩).countP (·.target = k) +
      (a.virtualTime + 1 - b'.virtualTime) ≤ a.virtualTime + 1 - b.virtualTime := by
  cases c with
  | kept _ htime _ _ hother =>
    have hnone : (Step.delivered ⟨p, call, answer, p'⟩).countP (·.target = k) = 0 := by
      refine List.countP_eq_zero.mpr fun d hd => ?_
      simpa using hother d (Step.mem_delivered.mp hd)
    rw [hnone, htime, Nat.zero_add]
  | @lifted resource size hidle =>
    have hnone : (Step.delivered ⟨p, call, (.done : Answer ρ), p'⟩).countP (·.target = k) = 0 :=
      rfl
    have hle : b.virtualTime ≤ (p.filled b resource size).virtualTime := by
      rw [PlainQueue.filled, hidle]
      exact Nat.le_max_left _ _
    rw [hnone]
    omega
  | @served resource size rest hserved hbacklog =>
    have hone : (Step.delivered ⟨p, call,
        .delivery (some ⟨k, b.registration, resource, size⟩), p'⟩).countP (·.target = k) = 1 := by
      simp [Step.delivered]
    obtain ⟨hle, hshort⟩ := w.time_of_next hp hserved
    have hpos : 1 ≤ cost b.priority size := by
      refine hcost ⟨k, b.registration, cost b.priority size⟩ ?_
      simp [charges, Step.charges, Step.delivered, w.other]
    have hadd : (b.served rest size (cost b.priority size)).virtualTime =
        min (b.virtualTime + cost b.priority size) Word.greatest := rfl
    rw [hone, hadd]
    omega

/-- A step that serves somebody else leaves the first target waiting, at the time that it has. -/
theorem step (w : Awaits p j k a b) (hp : p.Listed) (e : Effect cost p call answer p')
    (hcall : call.keepsTargets = true)
    (hcost : ∀ c ∈ charges cost [⟨p, call, answer, p'⟩], 1 ≤ c.cost)
    (hother : ∀ d, answer = .delivery (some d) → d.target ≠ j) :
    ∃ a' b', Awaits p' j k a' b' ∧ a'.virtualTime = a.virtualTime ∧
      (Step.delivered ⟨p, call, answer, p'⟩).countP (·.target = k) +
        (a.virtualTime + 1 - b'.virtualTime) ≤ a.virtualTime + 1 - b.virtualTime := by
  obtain ⟨a', ha', hchange⟩ := e.account_of_keepsTargets hp hcall w.account
  obtain ⟨b', hb', hchange'⟩ := e.account_of_keepsTargets hp hcall w.other
  obtain ⟨htime, hactivation, hbusy⟩ := hchange.kept_of_busy w.busy hother
  refine ⟨a', b', ⟨ha', hbusy, htime ▸ w.time_le, ?_, hb', ?_⟩, htime, w.count_add_le hp hchange' hcost⟩
  · rw [hactivation]
    exact Nat.lt_of_lt_of_le w.activation_lt e.nextActivation_le
  · rw [htime, hactivation]
    refine w.first.imp_right fun hfirst hb => ?_
    rcases hchange'.activation_of_busy hp hb with ⟨hwas, hsame⟩ | hnew
    · rw [hsame]
      exact hfirst hwas
    · rw [hnew]
      exact w.activation_lt

/-- **A target that waits is overtaken by another one as often as that one is behind, and once more.** -/
theorem count_le {calls : List (Call ρ)} (w : Awaits p j k a b) (hp : p.Listed)
    (hcalls : ∀ call ∈ calls, call.keepsTargets = true)
    (hcost : ∀ c ∈ charges cost (p.history cost calls), 1 ≤ c.cost) :
    (overtakes j (p.history cost calls)).countP (·.target = k) ≤
      a.virtualTime + 1 - b.virtualTime := by
  induction calls generalizing p a b with
  | nil => exact Nat.zero_le _
  | cons call calls ih =>
    have he := step_effect cost p call
    obtain ⟨hcall, hcalls⟩ := List.forall_mem_cons.mp hcalls
    rw [PlainQueue.history, charges_cons] at hcost
    rw [PlainQueue.history]
    by_cases hj : ∃ d ∈ Step.delivered ⟨p, call, (p.step cost call).1, (p.step cost call).2⟩,
        d.target = j
    · obtain ⟨d, hd, rfl⟩ := hj
      rw [overtakes_cons_of_mem _ hd]
      exact Nat.zero_le _
    · have hne : ∀ d ∈ Step.delivered ⟨p, call, (p.step cost call).1, (p.step cost call).2⟩,
          d.target ≠ j := fun d hd heq => hj ⟨d, hd, heq⟩
      obtain ⟨a', b', w', htime, hstep⟩ := w.step hp he hcall
        (fun c hc => hcost c (List.mem_append_left _ hc))
        (fun d hd => hne d (Step.mem_delivered.mpr hd))
      have hrest := ih w' (he.listed hp) hcalls fun c hc => hcost c (List.mem_append_right _ hc)
      rw [overtakes_cons_of_ne _ hne, List.countP_append]
      omega

end Awaits

/-- Only registered targets are served. -/
theorem deliveries_targets {cost : Cost} {p : PlainQueue ρ} {calls : List (Call ρ)} (hp : p.Listed)
    (hcalls : ∀ call ∈ calls, call.keepsTargets = true) :
    ∀ d ∈ deliveries (p.history cost calls), d.target ∈ p.ids := by
  induction calls generalizing p with
  | nil =>
    intro d hd
    cases hd
  | cons call calls ih =>
    intro d hd
    have he := step_effect cost p call
    obtain ⟨hcall, hcalls⟩ := List.forall_mem_cons.mp hcalls
    rw [PlainQueue.history, deliveries_cons] at hd
    rcases List.mem_append.mp hd with hd | hd
    · have hanswer : (p.step cost call).1 = .delivery (some d) := Step.mem_delivered.mp hd
      rw [hanswer] at he
      exact he.target_mem hp
    · rw [← he.ids_eq hcall]
      exact ih (he.listed hp) hcalls d hd

/-- Every target that became busy did so before the next one will. -/
structure Numbered (p : PlainQueue ρ) : Prop where
  listed : p.Listed
  pos : 0 < p.nextActivation
  activation_lt : ∀ {t a}, p.account t = some a → a.activation < p.nextActivation

namespace Numbered

variable {cost : Cost} {p p' : PlainQueue ρ}

theorem ofSettings (settings : FairSettings) :
    Numbered (PlainQueue.ofSettings settings : PlainQueue ρ) where
  listed := (Ledger.empty settings).listed
  pos := Nat.one_pos
  activation_lt h := nomatch h

theorem effect (n : Numbered p) {call : Call ρ} {answer : Answer ρ}
    (e : Effect cost p call answer p') : Numbered p' := by
  refine ⟨e.listed n.listed, Nat.lt_of_lt_of_le n.pos e.nextActivation_le, fun {t a'} ha' => ?_⟩
  have other : ∀ {u a}, p.account u = some a → a.activation < p'.nextActivation := fun ha =>
    Nat.lt_of_lt_of_le (n.activation_lt ha) e.nextActivation_le
  cases e with
  | enrolled hu =>
    rcases PlainQueue.of_account_enroll ha' with ⟨-, rfl⟩ | ⟨-, ha⟩
    · exact n.pos
    · exact other ha
  | dismissed hu => exact other (PlainQueue.of_account_dismiss ha').2
  | reprioritised hu =>
    rcases PlainQueue.of_account_write ha' with ⟨-, rfl⟩ | ⟨-, ha⟩
    · have hlt := other hu
      exact hlt
    · exact other ha
  | @enqueued u c resource size hu =>
    rcases PlainQueue.of_account_write ha' with ⟨-, rfl⟩ | ⟨-, ha⟩
    · have hlt := n.activation_lt hu
      show (p.filled c resource size).activation <
        if c.isBusy then p.nextActivation else p.nextActivation + 1
      rw [PlainQueue.filled]
      cases c.isBusy with
      | true => exact hlt
      | false => exact Nat.lt_succ_self _
    · exact other ha
  | served hnext hbacklog =>
    rcases PlainQueue.of_account_write ha' with ⟨-, rfl⟩ | ⟨-, ha⟩
    · have hlt := other (n.listed.next?_eq_some.mp hnext).1
      exact hlt
    · exact other ha
  | quiet hquiet => exact other ha'

theorem run (cost : Cost) (n : Numbered p) (calls : List (Call ρ)) :
    Numbered (p.after cost calls) := by
  induction calls generalizing p with
  | nil => exact n
  | cons call calls ih => exact ih (n.effect (step_effect cost p call))

end Numbered

end Fair

/-- The virtual time of a target. -/
def PlainQueue.virtualTimeOf (p : PlainQueue ρ) (t : TargetId) : Nat :=
  (p.account t).elim 0 (·.virtualTime)

/-- All that a waiting target is overtaken by is no more than what each other target can overtake. -/
theorem PlainQueue.Listed.length_overtakes_le {cost : Cost} {p : PlainQueue ρ} (hp : p.Listed)
    {j : TargetId} {a : Account ρ} {calls : List (Call ρ)}
    (hcalls : ∀ call ∈ calls, call.keepsTargets = true)
    (hcost : ∀ c ∈ charges cost (p.history cost calls), 1 ≤ c.cost)
    (hwaits : ∀ k b, p.account k = some b → k ≠ j → Awaits p j k a b) :
    (overtakes j (p.history cost calls)).length ≤
      ((p.ids.filter (· ≠ j)).map fun k => a.virtualTime - p.virtualTimeOf k + 1).sum := by
  refine length_le_sum (·.target) (fun d hd => ?_) fun k hk => ?_
  · have hregistered := deliveries_targets hp hcalls d ((List.takeWhile_sublist _).subset hd)
    exact List.mem_filter.mpr ⟨hregistered, decide_eq_true (target_ne_of_mem_overtakes hd)⟩
  · obtain ⟨hmem, hne⟩ := List.mem_filter.mp hk
    obtain ⟨b, hb⟩ := (hp.mem_ids k).mp hmem
    have hcount := (hwaits k b hb (by simpa using hne)).count_le hp hcalls hcost
    have htime : p.virtualTimeOf k = b.virtualTime := by
      rw [virtualTimeOf, hb, Option.elim_some]
    rw [htime]
    omega

namespace FairQueue

/-- The virtual time of a target. -/
def virtualTimeOf (q : FairQueue ρ) (t : TargetId) : Nat :=
  (q.targets.get? t).elim 0 (·.virtualTime)

/-- A target has something waiting. -/
def Busy (q : FairQueue ρ) (t : TargetId) : Prop :=
  ∃ e ∈ q.targets.get? t, e.backlog.isEmpty = false

instance (q : FairQueue ρ) (t : TargetId) : Decidable (q.Busy t) :=
  inferInstanceAs (Decidable (∃ e ∈ _, _))

/-- A target became busy before all other busy targets. -/
def Earliest (q : FairQueue ρ) (t : TargetId) : Prop :=
  ∃ e ∈ q.targets.get? t, e.backlog.isEmpty = false ∧
    ∀ u, u ≠ t → ∀ f ∈ q.targets.get? u, f.backlog.isEmpty = false → e.activation < f.activation

theorem virtualTimeOf_plain (q : FairQueue ρ) (t : TargetId) :
    q.plain.virtualTimeOf t = q.virtualTimeOf t := by
  rw [virtualTimeOf, PlainQueue.virtualTimeOf, account_plain]
  cases q.targets.get? t with
  | none => rfl
  | some e => rfl

theorem awaits_of_turn {cost : Cost} {h : List (Step ρ)} {q : FairQueue ρ} (l : Level cost h q.plain)
    (n : Numbered q.plain) {j : TargetId} (hj : q.Steady j ∨ q.Earliest j) :
    ∃ a, q.virtualTimeOf j = a.virtualTime ∧
      ∀ k b, q.plain.account k = some b → k ≠ j → Awaits q.plain j k a b := by
  obtain ⟨e, he, hbusy, hfirst⟩ : ∃ e, q.targets.get? j = some e ∧ e.backlog.isEmpty = false ∧
      (e.virtualTime < Word.greatest ∨ ∀ u, u ≠ j → ∀ f ∈ q.targets.get? u,
        f.backlog.isEmpty = false → e.activation < f.activation) := by
    rcases hj with ⟨e, he, hbusy, htime⟩ | ⟨e, he, hbusy, hfirst⟩
    · exact ⟨e, he, hbusy, .inl htime⟩
    · exact ⟨e, he, hbusy, .inr hfirst⟩
  have ha : q.plain.account j = some e.account := by rw [account_plain, he, Option.map_some]
  refine ⟨e.account, ?_, fun k b hb hne => ⟨ha, ?_, l.time_le_greatest ha, n.activation_lt ha, hb, ?_⟩⟩
  · rw [virtualTimeOf, he, Option.elim_some]
    rfl
  · rw [e.isBusy_account, hbusy]
    rfl
  · refine hfirst.imp_right fun hfirst hother => ?_
    obtain ⟨f, hf, rfl⟩ := Option.map_eq_some_iff.mp hb
    rw [f.isBusy_account, Bool.not_eq_true'] at hother
    exact hfirst k hne f hf hother

/-- **Nobody starves.** After any calls on a new queue, take a busy target that is short of the greatest
virtual time, or that became busy before all other busy targets. As long as no target comes or goes and every
delivery costs something, the deliveries to others before its next one are no more than the sum, over the
others, of how far each is behind and one. -/
theorem overtakes_le (settings : FairSettings) (cost : Cost) (calls more : List (Call ρ))
    {j : TargetId}
    (hj : ((ofSettings settings : FairQueue ρ).after cost calls).Steady j ∨
      ((ofSettings settings : FairQueue ρ).after cost calls).Earliest j)
    (hmore : ∀ call ∈ more, call.keepsTargets = true)
    (hcost : ∀ c ∈ charges cost (((ofSettings settings).after cost calls).history cost more),
      1 ≤ c.cost) :
    (overtakes j (((ofSettings settings).after cost calls).history cost more)).length ≤
      ((((ofSettings settings : FairQueue ρ).after cost calls).targetIds.filter (· ≠ j)).map
        fun k => ((ofSettings settings : FairQueue ρ).after cost calls).virtualTimeOf j -
          ((ofSettings settings : FairQueue ρ).after cost calls).virtualTimeOf k + 1).sum := by
  have hstart : Sound (ofSettings settings : FairQueue ρ) := Sound.ofSettings settings
  have hsound := sound_after cost hstart calls
  have l := (Level.ofSettings cost settings).run cost calls (ρ := ρ)
  have n := (Numbered.ofSettings settings).run cost calls (ρ := ρ)
  rw [← plain_ofSettings, ← plain_after cost hstart] at l n
  generalize (ofSettings settings : FairQueue ρ).after cost calls = q at *
  obtain ⟨a, htime, hwaits⟩ := awaits_of_turn l n hj
  rw [history_plain cost hsound] at hcost ⊢
  have hle := q.listed_plain.length_overtakes_le hmore hcost hwaits
  simp only [virtualTimeOf_plain, ← htime] at hle
  exact hle

/-- Calls that serve the second of the two busy targets and make the third one busy. -/
def overtaking : List (Call Unit) :=
  [.pop, .push ⟨3⟩ () 50, .pop, .setPriority ⟨2⟩ ⟨0x3f800000⟩, .peek, .pop]

theorem overtakes_le_rivals :
    ((ofSettings .small).after cost rivals).Steady ⟨1⟩ ∧
    (∀ call ∈ overtaking, call.keepsTargets = true) ∧
    (∀ c ∈ charges cost (((ofSettings .small).after cost rivals).history cost overtaking),
      1 ≤ c.cost) ∧
    (overtakes ⟨1⟩ (((ofSettings .small).after cost rivals).history cost overtaking)).length ≤
      ((((ofSettings .small).after cost rivals).targetIds.filter (· ≠ ⟨1⟩)).map
        fun k => ((ofSettings .small).after cost rivals).virtualTimeOf ⟨1⟩ -
          ((ofSettings .small).after cost rivals).virtualTimeOf k + 1).sum := by
  have hj : ((ofSettings .small).after cost rivals).Steady ⟨1⟩ := by decide +kernel
  have hmore : ∀ call ∈ overtaking, call.keepsTargets = true := by decide +kernel
  have hcost : ∀ c ∈ charges cost (((ofSettings .small).after cost rivals).history cost overtaking),
      1 ≤ c.cost := by
    decide +kernel
  exact ⟨hj, hmore, hcost, overtakes_le .small cost rivals overtaking (.inl hj) hmore hcost⟩

/-- Calls that leave two busy targets at the greatest virtual time. -/
def ceiling : List (Call Unit) :=
  [.addTarget ⟨1⟩ ⟨0x3f800000⟩, .addTarget ⟨2⟩ ⟨0x3f800000⟩,
    .push ⟨1⟩ () 20000000000000, .push ⟨1⟩ () 20000000000000, .push ⟨1⟩ () 20000000000000,
    .push ⟨1⟩ () 20000000000000, .push ⟨2⟩ () 20000000000000, .push ⟨2⟩ () 20000000000000,
    .pop, .pop]

/-- At the greatest virtual time a target can be overtaken more often than others are behind it: the
target that became busy first is served for as long as it stays busy. -/
theorem overtakes_at_ceiling :
    ((ofSettings .small).after cost ceiling).Busy ⟨2⟩ ∧
      (∀ call ∈ [Call.pop, Call.pop], (call : Call Unit).keepsTargets = true) ∧
      (∀ c ∈ charges cost (((ofSettings .small).after cost ceiling).history cost [.pop, .pop]),
        1 ≤ c.cost) ∧
      ((((ofSettings .small).after cost ceiling).targetIds.filter (· ≠ ⟨2⟩)).map fun k =>
        ((ofSettings .small).after cost ceiling).virtualTimeOf ⟨2⟩ -
          ((ofSettings .small).after cost ceiling).virtualTimeOf k + 1).sum <
        (overtakes ⟨2⟩ (((ofSettings .small).after cost ceiling).history cost [.pop, .pop])).length := by
  decide +kernel

end FairQueue

end Sluice
