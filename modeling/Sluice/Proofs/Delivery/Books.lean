import Sluice.Proofs.Delivery.Turn

/-!
# The counters of a deliverer agree with what happened

Every resource that is accepted is in one place: it waits in the queue, it went along with the removal of its
target, it was dropped with the registration of a closed sink, it is in transit, or its transit has ended and
it is counted as delivered or as dropped. `all_accounted_for` says so for every schedule, and that no more
than the capacity of the channel and two resources are in transit, one of them with the reader and one with
the handler.

Every turn is balanced (`Turn.balance`): what was in transit and what is taken out is what ends its transit
and what is in transit afterwards, and each counter grows by what it counts. The books of a run (`Books`) add
up the turns.
-/

namespace Sluice

open FairQueue (Stocked)
open Processor (Tidy)

namespace Deliverer

variable {ρ : Type} {d d' : Deliverer ρ}

/-! ### The balance of an event -/

/-- What an event does to the resources in transit and to the counters. -/
structure Balance (s : Happening ρ) : Prop where
  transit : s.before.inTransit ++ s.taken = s.fates.map (·.2) ++ s.after.inTransit
  delivered : s.after.deliveredResources =
    s.before.deliveredResources + (s.fates.filter (·.1 == .accepted)).length
  bytes : s.after.deliveredBytes =
    (s.fates.filter (·.1 == .accepted)).foldl (fun sum fate => Word.add sum fate.2.size)
      s.before.deliveredBytes
  dropped : s.after.dropped =
    s.before.dropped + (s.fates.filter (·.1 != .accepted)).length + s.forfeited.length

/-- An event that ends no transit, and after which the same resources are in transit. -/
theorem Balance.of_same {s : Happening ρ} (htaken : s.taken = []) (hfates : s.fates = [])
    (hforfeited : s.forfeited = []) (hinHand : s.after.inHand = s.before.inHand)
    (hunderway : s.after.processor.underway = s.before.processor.underway)
    (hdelivered : s.after.deliveredResources = s.before.deliveredResources)
    (hbytes : s.after.deliveredBytes = s.before.deliveredBytes)
    (hdropped : s.after.dropped = s.before.dropped) : Balance s where
  transit := by
    rw [htaken, hfates, inTransit, inTransit, hinHand, hunderway, List.append_nil]
    rfl
  delivered := by rw [hfates, hdelivered]; rfl
  bytes := by rw [hfates, hbytes]; rfl
  dropped := by rw [hfates, hforfeited, hdropped]; rfl

/-- Sizes that are added one by one add up to the sum, up to the greatest word. -/
theorem foldl_add_size (fates : List (Fate × Delivery ρ)) (n : Nat) :
    fates.foldl (fun sum fate => Word.add sum fate.2.size) (Word.clip n) =
      Word.clip (n + ((fates.map (·.2)).map (·.size)).sum) := by
  induction fates generalizing n with
  | nil => rfl
  | cons fate rest ih =>
    have hadd : Word.add (Word.clip n) fate.2.size = Word.clip (n + fate.2.size) := by
      rw [Word.add, Word.clip, Word.clip]
      omega
    rw [List.foldl_cons, hadd, ih, List.map_cons, List.map_cons, List.sum_cons, Nat.add_assoc]

/-! ### What becomes of the resource in hand -/

section

variable {reply : Reply ρ} {delivery : Delivery ρ}

theorem inHand_of_deliver {v : Visit ρ} (hv : d.visitOf? .handler = some v)
    (herrand : v.errand = .deliver delivery) : d.inHand = [delivery] := by
  rw [inHand_of_visit hv, herrand]
  rfl

theorem inHand_of_dismiss {v : Visit ρ} {backlog : List ρ} (hv : d.visitOf? .handler = some v)
    (herrand : v.errand = .dismiss backlog) : d.inHand = [] := by
  rw [inHand_of_visit hv, herrand]
  rfl

/-- What is under way in addition was taken out. -/
theorem taken_of_ask {ds : List (Delivery ρ)}
    (h : d'.processor.underway = d.processor.underway ++ ds) :
    (⟨d, .ask, reply, d'⟩ : Happening ρ).taken = ds := by
  show d'.processor.underway.drop d.processor.underway.length = ds
  rw [h, List.drop_left]

/-- A resource is late if its registration is gone when the handler receives it. -/
theorem fates_receive {rest : List (Delivery ρ)} (hunderway : d.processor.underway = delivery :: rest) :
    (⟨d, .receive, reply, d'⟩ : Happening ρ).fates =
      if d.sinks.get? delivery.target = some delivery.registration then [] else [(.late, delivery)] := by
  show ((d.processor.underway.take 1).filter _).map _ = _
  rw [hunderway, List.take_succ_cons, List.take_zero]
  by_cases hsink : d.sinks.get? delivery.target = some delivery.registration
  · rw [if_pos hsink, List.filter_cons_of_neg (by simpa using hsink)]
    rfl
  · rw [if_neg hsink, List.filter_cons_of_pos (by simpa using hsink)]
    rfl

theorem fates_accepted (hinHand : d.inHand = [delivery]) :
    (⟨d, .deliverReturns .accepted, reply, d'⟩ : Happening ρ).fates = [(.accepted, delivery)] := by
  show d.inHand.map (Fate.accepted, ·) = _
  rw [hinHand]
  rfl

theorem fates_refused (hinHand : d.inHand = [delivery]) :
    (⟨d, .deliverReturns .closed, reply, d'⟩ : Happening ρ).fates = [(.refused, delivery)] := by
  show d.inHand.map (Fate.refused, ·) = _
  rw [hinHand]
  rfl

theorem forfeited_refused (hinHand : d.inHand = [delivery]) :
    (⟨d, .deliverReturns .closed, reply, d'⟩ : Happening ρ).forfeited =
      if d.queue.registrationOf delivery.target = some delivery.registration then
        d.queue.backlogOf delivery.target
      else [] := by
  show d.inHand.flatMap _ = _
  rw [hinHand, List.flatMap_singleton]

/-- A resource is taken out, and is under way then. -/
theorem balance_of_taking (hinHand : d'.inHand = d.inHand)
    (hunderway : d'.processor.underway = d.processor.underway ++ [delivery])
    (hdelivered : d'.deliveredResources = d.deliveredResources) (hbytes : d'.deliveredBytes = d.deliveredBytes)
    (hdropped : d'.dropped = d.dropped) : Balance ⟨d, .ask, reply, d'⟩ := by
  refine ⟨?_, hdelivered, hbytes, hdropped⟩
  rw [taken_of_ask hunderway]
  show d.inTransit ++ [delivery] = d'.inTransit
  rw [inTransit, inTransit, hinHand, hunderway, List.append_assoc]

/-- The handler sets out to a sink with the resource that it has received. -/
theorem balance_of_setOut {processor : Processor (Delivery ρ)} (hnone : d.visitOf? .handler = none)
    (hunderway : d.processor.underway = delivery :: processor.underway)
    (hsink : d.sinks.get? delivery.target = some delivery.registration) :
    Balance ⟨d, .receive, reply, ({ d with processor } : Deliverer ρ).visit .handler delivery.registration
      (.deliver delivery)⟩ := by
  have hfates : (⟨d, .receive, reply, ({ d with processor } : Deliverer ρ).visit .handler
      delivery.registration (.deliver delivery)⟩ : Happening ρ).fates = [] :=
    (fates_receive hunderway).trans (if_pos hsink)
  have hinHand : (({ d with processor } : Deliverer ρ).visit .handler delivery.registration
      (.deliver delivery)).inHand = [delivery] := inHand_visit hnone _ _
  refine ⟨?_, by rw [hfates]; rfl, by rw [hfates]; rfl, by rw [hfates]; rfl⟩
  rw [hfates, inTransit, inTransit, inHand_of_none hnone, hinHand, hunderway]
  exact List.append_nil _

/-- The handler drops the resource that it has received. -/
theorem balance_of_lateness (hnone : d.visitOf? .handler = none) (hinHand : d'.inHand = d.inHand)
    (hunderway : d.processor.underway = delivery :: d'.processor.underway)
    (hsink : d.sinks.get? delivery.target ≠ some delivery.registration)
    (hdelivered : d'.deliveredResources = d.deliveredResources) (hbytes : d'.deliveredBytes = d.deliveredBytes)
    (hdropped : d'.dropped = d.dropped + 1) : Balance ⟨d, .receive, reply, d'⟩ := by
  have hfates : (⟨d, .receive, reply, d'⟩ : Happening ρ).fates = [(.late, delivery)] :=
    (fates_receive hunderway).trans (if_neg hsink)
  refine ⟨?_, ?_, ?_, ?_⟩
  · rw [hfates, inTransit, inTransit, hinHand, inHand_of_none hnone, hunderway]
    exact List.append_nil _
  · rw [hfates]
    exact hdelivered
  · rw [hfates]
    exact hbytes
  · rw [hfates]
    exact hdropped

/-- A sink accepts a resource. -/
theorem balance_of_acceptance (hinHand : d.inHand = [delivery]) (hinHand' : d'.inHand = [])
    (hunderway : d'.processor.underway = d.processor.underway)
    (hdelivered : d'.deliveredResources = d.deliveredResources + 1)
    (hbytes : d'.deliveredBytes = Word.add d.deliveredBytes delivery.size) (hdropped : d'.dropped = d.dropped) :
    Balance ⟨d, .deliverReturns .accepted, reply, d'⟩ := by
  have hfates : (⟨d, .deliverReturns .accepted, reply, d'⟩ : Happening ρ).fates = [(.accepted, delivery)] :=
    fates_accepted hinHand
  refine ⟨?_, ?_, ?_, ?_⟩
  · rw [hfates, inTransit, inTransit, hinHand, hinHand', hunderway]
    exact List.append_nil _
  · rw [hfates]
    exact hdelivered
  · rw [hfates]
    exact hbytes
  · rw [hfates]
    exact hdropped

/-- A sink refuses a resource, and some number of others is dropped with its registration. -/
theorem balance_of_refusal (hinHand : d.inHand = [delivery]) (hinHand' : d'.inHand = [])
    (hunderway : d'.processor.underway = d.processor.underway)
    (hdelivered : d'.deliveredResources = d.deliveredResources)
    (hbytes : d'.deliveredBytes = d.deliveredBytes)
    (hdropped : d'.dropped = d.dropped + 1 +
      (⟨d, .deliverReturns .closed, reply, d'⟩ : Happening ρ).forfeited.length) :
    Balance ⟨d, .deliverReturns .closed, reply, d'⟩ := by
  have hfates : (⟨d, .deliverReturns .closed, reply, d'⟩ : Happening ρ).fates =
      [(.refused, delivery)] := fates_refused hinHand
  refine ⟨?_, ?_, ?_, ?_⟩
  · rw [hfates, inTransit, inTransit, hinHand, hinHand', hunderway]
    exact List.append_nil _
  · rw [hfates]
    exact hdelivered
  · rw [hfates]
    exact hbytes
  · rw [hfates]
    exact hdropped

end

/-! ### Every turn is balanced -/

section

variable [Resource ρ] {h : List (Happening ρ)} {handed : List (Delivery ρ)} {event : Event ρ}
  {reply : Reply ρ}

/-- Every turn is balanced. -/
theorem Turn.balance (o : Orderly h handed d) (e : Turn d event reply d') :
    Balance ⟨d, event, reply, d'⟩ := by
  have hopen := o.unclosed
  cases e with
  | aside hsilent k =>
    exact .of_same hsilent.taken hsilent.fates hsilent.forfeited k.inHand (k.processor hopen).underway
      k.deliveredResources k.deliveredBytes k.dropped
  | enrolled => exact .of_same rfl rfl rfl rfl rfl rfl rfl rfl
  | reprioritised => exact .of_same rfl rfl rfl rfl rfl rfl rfl rfl
  | submitted _ _ k =>
    exact .of_same rfl rfl rfl k.inHand (k.processor hopen).underway k.deliveredResources k.deliveredBytes
      k.dropped
  | removed => exact .of_same rfl rfl rfl rfl rfl rfl rfl rfl
  | removing _ _ _ k =>
    exact .of_same rfl rfl rfl (k.inHand.trans (inHand_visit_remover _ _ _ _))
      (k.processor hopen).underway k.deliveredResources k.deliveredBytes k.dropped
  | abandoned _ k =>
    exact .of_same rfl rfl rfl (k.inHand.trans (inHand_endVisit_remover _ _))
      (k.processor hopen).underway k.deliveredResources k.deliveredBytes k.dropped
  | peeked _ _ k =>
    have hunderway := (k.processor hopen).underway
    exact .of_same (Happening.taken_eq_nil hunderway) rfl rfl k.inHand hunderway k.deliveredResources
      k.deliveredBytes k.dropped
  | taken _ _ _ hopen' htaken _ k =>
    exact balance_of_taking k.inHand ((k.processor hopen').underway.trans htaken) k.deliveredResources
      k.deliveredBytes k.dropped
  | setOut _ hreceiving _ hunderway hsink => exact balance_of_setOut (o.idle hreceiving) hunderway hsink
  | @late delivery processor d' hopen' hreceiving _ hunderway hsink k =>
    have hunderway' : d.processor.underway = delivery :: d'.processor.underway := by
      rw [(k.processor hopen').underway]
      exact hunderway
    exact balance_of_lateness (o.idle hreceiving) k.inHand hunderway' hsink k.deliveredResources k.deliveredBytes
      k.dropped
  | @closing processor _ _ _ hbefore hafter =>
    refine .of_same rfl ?_ rfl rfl (hafter.trans hbefore.symm) rfl rfl rfl
    show ((d.processor.underway.take 1).filter _).map _ = []
    rw [hbefore]
    rfl
  | entered => exact .of_same rfl rfl rfl (inHand_letIn _ _) rfl rfl rfl rfl
  | accepted hv herrand _ k =>
    exact balance_of_acceptance (inHand_of_deliver hv herrand) (k.inHand.trans d.inHand_endVisit)
      (k.processor hopen).underway k.deliveredResources k.deliveredBytes k.dropped
  | @gone v delivery d' hv herrand _ hr k =>
    have hinHand := inHand_of_deliver hv herrand
    refine balance_of_refusal hinHand (k.inHand.trans d.inHand_endVisit) (k.processor hopen).underway
      k.deliveredResources k.deliveredBytes ?_
    rw [forfeited_refused hinHand, if_neg hr]
    exact k.dropped
  | @orphaned v delivery backlog queue d' hv herrand _ hr hremove _ k =>
    have hinHand := inHand_of_deliver hv herrand
    refine balance_of_refusal hinHand (k.inHand.trans d.inHand_endVisit) (k.processor hopen).underway
      k.deliveredResources k.deliveredBytes ?_
    rw [forfeited_refused hinHand, if_pos hr, ← FairQueue.eq_backlogOf_of_removeTarget hremove]
    exact k.dropped
  | @foundClosed v delivery backlog queue sink d' hv herrand _ hr hremove _ k =>
    have hinHand := inHand_of_deliver hv herrand
    refine balance_of_refusal hinHand (k.inHand.trans ?_) (k.processor hopen).underway
      k.deliveredResources k.deliveredBytes ?_
    · exact inHand_visit (d.visitOf?_endVisit .handler) sink (.dismiss [])
    · rw [forfeited_refused hinHand, if_pos hr, ← FairQueue.eq_backlogOf_of_removeTarget hremove]
      exact k.dropped
  | dismissed hv herrand _ k =>
    have hinHand := (inHand_of_dismiss hv herrand).symm
    exact .of_same rfl rfl rfl ((k.inHand.trans d.inHand_endVisit).trans hinHand)
      (k.processor hopen).underway k.deliveredResources k.deliveredBytes k.dropped
  | returned _ _ _ k =>
    exact .of_same rfl rfl rfl (k.inHand.trans (inHand_endVisit_remover _ _))
      (k.processor hopen).underway k.deliveredResources k.deliveredBytes k.dropped
  | @dismissing sink _ hnone _ =>
    have hinHand : (({ d with leaving := d.leaving.erase sink } : Deliverer ρ).visit .handler sink
        (.dismiss [])).inHand = d.inHand :=
      (inHand_visit hnone sink (.dismiss [])).trans (inHand_of_none hnone).symm
    exact .of_same rfl rfl rfl hinHand rfl rfl rfl rfl
  | ended _ _ _ _ _ hunderway => exact .of_same rfl rfl rfl rfl hunderway rfl rfl rfl

/-! ### The trade of the queue -/

/-- What an event does to a queue that holds some number of resources and that has handed out some number. -/
structure Trade (s : Happening ρ) (pending delivered left : Nat) : Prop where
  total : left + s.taken.length + s.withdrawn.length + s.forfeited.length =
    pending + s.submitted.length
  stocked : s.after.queue.Stocked left (delivered + s.taken.length)
  weighed : ∀ e ∈ s.taken, e.size = Resource.size e.resource

/-- An event that neither takes in nor gives away a resource. -/
theorem Trade.of_none {s : Happening ρ} {pending delivered : Nat} (hsubmitted : s.submitted = [])
    (htaken : s.taken = []) (hwithdrawn : s.withdrawn = []) (hforfeited : s.forfeited = [])
    (hstocked : s.after.queue.Stocked pending delivered) : Trade s pending delivered pending where
  total := by
    rw [hsubmitted, htaken, hwithdrawn, hforfeited]
    rfl
  stocked := by
    rw [htaken]
    exact hstocked
  weighed := by
    rw [htaken]
    nofun

/-- A removal of a target by a call. -/
theorem trade_of_remove {call : CallId} {t : TargetId} {backlog : List ρ} {queue : FairQueue ρ}
    {pending delivered : Nat} (s : d.queue.Stocked pending delivered)
    (hremove : d.queue.removeTarget t = .ok (backlog, queue)) (hqueue : d'.queue = queue) :
    ∃ left, Trade ⟨d, .remove call t, reply, d'⟩ pending delivered left := by
  obtain ⟨left, hleft, s'⟩ := s.removeTarget hremove
  rw [FairQueue.eq_backlogOf_of_removeTarget hremove] at hleft
  refine ⟨left, hleft, ?_, nofun⟩
  show d'.queue.Stocked left delivered
  rw [hqueue]
  exact s'

/-- A removal of a target whose sink is found closed. -/
theorem trade_of_refusal {delivery : Delivery ρ} {backlog : List ρ} {queue : FairQueue ρ}
    {pending delivered : Nat} (s : d.queue.Stocked pending delivered) (hinHand : d.inHand = [delivery])
    (hr : d.queue.registrationOf delivery.target = some delivery.registration)
    (hremove : d.queue.removeTarget delivery.target = .ok (backlog, queue)) (hqueue : d'.queue = queue) :
    ∃ left, Trade ⟨d, .deliverReturns .closed, reply, d'⟩ pending delivered left := by
  obtain ⟨left, hleft, s'⟩ := s.removeTarget hremove
  rw [FairQueue.eq_backlogOf_of_removeTarget hremove] at hleft
  have hforfeited : (⟨d, .deliverReturns .closed, reply, d'⟩ : Happening ρ).forfeited =
      d.queue.backlogOf delivery.target := (forfeited_refused hinHand).trans (if_pos hr)
  refine ⟨left, ?_, ?_, nofun⟩
  · rw [hforfeited]
    exact hleft
  · show d'.queue.Stocked left delivered
    rw [hqueue]
    exact s'

/-- What every turn does to the queue. -/
theorem Turn.trade {pending delivered : Nat} (o : Orderly h handed d)
    (s : d.queue.Stocked pending delivered) (e : Turn d event reply d') :
    ∃ left, Trade ⟨d, event, reply, d'⟩ pending delivered left := by
  -- The queue does not change.
  have still : d'.queue = d.queue → (⟨d, event, reply, d'⟩ : Happening ρ).submitted = [] →
      (⟨d, event, reply, d'⟩ : Happening ρ).taken = [] →
      (⟨d, event, reply, d'⟩ : Happening ρ).withdrawn = [] →
      (⟨d, event, reply, d'⟩ : Happening ρ).forfeited = [] →
      ∃ left, Trade ⟨d, event, reply, d'⟩ pending delivered left := by
    intro hqueue hsubmitted htaken hwithdrawn hforfeited
    refine ⟨pending, .of_none hsubmitted htaken hwithdrawn hforfeited ?_⟩
    show d'.queue.Stocked pending delivered
    rw [hqueue]
    exact s
  cases e with
  | aside hsilent k =>
    exact still k.queue hsilent.submitted hsilent.taken hsilent.withdrawn hsilent.forfeited
  | enrolled _ hadd => exact ⟨pending, .of_none rfl rfl rfl rfl (s.addTarget hadd)⟩
  | reprioritised hset => exact ⟨pending, .of_none rfl rfl rfl rfl (s.setPriority hset)⟩
  | submitted _ hpush k =>
    refine ⟨pending + 1, rfl, ?_, nofun⟩
    show d'.queue.Stocked (pending + 1) delivered
    rw [k.queue]
    exact s.push hpush
  | removed _ hremove => exact trade_of_remove s hremove rfl
  | removing _ hremove _ k => exact trade_of_remove s hremove k.queue
  | abandoned _ k => exact still k.queue rfl rfl rfl rfl
  | peeked _ hpeek k =>
    have htaken : (⟨d, .ask, .quiet, d'⟩ : Happening ρ).taken = [] :=
      Happening.taken_eq_nil (k.processor o.unclosed).underway
    refine ⟨pending, .of_none rfl htaken rfl rfl ?_⟩
    show d'.queue.Stocked pending delivered
    rw [k.queue]
    exact s.peek hpeek
  | @taken head queue queue' delivery processor d' _ hpeek hpop hopen htaken _ k =>
    have htaken' : (⟨d, .ask, .quiet, d'⟩ : Happening ρ).taken = [delivery] :=
      taken_of_ask ((k.processor hopen).underway.trans htaken)
    have s₁ := s.peek hpeek
    obtain ⟨left, hleft, s₂⟩ := s₁.pop hpop
    refine ⟨left, ?_, ?_, ?_⟩
    · rw [htaken']
      exact hleft
    · rw [htaken']
      show d'.queue.Stocked left (delivered + 1)
      rw [k.queue]
      exact s₂
    · rw [htaken']
      intro e he
      rw [List.mem_singleton.mp he]
      exact s₁.size_of_pop hpop
  | setOut => exact still rfl rfl rfl rfl rfl
  | late _ _ _ _ _ k => exact still k.queue rfl rfl rfl rfl
  | closing => exact still rfl rfl rfl rfl rfl
  | entered => exact still rfl rfl rfl rfl rfl
  | accepted _ _ _ k => exact still k.queue rfl rfl rfl rfl
  | gone hv herrand _ hr k =>
    refine still k.queue rfl rfl rfl ?_
    rw [forfeited_refused (inHand_of_deliver hv herrand), if_neg hr]
  | orphaned hv herrand _ hr hremove _ k =>
    exact trade_of_refusal s (inHand_of_deliver hv herrand) hr hremove k.queue
  | foundClosed hv herrand _ hr hremove _ k =>
    exact trade_of_refusal s (inHand_of_deliver hv herrand) hr hremove k.queue
  | dismissed _ _ _ k => exact still k.queue rfl rfl rfl rfl
  | returned _ _ _ k => exact still k.queue rfl rfl rfl rfl
  | dismissing => exact still rfl rfl rfl rfl rfl
  | ended => exact still rfl rfl rfl rfl rfl

/-! ### The books of a run -/

/-- What the counters, the queue and the transit of a deliverer have to do with its history. -/
structure Books (h : List (Happening ρ)) (d : Deliverer ρ) : Prop where
  transit : takenOut h = (fates h).map (·.2) ++ d.inTransit
  delivered : d.deliveredResources = (acceptedBySinks h).length
  bytes : d.deliveredBytes = Word.clip ((acceptedBySinks h).map (·.size)).sum
  dropped : d.dropped = (lost h).length + (forfeited h).length
  stocked : d.queue.Stocked d.queue.pending (takenOut h).length
  entered : (submissions h).length =
    d.queue.pending + (takenOut h).length + (withdrawn h).length + (forfeited h).length
  weighed : ∀ e ∈ takenOut h, e.size = Resource.size e.resource

namespace Books

theorem ofSettings (settings : DelivererSettings) :
    Books [] (Deliverer.ofSettings settings : Deliverer ρ) where
  transit := rfl
  delivered := rfl
  bytes := rfl
  dropped := rfl
  stocked := .ofSettings settings.queue
  entered := rfl
  weighed := nofun

/-- The books are kept by adding up what every event does. -/
theorem snoc {left : Nat} (b : Books h d) (hbalance : Balance ⟨d, event, reply, d'⟩)
    (htrade : Trade ⟨d, event, reply, d'⟩ d.queue.pending (takenOut h).length left) :
    Books (h ++ [⟨d, event, reply, d'⟩]) d' := by
  have hleft : d'.queue.pending = left := htrade.stocked.pending_eq
  constructor
  · rw [takenOut_snoc, fates_snoc, b.transit, List.map_append, List.append_assoc, List.append_assoc]
    exact congrArg _ hbalance.transit
  · have hdelivered := hbalance.delivered
    rw [acceptedBySinks_snoc, List.length_append, List.length_map, ← b.delivered]
    exact hdelivered
  · have hbytes := hbalance.bytes
    rw [acceptedBySinks_snoc, List.map_append, List.sum_append]
    refine hbytes.trans ?_
    show List.foldl _ d.deliveredBytes _ = _
    rw [b.bytes]
    exact foldl_add_size _ _
  · have hdropped : d'.dropped = d.dropped + _ + _ := hbalance.dropped
    have hbefore := b.dropped
    rw [lost_snoc, forfeited_snoc, List.length_append, List.length_append, List.length_map]
    omega
  · rw [hleft, takenOut_snoc, List.length_append]
    exact htrade.stocked
  · have htotal := htrade.total
    have hbefore := b.entered
    rw [submissions_snoc, takenOut_snoc, withdrawn_snoc, forfeited_snoc, hleft]
    simp only [List.length_append]
    omega
  · rw [takenOut_snoc]
    intro e he
    rcases List.mem_append.mp he with he | he
    · exact b.weighed e he
    · exact htrade.weighed e he

/-- Every turn keeps the books. -/
theorem turn (b : Books h d) (o : Orderly h handed d) (e : Turn d event reply d') :
    Books (h ++ [⟨d, event, reply, d'⟩]) d' := by
  obtain ⟨left, htrade⟩ := e.trade o b.stocked
  exact b.snoc (e.balance o) htrade

theorem after (settings : DelivererSettings) (events : List (Event ρ)) :
    Books (happenings settings events) ((Deliverer.ofSettings settings).after events) :=
  turn_induction (ofSettings settings) (fun _ _ _ _ _ _ o _ b e => b.turn o e) events

/-- What was accepted by the sinks was taken out. -/
theorem mem_takenOut (b : Books h d) {e : Delivery ρ} (he : e ∈ acceptedBySinks h) : e ∈ takenOut h := by
  obtain ⟨fate, hfate, rfl⟩ := List.mem_map.mp he
  rw [b.transit]
  exact List.mem_append_left _ (List.mem_map_of_mem (List.mem_of_mem_filter hfate))

end Books

/-- Whatever the schedule, every accepted resource is accounted for: it was delivered or dropped, it waits in
the queue, it was taken along by a call that removed its target, or it is in transit. The counters say how
many resources the sinks accepted and how large these are together. No more than the capacity of the channel
and two are in transit, and none is once both tasks have ended. -/
theorem all_accounted_for (settings : DelivererSettings) (events : List (Event ρ)) :
    let h := happenings settings events
    let d := (Deliverer.ofSettings settings).after events
    (submissions h).length = d.stats.deliveredResources + d.stats.dropped + d.stats.pending +
        (withdrawn h).length + d.inTransit.length ∧
      d.inTransit.length ≤ settings.capacity + 2 ∧
      d.stats.deliveredResources = (acceptedBySinks h).length ∧
      d.stats.deliveredBytes =
        Word.clip ((acceptedBySinks h).map fun e => Resource.size e.resource).sum ∧
      (d.processor.readerEnded = true → d.processor.handlerEnded = true → d.inTransit = []) := by
  intro h d
  have b : Books h d := .after settings events
  have t : Tidy settings.capacity d.processor := tidy_after settings events
  have p : Parting d := parting_after settings events
  refine ⟨?_, ?_, b.delivered, ?_, ?_⟩
  · have hentered := b.entered
    have htransit := congrArg List.length b.transit
    have hfates := length_fates h
    have hdelivered := b.delivered
    have hdropped := b.dropped
    rw [List.length_append, List.length_map] at htransit
    show _ = d.deliveredResources + d.dropped + d.queue.pending + _ + _
    omega
  · have hinHand := d.length_inHand_le
    have hunderway := t.length_underway_le
    rw [inTransit, List.length_append]
    omega
  · have hsizes : (acceptedBySinks h).map (·.size) =
        (acceptedBySinks h).map fun e => Resource.size e.resource := by
      apply List.map_congr_left
      intro e he
      exact b.weighed e (b.mem_takenOut he)
    rw [← hsizes]
    exact b.bytes
  · intro _ hended
    have hhandler := Processor.handlerEnded_iff.mp hended
    have hlast : d.processor.handler.isLast := Processor.HandlerPhase.isLast_of_ended hhandler
    rw [inTransit, inHand_of_none (p.alone hhandler), t.underway_eq_nil hlast]
    rfl

end

/-- A schedule in which every resource goes another way. The first target turns out to be closed, with another
resource in its backlog; the second one is removed, with one resource in the channel and another one in its
backlog; the third one accepts a resource, and another one still waits for it when the deliverer is stopped. -/
def closingTime : List (Event (List UInt8)) :=
  [.addTarget ⟨1⟩ ⟨0x3f800000⟩, .addTarget ⟨2⟩ ⟨0x3f800000⟩, .addTarget ⟨3⟩ ⟨0x3f800000⟩,
    .submit ⟨1⟩ [10], .submit ⟨1⟩ [11], .submit ⟨2⟩ [20], .submit ⟨2⟩ [21], .submit ⟨3⟩ [30],
    .submit ⟨3⟩ [31], .look, .ask, .receive, .enter .handler, .look, .ask, .deliverReturns .closed,
    .remove 7 ⟨2⟩, .enter .handler, .dismissReturns .handler, .receive,
    .look, .ask, .receive, .enter .handler, .deliverReturns .accepted,
    .stop 8, .look, .ask, .readerLeaves, .readerFinishes, .receive,
    .enter (.remover 7), .dismissReturns (.remover 7),
    .dismissNext 3, .enter .handler, .dismissReturns .handler, .handlerFinishes,
    .advanceLine, .advanceLine, .advanceLine]

theorem all_accounted_for_closingTime :
    let h := happenings .small closingTime
    let d := (Deliverer.ofSettings .small).after closingTime
    d.stats = ⟨0, 1, 1, 1, 1, 3⟩ ∧ withdrawn h = [[21]] ∧ (submissions h).length = 6 ∧
      d.processor.readerEnded = true ∧ d.processor.handlerEnded = true ∧ d.inTransit = [] := by
  have hreader : ((Deliverer.ofSettings .small).after closingTime).processor.readerEnded = true := by
    decide +kernel
  have hhandler : ((Deliverer.ofSettings .small).after closingTime).processor.handlerEnded = true := by
    decide +kernel
  obtain ⟨-, -, -, -, hnone⟩ := all_accounted_for .small closingTime
  exact ⟨by decide +kernel, by decide +kernel, by decide +kernel, hreader, hhandler, hnone hreader hhandler⟩

end Deliverer

end Sluice
