import Sluice.Proofs.Delivery.History
import Sluice.Proofs.Fair.Stock

/-!
# What became of the resources and of the sinks

A history tells more than what was accepted and what the sinks were called with. A resource leaves the fair
queue in one of three ways: the reader takes it out, to be handed over (`takenOut`); a call that removes its
target takes it along (`withdrawn`); or it is dropped together with the registration of a sink that was found
closed (`forfeited`). What the reader takes out is in transit until its fate is known (`fates`): its sink
accepts it, or refuses it since it is closed, or the handler receives it late, after its registration has gone.

A sink sees calls: the calls with a resource and its own answers, and at last its dismissal, which is done or
cut off (`seen`).
-/

namespace Sluice

namespace Deliverer

variable {ρ : Type}

/-! ### In transit -/

/-- The resource that a visit is about. -/
def Errand.carried : Errand ρ → List (Delivery ρ)
  | .deliver delivery => [delivery]
  | .dismiss _ => []

/-- The resource that the handler has, as long as its sink has not answered to it. -/
def inHand (d : Deliverer ρ) : List (Delivery ρ) :=
  (d.visitOf? .handler).toList.flatMap (·.errand.carried)

/-- The resources between the queue and the end of their handling: in the handler, in the channel, and with
the reader. -/
def inTransit (d : Deliverer ρ) : List (Delivery ρ) := d.inHand ++ d.processor.underway

theorem inHand_of_visit {d : Deliverer ρ} {v : Visit ρ} (hv : d.visitOf? .handler = some v) :
    d.inHand = v.errand.carried := by
  rw [inHand, hv, Option.toList_some, List.flatMap_singleton]

theorem inHand_of_none {d : Deliverer ρ} (hv : d.visitOf? .handler = none) : d.inHand = [] := by
  rw [inHand, hv, Option.toList_none, List.flatMap_nil]

/-- The handler has one resource at most. -/
theorem length_inHand_le (d : Deliverer ρ) : d.inHand.length ≤ 1 := by
  cases hv : d.visitOf? .handler with
  | none =>
    rw [inHand_of_none hv]
    exact Nat.zero_le 1
  | some v =>
    rw [inHand_of_visit hv]
    cases v.errand with
    | deliver delivery => exact Nat.le_refl 1
    | dismiss backlog => exact Nat.zero_le 1

/-- A visit that the handler sets out to brings what it is about. -/
theorem inHand_visit {d : Deliverer ρ} (hnone : d.visitOf? .handler = none) (sink : Nat)
    (errand : Errand ρ) : (d.visit .handler sink errand).inHand = errand.carried :=
  inHand_of_visit (visitOf?_visit hnone sink errand)

theorem inHand_endVisit (d : Deliverer ρ) : (d.endVisit .handler).inHand = [] :=
  inHand_of_none (d.visitOf?_endVisit .handler)

/-- The handler has nothing to do with what a call visits. -/
theorem inHand_visit_remover (d : Deliverer ρ) (call : CallId) (sink : Nat) (errand : Errand ρ) :
    (d.visit (.remover call) sink errand).inHand = d.inHand := by
  have hne : Visitor.remover call ≠ .handler := nofun
  rw [inHand, inHand, visitOf?_visit_of_ne hne]

theorem inHand_endVisit_remover (d : Deliverer ρ) (call : CallId) :
    (d.endVisit (.remover call)).inHand = d.inHand := by
  have hne : Visitor.remover call ≠ .handler := nofun
  rw [inHand, inHand, visitOf?_endVisit_of_ne hne]

/-- The handler has its resource until its sink answers. -/
theorem inHand_letIn (d : Deliverer ρ) (visitor : Visitor) : (d.letIn visitor).inHand = d.inHand := by
  rw [inHand, inHand, visitOf?_letIn]
  cases d.visitOf? .handler with
  | none => rfl
  | some v =>
    show ((if v.visitor = visitor then { v with inside := true } else v : Visit ρ).errand.carried ++ []) = _
    split <;> rfl

/-! ### The record of an event -/

/-- How the transit of a resource ends. -/
inductive Fate where
  | accepted
  /-- Its sink is closed. -/
  | refused
  /-- The registration that it was queued under is gone. -/
  | late
  deriving DecidableEq, Repr

/-- What a sink sees of the deliverer, with its own answers. -/
inductive Sighting (ρ : Type) where
  | called (resource : ρ)
  | answered (outcome : DeliveryOutcome)
  /-- Its dismissal begins. -/
  | dismissed
  /-- Its dismissal is done. -/
  | released
  /-- The call that dismisses it is given up meanwhile. -/
  | cutOff
  deriving DecidableEq, Repr

/-- What a sink sees of the beginning of a visit. -/
def Visit.opening (v : Visit ρ) : Sighting ρ :=
  match v.errand with
  | .deliver delivery => .called delivery.resource
  | .dismiss _ => .dismissed

/-- What a sink sees, if it is the one that a visitor visits. -/
def sightingOf (d : Deliverer ρ) (visitor : Visitor) (sink : Nat) (sees : Visit ρ → List (Sighting ρ)) :
    List (Sighting ρ) :=
  (d.visitOf? visitor).toList.flatMap fun v => if v.sink = sink then sees v else []

/-- What a sink sees of the end or the beginning of a visit. -/
theorem sightingOf_visit {d : Deliverer ρ} {visitor : Visitor} {v : Visit ρ} (hv : d.visitOf? visitor = some v)
    (sink : Nat)
    (sees : Visit ρ → List (Sighting ρ)) :
    d.sightingOf visitor sink sees = if v.sink = sink then sees v else [] := by
  rw [sightingOf, hv, Option.toList_some, List.flatMap_singleton]

namespace Happening

/-- What an event takes out of the queue for delivery. -/
def taken (s : Happening ρ) : List (Delivery ρ) :=
  match s.event with
  | .ask => s.after.processor.underway.drop s.before.processor.underway.length
  | _ => []

/-- What a call that removes a target takes along. -/
def withdrawn (s : Happening ρ) : List ρ :=
  match s.event with
  | .remove _ t => s.before.queue.backlogOf t
  | _ => []

/-- What waited for a sink that is found closed and is still registered. -/
def forfeited (s : Happening ρ) : List ρ :=
  match s.event with
  | .deliverReturns .closed => s.before.inHand.flatMap fun delivery =>
    if s.before.queue.registrationOf delivery.target = some delivery.registration then
      s.before.queue.backlogOf delivery.target
    else []
  | _ => []

/-- The resource whose transit ends. -/
def fates (s : Happening ρ) : List (Fate × Delivery ρ) :=
  match s.event with
  | .deliverReturns .accepted => s.before.inHand.map (.accepted, ·)
  | .deliverReturns .closed => s.before.inHand.map (.refused, ·)
  | .receive =>
    ((s.before.processor.underway.take 1).filter fun delivery =>
      s.before.sinks.get? delivery.target ≠ some delivery.registration).map (.late, ·)
  | _ => []

/-- What a sink sees of an event. -/
def sightings (sink : Nat) (s : Happening ρ) : List (Sighting ρ) :=
  match s.event with
  | .enter visitor => s.before.sightingOf visitor sink fun v => [v.opening]
  | .deliverReturns outcome => s.before.sightingOf .handler sink fun _ => [.answered outcome]
  | .dismissReturns visitor => s.before.sightingOf visitor sink fun _ => [.released]
  | .cancel call => s.before.sightingOf (.remover call) sink fun v => if v.inside then [.cutOff] else []
  | _ => []

/-- The sinks that the handler sets out to dismiss at its end. -/
def drained (s : Happening ρ) : List Nat :=
  match s.event with
  | .receive => if s.after.isClosing then s.before.sinks.values else []
  | _ => []

/-- The call that removes a target and is given up before it returns. -/
def givenUp (s : Happening ρ) : List CallId :=
  match s.event with
  | .cancel call => if (s.before.visitOf? (.remover call)).isSome then [call] else []
  | _ => []

end Happening

/-! ### The record of a history -/

/-- What was taken out of the queue for delivery, in order. -/
def takenOut (h : List (Happening ρ)) : List (Delivery ρ) := h.flatMap (·.taken)

/-- What the calls that remove targets took along. -/
def withdrawn (h : List (Happening ρ)) : List ρ := h.flatMap (·.withdrawn)

/-- What was dropped with the registrations of sinks that were found closed. -/
def forfeited (h : List (Happening ρ)) : List ρ := h.flatMap (·.forfeited)

/-- The fates of the resources whose transit has ended, in order. -/
def fates (h : List (Happening ρ)) : List (Fate × Delivery ρ) := h.flatMap (·.fates)

/-- What the sinks accepted, in order. -/
def acceptedBySinks (h : List (Happening ρ)) : List (Delivery ρ) :=
  ((fates h).filter (·.1 == .accepted)).map (·.2)

/-- What was taken out and then dropped, in order. -/
def lost (h : List (Happening ρ)) : List (Delivery ρ) :=
  ((fates h).filter (·.1 != .accepted)).map (·.2)

/-- What a sink has seen, in order. -/
def seen (sink : Nat) (h : List (Happening ρ)) : List (Sighting ρ) := h.flatMap (·.sightings sink)

/-- The sinks that the handler set out to dismiss at its end. -/
def drained (h : List (Happening ρ)) : List Nat := h.flatMap (·.drained)

/-- The calls that remove targets and were given up before they returned. -/
def givenUp (h : List (Happening ρ)) : List CallId := h.flatMap (·.givenUp)

section

variable (h : List (Happening ρ)) (s : Happening ρ) (sink : Nat)

theorem takenOut_snoc : takenOut (h ++ [s]) = takenOut h ++ s.taken := by
  simp only [takenOut, List.flatMap_append, List.flatMap_singleton]

theorem takenOut_snoc_nil {s : Happening ρ} (hs : s.taken = []) : takenOut (h ++ [s]) = takenOut h := by
  rw [takenOut_snoc, hs, List.append_nil]

theorem withdrawn_snoc : withdrawn (h ++ [s]) = withdrawn h ++ s.withdrawn := by
  simp only [withdrawn, List.flatMap_append, List.flatMap_singleton]

theorem forfeited_snoc : forfeited (h ++ [s]) = forfeited h ++ s.forfeited := by
  simp only [forfeited, List.flatMap_append, List.flatMap_singleton]

theorem fates_snoc : fates (h ++ [s]) = fates h ++ s.fates := by
  simp only [fates, List.flatMap_append, List.flatMap_singleton]

theorem acceptedBySinks_snoc : acceptedBySinks (h ++ [s]) = acceptedBySinks h ++
    (s.fates.filter (·.1 == .accepted)).map (·.2) := by
  rw [acceptedBySinks, fates_snoc, List.filter_append, List.map_append]
  rfl

theorem lost_snoc : lost (h ++ [s]) = lost h ++ (s.fates.filter (·.1 != .accepted)).map (·.2) := by
  rw [lost, fates_snoc, List.filter_append, List.map_append]
  rfl

theorem seen_snoc : seen sink (h ++ [s]) = seen sink h ++ s.sightings sink := by
  simp only [seen, List.flatMap_append, List.flatMap_singleton]

theorem drained_snoc : drained (h ++ [s]) = drained h ++ s.drained := by
  simp only [drained, List.flatMap_append, List.flatMap_singleton]

theorem givenUp_snoc : givenUp (h ++ [s]) = givenUp h ++ s.givenUp := by
  simp only [givenUp, List.flatMap_append, List.flatMap_singleton]

end

/-- Every fate is one that accepts or one that loses. -/
theorem length_fates (h : List (Happening ρ)) :
    (fates h).length = (acceptedBySinks h).length + (lost h).length := by
  rw [acceptedBySinks, lost, List.length_map, List.length_map]
  exact List.length_eq_length_filter_add _

end Deliverer

end Sluice
