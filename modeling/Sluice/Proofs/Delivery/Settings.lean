import Sluice.Delivery.Deliverer

/-!
# Which settings a deliverer can be built from

Settings are checked by themselves, and again by the parts of the deliverer that is built from them. The check is
passed exactly by settings that are `Proper`: nothing in them is zero that must not be. The limiter and the fair queue
ask for no more than that, but the processor does: its channel may have room for so many messages and no more. So the
check lets settings pass that no deliverer can be built from, and `agrees_with_validate_iff` says that there are no
others on which the check and the construction differ.
-/

namespace Sluice

namespace DelivererSettings

variable {s : DelivererSettings}

/-- Settings in which nothing is zero that must not be. -/
structure Proper (s : DelivererSettings) : Prop where
  window : 0 < s.window
  speedLimit : s.speedLimit ≠ some 0
  maxTargets : 0 < s.maxTargets
  maxBacklog : 0 < s.maxBacklog
  capacity : 0 < s.capacity

/-- A check that reports a fault if something is the case, and goes on otherwise. -/
theorem error_if_eq_ok_iff {p : Prop} [Decidable p] {fault : DeliveryError} {rest : Except DeliveryError Unit} :
    (if p then .error fault else rest) = .ok () ↔ ¬ p ∧ rest = .ok () := by
  by_cases h : p
  · rw [if_pos h]
    exact iff_of_false nofun fun hnot => hnot.1 h
  · rw [if_neg h]
    exact ⟨fun hrest => ⟨h, hrest⟩, fun hrest => hrest.2⟩

theorem validate_limiter_iff : s.limiter.validate = .ok () ↔ 0 < s.window ∧ s.speedLimit ≠ some 0 := by
  rw [LimiterSettings.validate, error_if_eq_ok_iff, error_if_eq_ok_iff, Nat.pos_iff_ne_zero]
  exact ⟨fun h => ⟨h.1, h.2.1⟩, fun h => ⟨h.1, h.2, rfl⟩⟩

theorem validate_queue_iff : s.queue.validate = .ok () ↔ 0 < s.maxTargets ∧ 0 < s.maxBacklog := by
  rw [FairSettings.validate, error_if_eq_ok_iff, error_if_eq_ok_iff, Nat.pos_iff_ne_zero, Nat.pos_iff_ne_zero]
  exact ⟨fun h => ⟨h.1, h.2.1⟩, fun h => ⟨h.1, h.2, rfl⟩⟩

/-- The check is passed when the parts pass theirs and there is some room. -/
theorem validate_eq_ok_iff_parts :
    s.validate = .ok () ↔ s.limiter.validate = .ok () ∧ s.queue.validate = .ok () ∧ 0 < s.capacity := by
  rw [validate, Nat.pos_iff_ne_zero]
  cases s.limiter.validate with
  | error e => exact iff_of_false nofun fun h => nomatch h.1
  | ok =>
    cases s.queue.validate with
    | error e => exact iff_of_false nofun fun h => nomatch h.2.1
    | ok =>
      exact error_if_eq_ok_iff.trans ⟨fun h => ⟨rfl, rfl, h.1⟩, fun h => ⟨h.2.2, rfl⟩⟩

/-- The check is passed by proper settings and by no others. -/
theorem validate_eq_ok_iff : s.validate = .ok () ↔ s.Proper := by
  rw [validate_eq_ok_iff_parts, validate_limiter_iff, validate_queue_iff]
  exact ⟨fun ⟨⟨hwindow, hlimit⟩, ⟨htargets, hbacklog⟩, hcapacity⟩ =>
      ⟨hwindow, hlimit, htargets, hbacklog, hcapacity⟩,
    fun h => ⟨⟨h.window, h.speedLimit⟩, ⟨h.maxTargets, h.maxBacklog⟩, h.capacity⟩⟩

end DelivererSettings

namespace Deliverer

variable {ρ : Type} {s : DelivererSettings}

/-- The construction reports what the check finds. -/
theorem ofSettings?_of_invalid {e : DeliveryError} (h : s.validate = .error e) :
    (ofSettings? s : Except DeliveryError (Deliverer ρ)) = .error e := by
  rw [ofSettings?, h]

/-- What becomes of proper settings is up to the room in the channel. -/
theorem ofSettings?_of_proper (h : s.Proper) :
    (ofSettings? s : Except DeliveryError (Deliverer ρ)) =
      if s.capacity ≤ Limits.standard.maxPendingMessages then .ok (ofSettings s)
      else .error (.invalidConfig "queue_capacity exceeds the limit of 1024") := by
  have hnonzero : ¬ s.capacity = 0 := Nat.ne_of_gt h.capacity
  rw [ofSettings?, DelivererSettings.validate_eq_ok_iff.mpr h]
  simp only [ProcessorSettings.validate, hnonzero, ↓reduceIte]
  by_cases hroom : s.capacity ≤ Limits.standard.maxPendingMessages
  · rw [if_neg (Nat.not_lt.mpr hroom), if_pos hroom]
  · rw [if_pos (Nat.lt_of_not_le hroom), if_neg hroom]
    rfl

/-- **What passes the check can be built, but for too much room.** The check and the construction agree on whether
settings are accepted, and on the fault otherwise, for all settings but those that are proper and ask for more room in
the channel than a processor may have. In any case the construction fails with the fault that the check finds; the
limiter and the queue accept what passes the check; and settings that ask for too much room pass the check and are
refused by the construction. -/
theorem agrees_with_validate_iff (s : DelivererSettings) :
    (((ofSettings? s : Except DeliveryError (Deliverer ρ)).map fun _ => ()) = s.validate ↔
      ¬ (s.Proper ∧ Limits.standard.maxPendingMessages < s.capacity)) ∧
    (s.validate = .ok () ↔ s.Proper) ∧
    (∀ e, s.validate = .error e → (ofSettings? s : Except DeliveryError (Deliverer ρ)) = .error e) ∧
    (s.validate = .ok () →
      Limiter.ofSettings? s.limiter = .ok (.ofSettings s.limiter) ∧ s.queue.validate = .ok ()) ∧
    (s.Proper → Limits.standard.maxPendingMessages < s.capacity →
      (ofSettings? s : Except DeliveryError (Deliverer ρ)) =
        .error (.invalidConfig "queue_capacity exceeds the limit of 1024")) := by
  have hrefused : s.Proper → Limits.standard.maxPendingMessages < s.capacity →
      (ofSettings? s : Except DeliveryError (Deliverer ρ)) =
        .error (.invalidConfig "queue_capacity exceeds the limit of 1024") := by
    intro hproper hroomy
    rw [ofSettings?_of_proper hproper, if_neg (Nat.not_le.mpr hroomy)]
  refine ⟨⟨?_, ?_⟩, DelivererSettings.validate_eq_ok_iff, fun e => ofSettings?_of_invalid, fun hvalid => ?_,
    hrefused⟩
  · rintro hagree ⟨hproper, hroomy⟩
    rw [hrefused hproper hroomy, DelivererSettings.validate_eq_ok_iff.mpr hproper] at hagree
    cases hagree
  · intro hnot
    cases hcheck : s.validate with
    | error e =>
      rw [ofSettings?_of_invalid hcheck]
      rfl
    | ok =>
      have hproper := DelivererSettings.validate_eq_ok_iff.mp hcheck
      rw [ofSettings?_of_proper hproper, if_pos (Nat.not_lt.mp fun hroomy => hnot ⟨hproper, hroomy⟩)]
      rfl
  · have hproper := DelivererSettings.validate_eq_ok_iff.mp hvalid
    rw [Limiter.ofSettings?, DelivererSettings.validate_limiter_iff.mpr ⟨hproper.window, hproper.speedLimit⟩]
    exact ⟨rfl, DelivererSettings.validate_queue_iff.mpr ⟨hproper.maxTargets, hproper.maxBacklog⟩⟩

/-- Small settings with room for some number of resources between the reader and the handler. -/
def roomy (capacity : Nat) : DelivererSettings := { DelivererSettings.small with capacity }

/-- With as much room as a processor may have the check and the construction agree, and with more they do not. -/
theorem agrees_with_validate_iff_roomy :
    (roomy 1024).Proper ∧
      ((ofSettings? (roomy 1024) : Except DeliveryError (Deliverer (List UInt8))).map fun _ => ()) =
        (roomy 1024).validate ∧
      (roomy 1025).Proper ∧
      (ofSettings? (roomy 1025) : Except DeliveryError (Deliverer (List UInt8))) =
        .error (.invalidConfig "queue_capacity exceeds the limit of 1024") := by
  have hproper : ∀ capacity, 0 < capacity → (roomy capacity).Proper := fun capacity hcapacity =>
    ⟨Nat.succ_pos _, nofun, Nat.succ_pos _, Nat.succ_pos _, hcapacity⟩
  obtain ⟨hagree, -⟩ := agrees_with_validate_iff (ρ := List UInt8) (roomy 1024)
  obtain ⟨-, -, -, -, hrefused⟩ := agrees_with_validate_iff (ρ := List UInt8) (roomy 1025)
  exact ⟨hproper 1024 (by decide), hagree.mpr fun h => absurd h.2 (by decide), hproper 1025 (by decide),
    hrefused (hproper 1025 (by decide)) (by decide)⟩

/-- There are settings that pass the check and that no deliverer can be built from. -/
theorem refused_roomy :
    ¬ ∀ s : DelivererSettings,
      (∃ d, (ofSettings? s : Except DeliveryError (Deliverer (List UInt8))) = .ok d) ↔ s.validate = .ok () := by
  intro hagree
  have hvalid : (roomy 1025).validate = .ok () := rfl
  obtain ⟨d, hd⟩ := (hagree (roomy 1025)).mpr hvalid
  have hrefused : (ofSettings? (roomy 1025) : Except DeliveryError (Deliverer (List UInt8))) =
      .error (.invalidConfig "queue_capacity exceeds the limit of 1024") := rfl
  cases hrefused.symm.trans hd

end Deliverer

end Sluice
