import Sluice.Worker.Channel

/-!
# What a bounded channel answers

`Offers`, `Sends` and `Resumes` list what a channel can answer to a message, to a sender that may wait and to a sender
of its line that goes on, each answer with what is known when it is given and with the channel afterwards. A message
is accepted only by an open channel, and it is the last one of `messages` then; a sender leaves the line when its
message is accepted or refused, or when it is given up. The first sender of the line never waits while there is room
(`resume_first`).
-/

namespace Sluice

namespace Channel

variable {α : Type} {c c' : Channel α} {call : CallId} {message : α} {answer : Admission}

@[simp]
theorem messages_push (c : Channel α) (message : α) :
    ({ c with queue := c.queue.push message } : Channel α).messages = c.messages ++ [message] :=
  Fifo.toList_push c.queue message

/-! ### A message is offered -/

/-- What a channel answers to a message, and the channel afterwards. -/
inductive Offers (c : Channel α) (message : α) : Admission → Channel α → Prop
  | accepted :
      c.closed = false → c.messages.length + c.waiting.length < c.capacity →
      Offers c message .accepted { c with queue := c.queue.push message }
  | full :
      c.closed = false → c.capacity ≤ c.messages.length + c.waiting.length → Offers c message .full c
  | closed : c.closed = true → Offers c message .closed c

theorem offer_spec (h : c.offer message = (answer, c')) : Offers c message answer c' := by
  simp only [offer, size_queue] at h
  split at h
  · next hclosed =>
    cases h
    exact .closed hclosed
  · next hopen =>
    split at h
    · next hroom =>
      cases h
      exact .accepted (Bool.eq_false_iff.mpr hopen) hroom
    · next hfull =>
      cases h
      exact .full (Bool.eq_false_iff.mpr hopen) (Nat.le_of_not_lt hfull)

theorem closed_of_offer (h : c.offer message = (answer, c')) : c'.closed = c.closed := by
  cases offer_spec h <;> rfl

/-- A channel that is open does not answer that it is closed. -/
theorem open_of_offer (hopen : c.closed = false) : c.offer message ≠ (.closed, c') := by
  intro h
  cases offer_spec h with
  | closed hclosed => cases hopen.symm.trans hclosed

/-- A channel that accepts a message is open and has room for it. -/
theorem room_of_offer (h : c.offer message = (.accepted, c')) :
    c.closed = false ∧ c.messages.length < c.capacity ∧ c'.capacity = c.capacity := by
  cases offer_spec h with
  | accepted hopen hroom => exact ⟨hopen, by omega, rfl⟩

/-- What a channel answers to a sender that may wait, and the channel afterwards. -/
inductive Sends (c : Channel α) (call : CallId) (message : α) : Admission → Channel α → Prop
  | accepted :
      c.closed = false → Sends c call message .accepted { c with queue := c.queue.push message }
  | full :
      c.closed = false →
      Sends c call message .full { c with waiting := c.waiting ++ [(call, message)] }
  | closed : c.closed = true → Sends c call message .closed c

theorem send_spec (h : c.send call message = (answer, c')) : Sends c call message answer c' := by
  rw [send] at h
  rcases hoffer : c.offer message with ⟨answer', next⟩
  rw [hoffer] at h
  cases offer_spec hoffer with
  | accepted hopen =>
    cases h
    exact .accepted hopen
  | full hopen =>
    cases h
    exact .full hopen
  | closed hclosed =>
    cases h
    exact .closed hclosed

/-- What a channel accepts from a sender that may wait, it accepts at once. -/
theorem offer_of_send (h : c.send call message = (.accepted, c')) : c.offer message = (.accepted, c') := by
  rw [send] at h
  rcases hoffer : c.offer message with ⟨answer', next⟩
  rw [hoffer] at h
  cases answer' with
  | accepted => exact h
  | full => cases h
  | closed => exact h

/-! ### A message is received -/

theorem receive_spec (h : c.receive = some (message, c')) : ∃ queue, c' = { c with queue } := by
  obtain ⟨⟨m, rest⟩, -, heq⟩ := Option.map_eq_some_iff.mp h
  cases heq
  exact ⟨rest, rfl⟩

theorem closed_of_receive (h : c.receive = some (message, c')) : c'.closed = c.closed := by
  obtain ⟨queue, rfl⟩ := receive_spec h
  rfl

theorem capacity_of_receive (h : c.receive = some (message, c')) : c'.capacity = c.capacity := by
  obtain ⟨queue, rfl⟩ := receive_spec h
  rfl

/-! ### A sender of the line goes on -/

/-- What is found under a number is in the list. -/
theorem mem_of_lookup {waiting : List (CallId × α)} (h : waiting.lookup call = some message) :
    (call, message) ∈ waiting := by
  obtain ⟨first, rest, hsplit, -⟩ := List.lookup_eq_some_iff.mp h
  rw [hsplit]
  exact List.mem_append_right _ List.mem_cons_self

/-- The message at the place of a sender is the one that the sender waits with. -/
theorem lookup_of_place? {waiting : List (CallId × α)} {i : Nat} {sender : CallId}
    (hplace : waiting.findIdx? (·.1 == call) = some i) (hat : waiting[i]? = some (sender, message)) :
    waiting.lookup call = some message := by
  obtain ⟨hlt, hfound, hbefore⟩ := List.findIdx?_eq_some_iff_getElem.mp hplace
  have hget : waiting[i] = (sender, message) := (List.getElem?_eq_some_iff.mp hat).2
  rw [hget] at hfound
  obtain rfl : sender = call := eq_of_beq hfound
  refine List.lookup_eq_some_iff.mpr ⟨waiting.take i, waiting.drop (i + 1), ?_, fun pair hpair => ?_⟩
  · rw [← hget, List.getElem_cons_drop, List.take_append_drop]
  · obtain ⟨j, hj, rfl⟩ := List.mem_iff_getElem.mp hpair
    rw [List.length_take] at hj
    rw [List.getElem_take]
    have hother := hbefore j (by omega)
    rw [Bool.not_eq_true, beq_eq_false_iff_ne] at hother
    exact bne_iff_ne.mpr (Ne.symm hother)

/-- What a channel answers to a sender of its line that goes on, and the channel afterwards. -/
inductive Resumes (c : Channel α) (call : CallId) : Admission → Channel α → Prop
  | accepted {message : α} :
      c.closed = false → c.waiting.lookup call = some message → c.messages.length < c.capacity →
      Resumes c call .accepted { c.withdraw call with queue := c.queue.push message }
  | closed : c.closed = true → Resumes c call .closed (c.withdraw call)

theorem resume_spec (h : c.resume call = some (answer, c')) : Resumes c call answer c' := by
  simp only [resume, size_queue] at h
  split at h
  · cases h
  · next i hplace =>
    split at h
    · next hclosed =>
      cases h
      exact .closed hclosed
    · next hopen =>
      split at h
      · next hroom =>
        split at h
        · cases h
        · next sender message hat =>
          cases h
          exact .accepted (Bool.eq_false_iff.mpr hopen) (lookup_of_place? hplace hat) (by omega)
      · cases h

/-- The first sender of the line can go on as soon as there is room. -/
theorem resume_first {rest : List (CallId × α)} (hopen : c.closed = false)
    (hroom : c.messages.length < c.capacity) (hfirst : c.waiting = (call, message) :: rest) :
    ∃ c', c.resume call = some (.accepted, c') := by
  have hplace : c.place? call = some 0 := by rw [place?, hfirst, List.findIdx?_cons]; simp
  have hat : c.waiting[0]? = some (call, message) := by rw [hfirst]; rfl
  refine ⟨{ c.withdraw call with queue := c.queue.push message }, ?_⟩
  simp only [resume, hplace, hopen, size_queue, Nat.add_zero, hroom, hat, if_true, Bool.false_eq_true, if_false]
  rfl

/-- Nothing is under way, and nobody waits for room. -/
structure Vacant (c : Channel α) : Prop where
  messages_eq : c.messages = []
  waiting_eq : c.waiting = []

theorem not_vacant_push (c : Channel α) (message : α) :
    ¬ ({ c with queue := c.queue.push message } : Channel α).Vacant := by
  rintro ⟨hmessages, -⟩
  simp at hmessages

/-- A channel that has no room is not vacant. -/
theorem not_vacant_of_full (hcapacity : 0 < c.capacity)
    (hfull : c.capacity ≤ c.messages.length + c.waiting.length) : ¬ c.Vacant := by
  rintro ⟨hmessages, hwaiting⟩
  simp only [hmessages, hwaiting, List.length_nil] at hfull
  omega

/-- A sender that is given up before there was room for it leaves others behind. -/
theorem not_vacant_withdraw (hopen : c.closed = false) (hcapacity : 0 < c.capacity) (hvacant : ¬ c.Vacant)
    (hnot : ∀ c', c.resume call ≠ some (.accepted, c')) : ¬ (c.withdraw call).Vacant := by
  rintro ⟨hmessages, hwaiting⟩
  have hnone : c.messages = [] := hmessages
  rcases hline : c.waiting with _ | ⟨⟨first, message⟩, rest⟩
  · exact hvacant ⟨hnone, hline⟩
  · by_cases hcall : first = call
    · subst hcall
      obtain ⟨c', hresume⟩ := resume_first hopen (by rw [hnone]; exact hcapacity) hline
      exact hnot c' hresume
    · rw [withdraw, hline] at hwaiting
      simp [hcall] at hwaiting

end Channel

end Sluice
