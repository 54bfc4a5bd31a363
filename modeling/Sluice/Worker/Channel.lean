import Sluice.Fifo

/-!
# Bounded channels

A `Channel` carries messages in the order in which they were accepted. A sender that finds no room
waits in line with its message. Room that becomes free belongs to the line: the sender at place `i` of
it may go on as soon as there is room for `i + 1` messages, and a newcomer finds room only beyond the
line. A closed channel accepts nothing more, from the line neither. The view is `messages`.
-/

namespace Sluice

/-- The number of a call that may have to wait. -/
abbrev CallId := Nat

/-- What became of a message that was offered. -/
inductive Admission where
  | accepted
  | full
  | closed
  deriving DecidableEq, Repr

/-- Messages under way to one receiver. -/
structure Channel (α : Type) where
  capacity : Nat
  /-- The accepted messages that are not received yet. -/
  queue : Fifo α := .empty
  /-- The senders waiting for room, with their messages, in the order of their arrival. -/
  waiting : List (CallId × α) := []
  closed : Bool := false

namespace Channel

variable {α : Type}

/-- The accepted messages that are not received yet, earliest first. -/
def messages (c : Channel α) : List α := c.queue.toList

/-- Accepts a message if there is room beyond the line. -/
def offer (c : Channel α) (message : α) : Admission × Channel α :=
  if c.closed then (.closed, c)
  else if c.queue.size + c.waiting.length < c.capacity then
    (.accepted, { c with queue := c.queue.push message })
  else (.full, c)

/-- Accepts a message if there is room, and otherwise puts the sender into the line. -/
def send (c : Channel α) (call : CallId) (message : α) : Admission × Channel α :=
  match c.offer message with
  | (.full, c) => (.full, { c with waiting := c.waiting ++ [(call, message)] })
  | answer => answer

/-- The place of a sender in the line. -/
def place? (c : Channel α) (call : CallId) : Option Nat := c.waiting.findIdx? (·.1 == call)

/-- Takes a sender out of the line, together with its message. -/
def withdraw (c : Channel α) (call : CallId) : Channel α :=
  { c with waiting := c.waiting.filter (·.1 != call) }

/-- Lets a sender of the line go on, if there is room for it or the channel is closed. -/
def resume (c : Channel α) (call : CallId) : Option (Admission × Channel α) :=
  match c.place? call with
  | none => none
  | some i =>
    if c.closed then some (.closed, c.withdraw call)
    else if c.queue.size + i < c.capacity then
      match c.waiting[i]? with
      | none => none
      | some (_, message) =>
        let rest := c.withdraw call
        some (.accepted, { rest with queue := rest.queue.push message })
    else none

/-- The first message, and the channel without it. -/
def receive (c : Channel α) : Option (α × Channel α) :=
  c.queue.pop?.map fun (message, rest) => (message, { c with queue := rest })

/-- All accepted messages, and the channel without them. -/
def drain (c : Channel α) : List α × Channel α := (c.messages, { c with queue := .empty })

/-- Accepts nothing more. -/
def close (c : Channel α) : Channel α := { c with closed := true }

/-- Closes the channel and forgets the messages in it, as its receiver does at its end. -/
def abandon (c : Channel α) : Channel α := { c with closed := true, queue := .empty }

/-! ### The messages under way -/

@[simp]
theorem size_queue (c : Channel α) : c.queue.size = c.messages.length := c.queue.size_eq_length

theorem messages_of_offer {c next : Channel α} {message : α}
    (h : c.offer message = (.accepted, next)) : next.messages = c.messages ++ [message] := by
  simp only [offer] at h
  split at h
  · simp at h
  · split at h
    · obtain ⟨-, rfl⟩ := Prod.mk.inj h
      simp [messages]
    · simp at h

theorem receive_eq_none (c : Channel α) : c.receive = none ↔ c.messages = [] := by
  simp [receive, messages, Fifo.pop?_eq_none]

theorem messages_of_receive {c next : Channel α} {message : α}
    (h : c.receive = some (message, next)) : c.messages = message :: next.messages := by
  obtain ⟨⟨m, rest⟩, hpop, heq⟩ := Option.map_eq_some_iff.mp h
  obtain ⟨rfl, rfl⟩ := Prod.mk.inj heq
  exact Fifo.toList_of_pop? hpop

@[simp]
theorem messages_abandon (c : Channel α) : c.abandon.messages = [] := rfl

end Channel

end Sluice
