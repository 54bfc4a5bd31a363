import Sluice.Proofs.Fair.Plain

/-!
# Calls on fair queues

A `Call` is one use of a fair queue, and an `Answer` what it returns. A push is given the size that
the resource has at that time, so that every way of measuring resources is covered. A fair queue and a
plain one take the same calls, each at a cost function that both are given.

The `history` of a run has a `Step` for every call: the books before it, the answer, and the books
after it. `answers` forgets the books.
-/

namespace Sluice

open Fair

namespace Fair

/-- Questions that change nothing. -/
inductive Query where
  | pendingOf (target : TargetId)
  | totalPending
  | isEmpty
  | deliveredOf (target : TargetId)
  | priorityOf (target : TargetId)
  | registrationOf (target : TargetId)
  | contains (target : TargetId)
  | targetIds
  | stats
  | diagnostic

/-- One use of a queue. -/
inductive Call (ρ : Type) where
  | addTarget (target : TargetId) (priority : Number.Single)
  | removeTarget (target : TargetId)
  | setPriority (target : TargetId) (priority : Number.Single)
  | push (target : TargetId) (resource : ρ) (size : Nat)
  | peek
  | pop
  | query (question : Query)

/-- What a call returns. -/
inductive Answer (ρ : Type) where
  | registered (registration : Nat)
  | returned (resources : List ρ)
  | done
  | refused (error : DeliveryError)
  | head (next : Option (TargetId × Nat))
  | delivery (delivery : Option (Delivery ρ))
  | count (n : Option Nat)
  | flag (b : Bool)
  | priority (priority : Option Number.Single)
  | targets (ids : List TargetId)
  | stats (stats : Stats)
  | text (text : String)

/-- Whether an answer tells of no change to the books. -/
def Answer.isQuiet {ρ : Type} : Answer ρ → Bool
  | .registered _ => false
  | .returned _ => false
  | .done => false
  | .delivery (some _) => false
  | _ => true

/-- A result that may be an error as an answer, with the state that the call leaves. -/
def Answer.ofResult {ρ σ α : Type} (answer : α → Answer ρ) (s : σ) :
    Except DeliveryError (α × σ) → Answer ρ × σ
  | .ok (a, s') => (answer a, s')
  | .error e => (.refused e, s)

/-- The same for calls that return nothing. -/
def Answer.ofDone {ρ σ : Type} (s : σ) : Except DeliveryError σ → Answer ρ × σ
  | .ok s' => (.done, s')
  | .error e => (.refused e, s)

/-- A call with its answer, between the books before it and after it. -/
structure Step (ρ : Type) where
  before : PlainQueue ρ
  call : Call ρ
  answer : Answer ρ
  after : PlainQueue ρ

end Fair

namespace FairQueue

variable {ρ : Type}

/-- The answer to a question. -/
def answer (q : FairQueue ρ) : Query → Answer ρ
  | .pendingOf t => .count (q.pendingOf t)
  | .totalPending => .count (some q.pending)
  | .isEmpty => .flag q.isEmpty
  | .deliveredOf t => .count (q.deliveredOf t)
  | .priorityOf t => .priority (q.priorityOf t)
  | .registrationOf t => .count (q.registrationOf t)
  | .contains t => .flag (q.contains t)
  | .targetIds => .targets q.targetIds
  | .stats => .stats q.stats
  | .diagnostic => .text q.diagnostic

/-- What a call answers and the queue that it leaves. -/
def step (cost : Cost) (q : FairQueue ρ) : Call ρ → Answer ρ × FairQueue ρ
  | .addTarget t priority => Answer.ofResult .registered q (q.addTarget t priority)
  | .removeTarget t => Answer.ofResult .returned q (q.removeTarget t)
  | .setPriority t priority => Answer.ofDone q (q.setPriority t priority)
  | .push t resource size => Answer.ofDone q (q.pushSized t resource size)
  | .peek => q.peek.map .head id
  | .pop => (q.popWith cost).map .delivery id
  | .query question => (q.answer question, q)

section

variable (cost : Cost) {q q' : FairQueue ρ} {t : TargetId}

theorem step_addTarget {priority : Number.Single} {r : Nat} (h : q.addTarget t priority = .ok (r, q')) :
    q.step cost (.addTarget t priority) = (.registered r, q') :=
  congrArg (Answer.ofResult .registered q) h

theorem step_removeTarget {backlog : List ρ} (h : q.removeTarget t = .ok (backlog, q')) :
    q.step cost (.removeTarget t) = (.returned backlog, q') :=
  congrArg (Answer.ofResult .returned q) h

theorem step_setPriority {priority : Number.Single} (h : q.setPriority t priority = .ok q') :
    q.step cost (.setPriority t priority) = (.done, q') :=
  congrArg (Answer.ofDone q) h

theorem step_push {resource : ρ} {size : Nat} (h : q.pushSized t resource size = .ok q') :
    q.step cost (.push t resource size) = (.done, q') :=
  congrArg (Answer.ofDone q) h

theorem step_peek (q : FairQueue ρ) : q.step cost .peek = (.head q.peek.1, q.peek.2) := rfl

variable {cost}

theorem step_pop {taken : Option (Delivery ρ)} (h : q.popWith cost = (taken, q')) :
    q.step cost .pop = (.delivery taken, q') :=
  congrArg (Prod.map Answer.delivery id) h

end

/-- The queue after some calls. -/
def after (cost : Cost) (q : FairQueue ρ) (calls : List (Call ρ)) : FairQueue ρ :=
  calls.foldl (fun q call => (q.step cost call).2) q

/-- The steps of a run, with the books of the queue before and after each. -/
def history (cost : Cost) (q : FairQueue ρ) : List (Call ρ) → List (Step ρ)
  | [] => []
  | call :: calls =>
    ⟨q.plain, call, (q.step cost call).1, (q.step cost call).2.plain⟩ ::
      history cost (q.step cost call).2 calls

/-- What the calls of a run answer. -/
def answers (cost : Cost) (q : FairQueue ρ) (calls : List (Call ρ)) : List (Answer ρ) :=
  (q.history cost calls).map (·.answer)

theorem after_append (cost : Cost) (q : FairQueue ρ) (calls more : List (Call ρ)) :
    q.after cost (calls ++ more) = (q.after cost calls).after cost more :=
  List.foldl_append

theorem history_append (cost : Cost) (q : FairQueue ρ) (calls more : List (Call ρ)) :
    q.history cost (calls ++ more) =
      q.history cost calls ++ (q.after cost calls).history cost more := by
  induction calls generalizing q with
  | nil => rfl
  | cons call calls ih =>
    simp only [List.cons_append, history, ih]
    rfl

end FairQueue

namespace PlainQueue

variable {ρ : Type}

/-- The answer to a question. -/
def answer (p : PlainQueue ρ) : Query → Answer ρ
  | .pendingOf t => .count ((p.account t).map (·.backlog.length))
  | .totalPending => .count (some p.pending)
  | .isEmpty => .flag (p.pending == 0)
  | .deliveredOf t => .count ((p.account t).map (·.delivered))
  | .priorityOf t => .priority ((p.account t).map (·.priority))
  | .registrationOf t => .count ((p.account t).map (·.registration))
  | .contains t => .flag (p.account t).isSome
  | .targetIds => .targets p.ids
  | .stats => .stats p.stats
  | .diagnostic => .text p.diagnostic

/-- What a call answers and the queue that it leaves. -/
def step (cost : Cost) (p : PlainQueue ρ) : Call ρ → Answer ρ × PlainQueue ρ
  | .addTarget t priority => Answer.ofResult .registered p (p.addTarget t priority)
  | .removeTarget t => Answer.ofResult .returned p (p.removeTarget t)
  | .setPriority t priority => Answer.ofDone p (p.setPriority t priority)
  | .push t resource size => Answer.ofDone p (p.push t resource size)
  | .peek => (.head p.peek, p)
  | .pop => (p.pop cost).map .delivery id
  | .query question => (p.answer question, p)

/-- The queue after some calls. -/
def after (cost : Cost) (p : PlainQueue ρ) (calls : List (Call ρ)) : PlainQueue ρ :=
  calls.foldl (fun p call => (p.step cost call).2) p

/-- The steps of a run. -/
def history (cost : Cost) (p : PlainQueue ρ) : List (Call ρ) → List (Step ρ)
  | [] => []
  | call :: calls =>
    ⟨p, call, (p.step cost call).1, (p.step cost call).2⟩ :: history cost (p.step cost call).2 calls

/-- What the calls of a run answer. -/
def answers (cost : Cost) (p : PlainQueue ρ) (calls : List (Call ρ)) : List (Answer ρ) :=
  (p.history cost calls).map (·.answer)

end PlainQueue

end Sluice
