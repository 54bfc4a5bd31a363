import Sluice.Limits

/-!
# State machines

A `Machine` runs a `Behaviour`: transition logic with a memory of its own. It counts the transitions
it has made, ends in a final state, at an error of its behaviour or when its budget is spent, and
tells the behaviour once, when it ends, in which state that was.
-/

namespace Sluice

/-- Why an input was refused. -/
inductive MachineError where
  | inactive
  | noTransition (state input : String)
  | transitionLimit (limit : Nat)
  | rejected (reason : String)
  deriving DecidableEq, Repr

namespace MachineError

/-- The sentence that reports the error. -/
def message : MachineError → String
  | inactive => "state machine is no longer active"
  | noTransition state input => "no transition from state " ++ state ++ " on input " ++ input
  | transitionLimit limit => "transition limit reached: " ++ toString limit
  | rejected reason => "transition failed: " ++ reason

/-- The error with its parts, for diagnostics. -/
def diagnostic : MachineError → String
  | inactive => "Inactive"
  | noTransition state input =>
    Text.record "NoTransition" [("state", Text.quoted state), ("input", Text.quoted input)]
  | transitionLimit limit => Text.record "TransitionLimit" [("max", toString limit)]
  | rejected reason => Text.record "Rejected" [("message", Text.quoted reason)]

end MachineError

/-- Transition logic over states `σ` and inputs `ι`, with a memory of type `μ`. -/
structure Behaviour (μ σ ι : Type) where
  /-- The state that a machine starts in. -/
  initial : μ → σ × μ
  /-- The state that follows a state on an input. -/
  process : μ → σ → ι → Except MachineError σ × μ
  /-- Whether a state ends the machine. -/
  isFinal : μ → σ → Bool
  /-- What the end of the machine in a state does to the memory. -/
  onStop : μ → σ → μ

/-- A running machine, or one that has ended. -/
structure Machine (μ σ : Type) where
  memory : μ
  state : σ
  active : Bool
  /-- The transitions made so far. -/
  transitions : Nat
  /-- The transitions that may be made altogether. -/
  limit : Nat

namespace Machine

variable {μ σ ι : Type}

/-- A machine in the initial state of its behaviour. It has already ended where that state is
final. -/
def start (behaviour : Behaviour μ σ ι) (memory : μ) : Machine μ σ :=
  let (state, memory) := behaviour.initial memory
  let final := behaviour.isFinal memory state
  { memory := if final then behaviour.onStop memory state else memory
    state
    active := !final
    transitions := 0
    limit := Limits.standard.maxTransitions }

/-- The machine with a budget of transitions. -/
def withLimit (m : Machine μ σ) (limit : Nat) : Machine μ σ := { m with limit }

/-- Ends the machine in its present state. -/
def stop (behaviour : Behaviour μ σ ι) (m : Machine μ σ) : Machine μ σ :=
  { m with active := false, memory := behaviour.onStop m.memory m.state }

/-- Feeds one input to the machine and tells whether it is active afterwards. -/
def feed (behaviour : Behaviour μ σ ι) (m : Machine μ σ) (input : ι) :
    Except MachineError Bool × Machine μ σ :=
  if !m.active then (.error .inactive, m)
  else if m.limit ≤ m.transitions then
    (.error (.transitionLimit m.limit), m.stop behaviour)
  else
    match behaviour.process m.memory m.state input with
    | (.ok next, memory) =>
      let moved := { m with memory, state := next, transitions := m.transitions + 1 }
      let settled := if behaviour.isFinal memory next then moved.stop behaviour else moved
      (.ok settled.active, settled)
    | (.error e, memory) => (.error e, ({ m with memory } : Machine μ σ).stop behaviour)

/-- Feeds an input up to `count` times, until one is refused. The answer is that of the last input
fed, or `last` if none was. -/
def feedTimes (behaviour : Behaviour μ σ ι) (input : ι) (last : Option (Except MachineError Bool)) :
    Nat → Machine μ σ → Option (Except MachineError Bool) × Machine μ σ
  | 0, m => (last, m)
  | count + 1, m =>
    match m.feed behaviour input with
    | (.error e, m) => (some (.error e), m)
    | (.ok active, m) => feedTimes behaviour input (some (.ok active)) count m

end Machine

end Sluice
