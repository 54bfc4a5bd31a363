import Sluice.Machine.Basic

/-!
# Transition tables

A `TransitionTable` is a behaviour given by rows. A later row for the same state and input replaces
an earlier one, groups of final states add up, and a fallback answers where no row does.
-/

namespace Sluice

/-- Rows that lead from a state and an input to the next state. -/
structure TransitionTable (σ ι : Type) where
  initial : σ
  /-- The rows, each state and input once. -/
  rows : List ((σ × ι) × σ) := []
  finals : List σ := []
  fallback : Option σ := none

namespace TransitionTable

variable {σ ι : Type} [DecidableEq σ] [DecidableEq ι]

/-- Rows with one of them set, in place of the row for the same state and input if there is one. -/
def setRow (key : σ × ι) (next : σ) : List ((σ × ι) × σ) → List ((σ × ι) × σ)
  | [] => [(key, next)]
  | row :: rest => if row.1 = key then (key, next) :: rest else row :: setRow key next rest

/-- Adds a row. -/
def on (t : TransitionTable σ ι) (state : σ) (input : ι) (next : σ) : TransitionTable σ ι :=
  { t with rows := setRow (state, input) next t.rows }

/-- Adds final states. -/
def withFinals (t : TransitionTable σ ι) (states : List σ) : TransitionTable σ ι :=
  { t with finals := t.finals ++ states }

/-- Sends every state and input without a row to a state. -/
def withFallback (t : TransitionTable σ ι) (state : σ) : TransitionTable σ ι :=
  { t with fallback := some state }

/-- The number of rows. -/
def size (t : TransitionTable σ ι) : Nat := t.rows.length

/-- Whether the table has no row. -/
def isEmpty (t : TransitionTable σ ι) : Bool := t.rows.isEmpty

/-- The state that the rows or the fallback give. -/
def next? (t : TransitionTable σ ι) (state : σ) (input : ι) : Option σ :=
  (t.rows.lookup (state, input)).or t.fallback

/-- The table as a behaviour. The table is its memory, and states and inputs without an answer are
reported as `showState` and `showInput` write them. -/
def behaviour (showState : σ → String) (showInput : ι → String) :
    Behaviour (TransitionTable σ ι) σ ι where
  initial t := (t.initial, t)
  process t state input :=
    match t.next? state input with
    | some next => (.ok next, t)
    | none => (.error (.noTransition (showState state) (showInput input)), t)
  isFinal t state := t.finals.contains state
  onStop t _ := t

end TransitionTable

end Sluice
