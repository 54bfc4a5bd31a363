import Sluice.Machine.Basic
import Sluice.Proofs.Schedule

/-!
# A machine ends once

A machine asks its behaviour for the initial state, for the state that follows on an input, and tells it the state in
which it ended. `Behaviour.recorded` is a behaviour that keeps a record of these calls in its memory and is otherwise
as before, so what a machine asks and tells can be read off the memory at any time. `ends_once` says, for every
behaviour, budget and list of inputs, that the end is told once, with the state that stays, and when it comes; that
the transitions are the successful answers of the behaviour and stay within the budget; and what an input answers.

`Effect` lists what an input can do to a machine. The invariant is `Kept`: as long as the machine is active, every
answer of its behaviour was a transition, so that one more answer is within the budget, be it a refusal.
-/

namespace Sluice

/-- A call that a machine makes to its behaviour. -/
inductive BehaviourCall (σ ι : Type) where
  | initial
  | process (state : σ) (input : ι) (answer : Except MachineError σ)
  | onStop (state : σ)

namespace BehaviourCall

variable {σ ι : Type}

/-- The state in which the machine is said to have ended. -/
def stopState? : BehaviourCall σ ι → Option σ
  | onStop state => some state
  | _ => none

/-- The behaviour is asked for the next state. -/
def isAsk : BehaviourCall σ ι → Bool
  | process _ _ _ => true
  | _ => false

/-- The behaviour is asked for the next state, and there is one. -/
def isMove : BehaviourCall σ ι → Bool
  | process _ _ (.ok _) => true
  | _ => false

/-- The states in which the machine was said to have ended. -/
def stopStates (calls : List (BehaviourCall σ ι)) : List σ := calls.filterMap stopState?

/-- How often the behaviour was asked for the next state. -/
def asks (calls : List (BehaviourCall σ ι)) : Nat := calls.countP isAsk

/-- How often the behaviour gave the next state. -/
def moves (calls : List (BehaviourCall σ ι)) : Nat := calls.countP isMove

section

variable (calls new : List (BehaviourCall σ ι))

@[simp]
theorem stopStates_append : stopStates (calls ++ new) = stopStates calls ++ stopStates new :=
  List.filterMap_append

@[simp]
theorem asks_append : asks (calls ++ new) = asks calls + asks new := List.countP_append

@[simp]
theorem moves_append : moves (calls ++ new) = moves calls + moves new := List.countP_append

end

end BehaviourCall

/-- The behaviour with a record of the calls made to it. -/
def Behaviour.recorded {μ σ ι : Type} (b : Behaviour μ σ ι) :
    Behaviour (μ × List (BehaviourCall σ ι)) σ ι where
  initial m :=
    let (state, memory) := b.initial m.1
    (state, memory, m.2 ++ [.initial])
  process m state input :=
    let (answer, memory) := b.process m.1 state input
    (answer, memory, m.2 ++ [.process state input answer])
  isFinal m state := b.isFinal m.1 state
  onStop m state := (b.onStop m.1 state, m.2 ++ [.onStop state])

namespace Machine

open BehaviourCall

variable {μ σ ι : Type} {b : Behaviour μ σ ι} {m m' : Machine μ σ} {input : ι}
  {reply : Except MachineError Bool}

/-- An input is an event that can always happen. -/
def step (b : Behaviour μ σ ι) (m : Machine μ σ) (input : ι) :
    Option (Except MachineError Bool × Machine μ σ) :=
  some (m.feed b input)

/-! ### What an input can do -/

/-- The changes that an input can make, with its answer. -/
inductive Effect (b : Behaviour μ σ ι) (m : Machine μ σ) (input : ι) :
    Except MachineError Bool → Machine μ σ → Prop
  | refused : m.active = false → Effect b m input (.error .inactive) m
  /-- The budget is spent, and the behaviour is not asked. -/
  | spent :
      m.active = true → m.limit ≤ m.transitions →
      Effect b m input (.error (.transitionLimit m.limit)) (m.stop b)
  | failed {e : MachineError} {memory : μ} :
      m.active = true → m.transitions < m.limit → b.process m.memory m.state input = (.error e, memory) →
      Effect b m input (.error e) (({ m with memory } : Machine μ σ).stop b)
  | moved {next : σ} {memory : μ} :
      m.active = true → m.transitions < m.limit → b.process m.memory m.state input = (.ok next, memory) →
      b.isFinal memory next = false →
      Effect b m input (.ok true) { m with memory, state := next, transitions := m.transitions + 1 }
  /-- The next state is final. -/
  | ended {next : σ} {memory : μ} :
      m.active = true → m.transitions < m.limit → b.process m.memory m.state input = (.ok next, memory) →
      b.isFinal memory next = true →
      Effect b m input (.ok false)
        (({ m with memory, state := next, transitions := m.transitions + 1 } : Machine μ σ).stop b)

/-- Every input has one of the effects. -/
theorem feed_effect (hfeed : m.feed b input = (reply, m')) : Effect b m input reply m' := by
  simp only [feed] at hfeed
  split at hfeed
  · next hinactive =>
    cases hfeed
    exact .refused (by simpa using hinactive)
  · next hactive =>
    have hactive : m.active = true := by simpa using hactive
    split at hfeed
    · next hspent =>
      cases hfeed
      exact .spent hactive hspent
    · next hleft =>
      have hleft : m.transitions < m.limit := Nat.lt_of_not_le hleft
      split at hfeed
      · next next memory hprocess =>
        cases hfinal : b.isFinal memory next with
        | true =>
          rw [hfinal] at hfeed
          cases hfeed
          exact .ended hactive hleft hprocess hfinal
        | false =>
          have hmoved := Effect.moved hactive hleft hprocess hfinal
          rw [hfinal] at hfeed
          cases hfeed
          rw [← hactive] at hmoved
          exact hmoved
      · next e memory hprocess =>
        cases hfeed
        exact .failed hactive hleft hprocess

/-! ### The record of the calls -/

/-- The calls made so far, as the record tells. -/
def calls (m : Machine (μ × List (BehaviourCall σ ι)) σ) : List (BehaviourCall σ ι) := m.memory.2

/-- A question to the behaviour is recorded with its answer. -/
theorem record_process {r : μ × List (BehaviourCall σ ι)} {state : σ} {answer : Except MachineError σ}
    {memory : μ × List (BehaviourCall σ ι)} (hprocess : b.recorded.process r state input = (answer, memory)) :
    memory.2 = r.2 ++ [.process state input answer] := by
  obtain ⟨hanswer, hmemory⟩ := Prod.mk.inj hprocess
  rw [← hanswer, ← hmemory]

/-- The machine without the record. -/
def unrecorded (m : Machine (μ × List (BehaviourCall σ ι)) σ) : Machine μ σ :=
  ⟨m.memory.1, m.state, m.active, m.transitions, m.limit⟩

theorem unrecorded_start (b : Behaviour μ σ ι) (memory : μ) (limit : Nat) :
    ((start b.recorded (memory, [])).withLimit limit).unrecorded = (start b memory).withLimit limit := by
  cases hfinal : b.isFinal (b.initial memory).2 (b.initial memory).1 with
  | true => simp [start, withLimit, unrecorded, Behaviour.recorded, hfinal]
  | false => simp [start, withLimit, unrecorded, Behaviour.recorded, hfinal]

/-- A machine answers and moves as if there were no record. -/
theorem unrecorded_feed (b : Behaviour μ σ ι) (m : Machine (μ × List (BehaviourCall σ ι)) σ) (input : ι) :
    m.unrecorded.feed b input = ((m.feed b.recorded input).1, (m.feed b.recorded input).2.unrecorded) := by
  rcases hprocess : b.process m.memory.1 m.state input with ⟨answer, memory⟩
  simp only [feed, unrecorded, Behaviour.recorded, hprocess, stop]
  split
  · rfl
  · split
    · rfl
    · cases answer with
      | error e => rfl
      | ok next => cases hfinal : b.isFinal memory next <;> simp [hfinal]

/-- A machine goes through a list of inputs as if there were no record. -/
theorem unrecorded_run (b : Behaviour μ σ ι) (m : Machine (μ × List (BehaviourCall σ ι)) σ) (inputs : List ι) :
    Schedule.after (step b) m.unrecorded inputs = (Schedule.after (step b.recorded) m inputs).unrecorded ∧
      (Schedule.occurrences (step b) m.unrecorded inputs).map (·.reply) =
        (Schedule.occurrences (step b.recorded) m inputs).map (·.reply) := by
  induction inputs generalizing m with
  | nil => exact ⟨rfl, rfl⟩
  | cons input inputs ih =>
    obtain ⟨hafter, hreplies⟩ := ih (m.feed b.recorded input).2
    simp only [Schedule.after, Schedule.occurrences, step, unrecorded_feed, List.map_cons]
    exact ⟨hafter, congrArg _ hreplies⟩

/-! ### The invariant -/

/-- What is true of a machine and of the calls that it has made, whatever the inputs so far. -/
structure Kept (limit : Nat) (m : Machine (μ × List (BehaviourCall σ ι)) σ) : Prop where
  limit_eq : m.limit = limit
  stopStates_eq : stopStates m.calls = if m.active then [] else [m.state]
  transitions_eq : m.transitions = moves m.calls
  transitions_le : m.transitions ≤ limit
  asks_le : asks m.calls ≤ limit
  /-- The behaviour has refused nothing yet. -/
  asks_eq : m.active = true → asks m.calls = m.transitions

namespace Kept

variable {limit : Nat} {r : Machine (μ × List (BehaviourCall σ ι)) σ}

theorem start (b : Behaviour μ σ ι) (memory : μ) (limit : Nat) :
    Kept limit ((Machine.start b.recorded (memory, [])).withLimit limit) := by
  cases hfinal : b.isFinal (b.initial memory).2 (b.initial memory).1 with
  | true =>
    simp only [Machine.start, withLimit, Behaviour.recorded, hfinal]
    exact ⟨rfl, rfl, rfl, Nat.zero_le _, Nat.zero_le _, nofun⟩
  | false =>
    simp only [Machine.start, withLimit, Behaviour.recorded, hfinal]
    exact ⟨rfl, rfl, rfl, Nat.zero_le _, Nat.zero_le _, fun _ => rfl⟩

/-- The machine ends in the state that it is in, after calls that do not tell of an end. -/
theorem stop (b : Behaviour μ σ ι) (hlimit : r.limit = limit) (hstops : stopStates r.calls = [])
    (htransitions : r.transitions = moves r.calls) (hle : r.transitions ≤ limit) (hasks : asks r.calls ≤ limit) :
    Kept limit (r.stop b.recorded) where
  limit_eq := hlimit
  stopStates_eq := by
    show stopStates (r.calls ++ [.onStop r.state]) = [r.state]
    rw [stopStates_append, hstops]
    rfl
  transitions_eq := by
    show r.transitions = moves (r.calls ++ [.onStop r.state])
    rw [moves_append]
    exact htransitions
  transitions_le := hle
  asks_le := by
    show asks (r.calls ++ [.onStop r.state]) ≤ limit
    rw [asks_append]
    exact hasks
  asks_eq := nofun

/-- The behaviour gives the next state. -/
theorem move (k : Kept limit r) (hactive : r.active = true) (hleft : r.transitions < r.limit) {next : σ}
    {memory : μ × List (BehaviourCall σ ι)}
    (hprocess : b.recorded.process r.memory r.state input = (.ok next, memory)) :
    Kept limit { r with memory, state := next, transitions := r.transitions + 1 } := by
  have hlimit := k.limit_eq
  have hrecord := record_process hprocess
  have hasks : asks r.calls = r.transitions := k.asks_eq hactive
  constructor
  · exact hlimit
  · show stopStates memory.2 = if r.active then [] else [next]
    rw [hrecord, stopStates_append, if_pos hactive]
    have hstops : stopStates r.calls = [] := by rw [k.stopStates_eq, if_pos hactive]
    exact List.append_eq_nil_iff.mpr ⟨hstops, rfl⟩
  · show r.transitions + 1 = moves memory.2
    rw [hrecord, moves_append, k.transitions_eq]
    rfl
  · show r.transitions + 1 ≤ limit
    omega
  · show asks memory.2 ≤ limit
    rw [hrecord, asks_append]
    show asks r.calls + 1 ≤ limit
    omega
  · intro _
    show asks memory.2 = r.transitions + 1
    rw [hrecord, asks_append]
    exact congrArg (· + 1) hasks

/-- Every input keeps the invariant. -/
theorem effect {r' : Machine (μ × List (BehaviourCall σ ι)) σ} (k : Kept limit r)
    (e : Effect b.recorded r input reply r') : Kept limit r' := by
  have hlimit := k.limit_eq
  have hstops (hactive : r.active = true) : stopStates r.calls = [] := by
    rw [k.stopStates_eq, if_pos hactive]
  cases e with
  | refused => exact k
  | spent hactive => exact stop b hlimit (hstops hactive) k.transitions_eq k.transitions_le k.asks_le
  | @failed e memory hactive hleft hprocess =>
    have hrecord := record_process hprocess
    refine stop b hlimit ?_ ?_ k.transitions_le ?_
    · show stopStates memory.2 = []
      rw [hrecord, stopStates_append]
      exact List.append_eq_nil_iff.mpr ⟨hstops hactive, rfl⟩
    · show r.transitions = moves memory.2
      rw [hrecord, moves_append]
      exact k.transitions_eq
    · show asks memory.2 ≤ limit
      have hasks : asks r.calls = r.transitions := k.asks_eq hactive
      rw [hrecord, asks_append]
      show asks r.calls + 1 ≤ limit
      omega
  | moved hactive hleft hprocess => exact k.move hactive hleft hprocess
  | ended hactive hleft hprocess =>
    have k' := k.move hactive hleft hprocess
    have hstops' : stopStates _ = [] := k'.stopStates_eq.trans (if_pos hactive)
    exact stop b hlimit hstops' k'.transitions_eq k'.transitions_le k'.asks_le

end Kept

/-! ### The end of a machine -/

/-- What an input answers, and what it does to the machine and to the behaviour. -/
structure Answered (b : Behaviour μ σ ι) (limit : Nat)
    (s : Occurrence (Machine (μ × List (BehaviourCall σ ι)) σ) ι (Except MachineError Bool)) : Prop where
  refused : s.before.active = false → s.reply = .error .inactive ∧ s.after = s.before
  /-- The budget is spent, and the behaviour is not asked. -/
  spent : s.before.active = true → limit ≤ s.before.transitions →
    s.reply = .error (.transitionLimit limit) ∧ s.after.active = false ∧ s.after.state = s.before.state ∧
      asks s.after.calls = asks s.before.calls
  asked : s.before.active = true → s.before.transitions < limit →
    match (b.process s.before.memory.1 s.before.state s.event).1 with
    | .error e => s.reply = .error e ∧ s.after.active = false ∧ s.after.state = s.before.state
    | .ok next => s.reply = .ok s.after.active ∧ s.after.state = next
  active : s.reply = .ok true ↔ s.after.active = true

/-- The machine is active and has budget left, so the answer is that of its behaviour. -/
theorem Answered.of_asked {limit : Nat}
    {s : Occurrence (Machine (μ × List (BehaviourCall σ ι)) σ) ι (Except MachineError Bool)}
    (hactive : s.before.active = true) (hleft : s.before.transitions < limit)
    (hasked : match (b.process s.before.memory.1 s.before.state s.event).1 with
      | .error e => s.reply = .error e ∧ s.after.active = false ∧ s.after.state = s.before.state
      | .ok next => s.reply = .ok s.after.active ∧ s.after.state = next)
    (hreply : s.reply = .ok true ↔ s.after.active = true) : Answered b limit s where
  refused hinactive := by cases hinactive.symm.trans hactive
  spent _ hspent := absurd hleft (Nat.not_lt_of_le hspent)
  asked _ _ := hasked
  active := hreply

theorem Effect.answered {r r' : Machine (μ × List (BehaviourCall σ ι)) σ} {limit : Nat} (hlimit : r.limit = limit)
    (e : Effect b.recorded r input reply r') : Answered b limit ⟨r, input, reply, r'⟩ := by
  subst hlimit
  have answer_eq {answer : Except MachineError σ} {memory : μ × List (BehaviourCall σ ι)}
      (hprocess : b.recorded.process r.memory r.state input = (answer, memory)) :
      (b.process r.memory.1 r.state input).1 = answer := (Prod.mk.inj hprocess).1
  cases e with
  | refused hinactive =>
    constructor
    · exact fun _ => ⟨rfl, rfl⟩
    · exact fun hactive => by cases hinactive.symm.trans hactive
    · exact fun hactive => by cases hinactive.symm.trans hactive
    · exact iff_of_false nofun fun hactive => by cases hinactive.symm.trans hactive
  | spent hactive hspent =>
    constructor
    · exact fun hinactive => by cases hinactive.symm.trans hactive
    · intro _ _
      refine ⟨rfl, rfl, rfl, ?_⟩
      show asks (r.calls ++ [.onStop r.state]) = asks r.calls
      rw [asks_append]
      rfl
    · exact fun _ hleft => absurd hleft (Nat.not_lt_of_le hspent)
    · exact iff_of_false nofun nofun
  | failed hactive hleft hprocess =>
    refine .of_asked hactive hleft ?_ (iff_of_false nofun nofun)
    rw [answer_eq hprocess]
    exact ⟨rfl, rfl, rfl⟩
  | moved hactive hleft hprocess =>
    refine .of_asked hactive hleft ?_ (iff_of_true rfl hactive)
    rw [answer_eq hprocess]
    exact ⟨congrArg _ hactive.symm, rfl⟩
  | ended hactive hleft hprocess =>
    refine .of_asked hactive hleft ?_ (iff_of_false nofun nofun)
    rw [answer_eq hprocess]
    exact ⟨rfl, rfl⟩

/-- Whatever the behaviour, the budget and the inputs: the behaviour has been told of the end once if the machine has
ended, with the state in which it is now, and has not been told of it as long as the machine is active. The
transitions are the next states that the behaviour gave, and no more than the budget, and the behaviour was asked no
more often than that. Each input is answered as `Answered` says. All this is said of a machine that records its calls,
and apart from the record it goes through the inputs as the machine does without it. -/
theorem ends_once (b : Behaviour μ σ ι) (memory : μ) (limit : Nat) (inputs : List ι) :
    let first := (start b.recorded (memory, [])).withLimit limit
    let h := Schedule.occurrences (step b.recorded) first inputs
    let m := Schedule.after (step b.recorded) first inputs
    (stopStates m.calls = if m.active then [] else [m.state]) ∧
      (m.transitions = moves m.calls ∧ m.transitions ≤ limit ∧ asks m.calls ≤ limit) ∧
      (∀ s ∈ h, Answered b limit s) ∧
      m.unrecorded = Schedule.after (step b) ((start b memory).withLimit limit) inputs ∧
      h.map (·.reply) =
        (Schedule.occurrences (step b) ((start b memory).withLimit limit) inputs).map (·.reply) := by
  intro first h m
  obtain ⟨k, hall⟩ := Schedule.invariant (I := Kept limit) (Kept.start b memory limit)
    (fun r input reply r' k hstep => k.effect (feed_effect (Option.some.inj hstep))) inputs
  obtain ⟨hafter, hreplies⟩ := unrecorded_run b first inputs
  rw [unrecorded_start] at hafter hreplies
  refine ⟨k.stopStates_eq, ⟨k.transitions_eq, k.transitions_le, k.asks_le⟩, fun s hs => ?_, hafter.symm,
    hreplies.symm⟩
  obtain ⟨k, hstep⟩ := hall s hs
  exact (feed_effect (Option.some.inj hstep)).answered k.limit_eq

end Machine

end Sluice
