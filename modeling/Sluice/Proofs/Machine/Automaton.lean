import Mathlib.Data.Finset.Card
import Sluice.Machine.Table
import Sluice.Proofs.Machine.Lifecycle

/-!
# Tables mean what their rows say

A table is built by calls, each of which adds a row, a group of final states or a fallback. What the calls say can be
read off their list alone: the next state is that of the last row for the state and the input, else that of the last
fallback, and a state is final if some group names it. `Automaton.ofCalls` is the automaton that is read in this way,
and `Automaton.run` is what an automaton does with a list of inputs, said without a machine.

`means_its_rows` says that a machine over the table runs as this automaton does, whatever its budget. It is put
together from two levels. `Describes` ties a table to its calls and is kept by one call more. A machine over a
behaviour that `Follows` an automaton runs as the automaton does, by induction on the inputs, one case for each effect
of an input. Calls that have changed places where their order says nothing (`Reordered`) speak of the same automaton,
so they change no run.
-/

namespace Sluice

/-! ### Automata -/

/-- What can be seen of a machine at a time. -/
structure Standing (σ : Type) where
  state : σ
  active : Bool
  transitions : Nat

/-- Where an automaton starts, the state that follows a state on an input or why there is none, and which states end
it. -/
structure Automaton (σ ι : Type) where
  initial : σ
  next : σ → ι → Except MachineError σ
  isFinal : σ → Bool

namespace Automaton

variable {σ ι : Type}

/-- An automaton that has ended refuses every input and stays as it is. -/
def refusals (state : σ) (transitions : Nat) (inputs : List ι) : List (Except MachineError Bool × Standing σ) :=
  inputs.map fun _ => (.error .inactive, ⟨state, false, transitions⟩)

/-- What an automaton with a budget answers to inputs from a state on, with its standing after each. It ends where a
transition is refused, be it for the budget, and in a final state. -/
def answers (a : Automaton σ ι) (limit : Nat) (state : σ) (transitions : Nat) :
    List ι → List (Except MachineError Bool × Standing σ)
  | [] => []
  | input :: inputs =>
    if limit ≤ transitions then
      (.error (.transitionLimit limit), ⟨state, false, transitions⟩) :: refusals state transitions inputs
    else
      match a.next state input with
      | .error e => (.error e, ⟨state, false, transitions⟩) :: refusals state transitions inputs
      | .ok next =>
        if a.isFinal next then
          (.ok false, ⟨next, false, transitions + 1⟩) :: refusals next (transitions + 1) inputs
        else
          (.ok true, ⟨next, true, transitions + 1⟩) :: answers a limit next (transitions + 1) inputs

/-- The standing of an automaton with a budget before any input, and its answers to inputs. An automaton whose initial
state is final has ended before the first one. -/
def run (a : Automaton σ ι) (limit : Nat) (inputs : List ι) :
    Standing σ × List (Except MachineError Bool × Standing σ) :=
  if a.isFinal a.initial then (⟨a.initial, false, 0⟩, refusals a.initial 0 inputs)
  else (⟨a.initial, true, 0⟩, a.answers limit a.initial 0 inputs)

end Automaton

/-! ### Machines that run as an automaton does -/

/-- With a memory, a behaviour goes on as an automaton does and keeps the memory as it is. -/
structure Behaviour.Follows {μ σ ι : Type} (b : Behaviour μ σ ι) (memory : μ) (a : Automaton σ ι) : Prop where
  initial_eq : b.initial memory = (a.initial, memory)
  process_eq : ∀ state input, b.process memory state input = (a.next state input, memory)
  isFinal_eq : ∀ state, b.isFinal memory state = a.isFinal state

namespace Machine

variable {μ σ ι : Type} {b : Behaviour μ σ ι} {memory : μ} {a : Automaton σ ι}

/-- What can be seen of a machine. -/
def standing (m : Machine μ σ) : Standing σ := ⟨m.state, m.active, m.transitions⟩

/-- What a machine answers to inputs, with its standing after each. -/
def answers (b : Behaviour μ σ ι) (m : Machine μ σ) (inputs : List ι) :
    List (Except MachineError Bool × Standing σ) :=
  (Schedule.occurrences (step b) m inputs).map fun o => (o.reply, o.after.standing)

/-- The standing of a machine with a budget before any input, and its answers to inputs. -/
def run (b : Behaviour μ σ ι) (memory : μ) (limit : Nat) (inputs : List ι) :
    Standing σ × List (Except MachineError Bool × Standing σ) :=
  (((start b memory).withLimit limit).standing, ((start b memory).withLimit limit).answers b inputs)

theorem answers_cons (b : Behaviour μ σ ι) (m : Machine μ σ) (input : ι) (inputs : List ι) :
    m.answers b (input :: inputs) =
      ((m.feed b input).1, (m.feed b input).2.standing) :: (m.feed b input).2.answers b inputs := rfl

/-- A machine that has ended refuses every input. -/
theorem answers_inactive (b : Behaviour μ σ ι) {m : Machine μ σ} (hactive : m.active = false) (inputs : List ι) :
    m.answers b inputs = Automaton.refusals m.state m.transitions inputs := by
  induction inputs with
  | nil => rfl
  | cons input inputs ih =>
    have hfeed : m.feed b input = (.error .inactive, m) := by
      rw [feed, hactive]
      rfl
    rw [answers_cons, hfeed, ih, standing, hactive]
    rfl

/-- A machine that is active answers as the automaton does from the state in which the machine is. -/
theorem answers_active (f : b.Follows memory a) {m : Machine μ σ} (hmemory : m.memory = memory)
    (hactive : m.active = true) (inputs : List ι) :
    m.answers b inputs = a.answers m.limit m.state m.transitions inputs := by
  induction inputs generalizing m with
  | nil => rfl
  | cons input inputs ih =>
    subst hmemory
    rw [answers_cons, Automaton.answers]
    rcases hfeed : m.feed b input with ⟨reply, m'⟩
    cases feed_effect hfeed with
    | refused hinactive => cases hinactive.symm.trans hactive
    | spent _ hspent =>
      rw [if_pos hspent]
      exact congrArg _ (answers_inactive b rfl inputs)
    | failed _ hleft hprocess =>
      obtain ⟨hnext, rfl⟩ := Prod.mk.inj ((f.process_eq m.state input).symm.trans hprocess)
      rw [if_neg (Nat.not_le_of_lt hleft), hnext]
      exact congrArg _ (answers_inactive b rfl inputs)
    | moved _ hleft hprocess hfinal =>
      obtain ⟨hnext, rfl⟩ := Prod.mk.inj ((f.process_eq m.state input).symm.trans hprocess)
      rw [f.isFinal_eq] at hfinal
      rw [if_neg (Nat.not_le_of_lt hleft), hnext]
      simp only [hfinal]
      rw [standing, hactive]
      exact congrArg _ (ih rfl rfl)
    | ended _ hleft hprocess hfinal =>
      obtain ⟨hnext, rfl⟩ := Prod.mk.inj ((f.process_eq m.state input).symm.trans hprocess)
      rw [f.isFinal_eq] at hfinal
      rw [if_neg (Nat.not_le_of_lt hleft), hnext]
      simp only [hfinal]
      exact congrArg _ (answers_inactive b rfl inputs)

/-- A machine over a behaviour that follows an automaton runs as the automaton does. -/
theorem run_eq (f : b.Follows memory a) (limit : Nat) (inputs : List ι) :
    run b memory limit inputs = a.run limit inputs := by
  have hstart : start b memory =
      { memory := if a.isFinal a.initial then b.onStop memory a.initial else memory
        state := a.initial
        active := !a.isFinal a.initial
        transitions := 0
        limit := Limits.standard.maxTransitions } := by
    simp only [start, f.initial_eq, f.isFinal_eq]
  rw [run, Automaton.run, hstart]
  cases hfinal : a.isFinal a.initial with
  | true => exact congrArg _ (answers_inactive b rfl inputs)
  | false => exact congrArg _ (answers_active f rfl rfl inputs)

end Machine

/-! ### Calls that build a table -/

/-- A call that adds to a table. -/
inductive TableCall (σ ι : Type) where
  | on (state : σ) (input : ι) (next : σ)
  | finals (states : List σ)
  | fallback (state : σ)

namespace TableCall

variable {σ ι : Type} {calls calls' : List (TableCall σ ι)}

/-- The state and the input that a row is for. -/
def pair? : TableCall σ ι → Option (σ × ι)
  | on state input _ => some (state, input)
  | _ => none

/-- The state that a fallback leads to. -/
def fallback? : TableCall σ ι → Option σ
  | fallback state => some state
  | _ => none

/-- The states that a group of final states names. -/
def named : TableCall σ ι → List σ
  | finals states => states
  | _ => []

/-- The states and inputs that have a row, as often as they have one. -/
def pairs (calls : List (TableCall σ ι)) : List (σ × ι) := calls.filterMap pair?

/-- The states that the fallbacks lead to, in order. -/
def fallbacks (calls : List (TableCall σ ι)) : List σ := calls.filterMap fallback?

/-- The final states of all groups. -/
def finalStates (calls : List (TableCall σ ι)) : List σ := calls.flatMap named

/-- Whether the order of two calls says nothing: they are not rows for the same state and input, nor two fallbacks. -/
def Independent : TableCall σ ι → TableCall σ ι → Prop
  | on state input _, on state' input' _ => (state, input) ≠ (state', input')
  | fallback _, fallback _ => False
  | _, _ => True

/-- The second calls are the first ones after independent neighbours have changed places, any number of times. -/
inductive Reordered : List (TableCall σ ι) → List (TableCall σ ι) → Prop
  | refl (calls : List (TableCall σ ι)) : Reordered calls calls
  | swap {a b : TableCall σ ι} {calls : List (TableCall σ ι)} (front rest : List (TableCall σ ι)) :
      Independent a b → Reordered (front ++ b :: a :: rest) calls → Reordered (front ++ a :: b :: rest) calls

theorem Reordered.perm (h : Reordered calls calls') : calls.Perm calls' := by
  induction h with
  | refl => exact .refl _
  | swap front rest _ _ ih => exact (List.Perm.append_left front (.swap _ _ rest)).trans ih

/-- What only one of two independent calls has is read off the calls in the same order. -/
theorem Reordered.filterMap_eq {α : Type} {f : TableCall σ ι → Option α}
    (hf : ∀ {a b}, Independent a b → f a = none ∨ f b = none) (h : Reordered calls calls') :
    calls.filterMap f = calls'.filterMap f := by
  induction h with
  | refl => rfl
  | swap front rest hindependent _ ih =>
    rw [← ih, List.filterMap_append, List.filterMap_append]
    rcases hf hindependent with hnone | hnone
    · simp only [List.filterMap_cons, hnone]
    · simp only [List.filterMap_cons, hnone]

theorem Reordered.mem_finalStates (h : Reordered calls calls') {state : σ} :
    state ∈ finalStates calls ↔ state ∈ finalStates calls' :=
  (h.perm.flatMap_right named).mem_iff

theorem Reordered.fallbacks_eq (h : Reordered calls calls') : fallbacks calls = fallbacks calls' := by
  refine h.filterMap_eq fun {a b} hindependent => ?_
  cases a with
  | fallback state =>
    cases b with
    | fallback state' => exact hindependent.elim
    | _ => exact .inr rfl
  | _ => exact .inl rfl

section

variable (calls : List (TableCall σ ι)) (call : TableCall σ ι)

theorem pairs_snoc : pairs (calls ++ [call]) = pairs calls ++ (pair? call).toList := by
  rw [pairs, List.filterMap_append, List.filterMap_cons]
  cases call.pair? with
  | none => rfl
  | some pair => rfl

theorem finalStates_snoc : finalStates (calls ++ [call]) = finalStates calls ++ named call := by
  rw [finalStates, List.flatMap_append, List.flatMap_singleton]
  rfl

/-- Of what is read off the calls one by one, the last call that has it comes last. -/
theorem getLast?_filterMap_snoc {α : Type} (f : TableCall σ ι → Option α) :
    ((calls ++ [call]).filterMap f).getLast? = (f call).or (calls.filterMap f).getLast? := by
  rw [List.filterMap_append, List.getLast?_append, List.filterMap_cons]
  cases f call with
  | none => rfl
  | some a => rfl

theorem getLast?_fallbacks_snoc :
    (fallbacks (calls ++ [call])).getLast? = (fallback? call).or (fallbacks calls).getLast? :=
  getLast?_filterMap_snoc calls call fallback?

end

variable [DecidableEq σ] [DecidableEq ι]

/-- The state that a call leads to from a state on an input, if it is a row for them. -/
def next? (state : σ) (input : ι) : TableCall σ ι → Option σ
  | on state' input' next => if (state', input') = (state, input) then some next else none
  | _ => none

/-- The states that the rows for a state and an input lead to, in order. -/
def nexts (calls : List (TableCall σ ι)) (state : σ) (input : ι) : List σ := calls.filterMap (next? state input)

theorem getLast?_nexts_snoc (calls : List (TableCall σ ι)) (call : TableCall σ ι) (state : σ) (input : ι) :
    (nexts (calls ++ [call]) state input).getLast? = (next? state input call).or (nexts calls state input).getLast? :=
  getLast?_filterMap_snoc calls call (next? state input)

theorem Reordered.nexts_eq (h : Reordered calls calls') (state : σ) (input : ι) :
    nexts calls state input = nexts calls' state input := by
  refine h.filterMap_eq fun {a b} hindependent => ?_
  cases a with
  | on s i next =>
    cases b with
    | on s' i' next' =>
      by_cases hpair : (s, i) = (state, input)
      · exact .inr (if_neg fun hpair' => hindependent (hpair.trans hpair'.symm))
      · exact .inl (if_neg hpair)
    | _ => exact .inr rfl
  | _ => exact .inl rfl

end TableCall

variable {σ ι : Type} [DecidableEq σ] [DecidableEq ι]

/-- The automaton that calls speak of. -/
def Automaton.ofCalls (showState : σ → String) (showInput : ι → String) (initial : σ)
    (calls : List (TableCall σ ι)) : Automaton σ ι where
  initial
  next state input :=
    match (TableCall.nexts calls state input).getLast?.or (TableCall.fallbacks calls).getLast? with
    | some next => .ok next
    | none => .error (.noTransition (showState state) (showInput input))
  isFinal state := decide (state ∈ TableCall.finalStates calls)

/-- Calls in another order speak of the same automaton. -/
theorem Automaton.ofCalls_reordered {calls calls' : List (TableCall σ ι)} (h : TableCall.Reordered calls calls')
    (showState : σ → String) (showInput : ι → String) (initial : σ) :
    ofCalls showState showInput initial calls' = ofCalls showState showInput initial calls := by
  simp only [ofCalls, h.nexts_eq, h.fallbacks_eq, h.mem_finalStates]

namespace TransitionTable

/-- The table after a call. -/
def add (t : TransitionTable σ ι) : TableCall σ ι → TransitionTable σ ι
  | .on state input next => t.on state input next
  | .finals states => t.withFinals states
  | .fallback state => t.withFallback state

/-- The table that calls build. -/
def ofCalls (initial : σ) (calls : List (TableCall σ ι)) : TransitionTable σ ι := calls.foldl add { initial }

/-! ### What the calls leave in the table -/

/-- The first row is found by its key. -/
theorem lookup_cons (key key' : σ × ι) (next : σ) (rows : List ((σ × ι) × σ)) :
    ((key, next) :: rows).lookup key' = if key' = key then some next else rows.lookup key' := by
  rw [List.lookup_cons]
  by_cases h : key' = key
  · rw [beq_iff_eq.mpr h, if_pos h]
  · rw [beq_eq_false_iff_ne.mpr h, if_neg h]

/-- The row that is set is found, and the others are found as before. -/
theorem lookup_setRow (key key' : σ × ι) (next : σ) (rows : List ((σ × ι) × σ)) :
    (setRow key next rows).lookup key' = if key' = key then some next else rows.lookup key' := by
  induction rows with
  | nil => exact lookup_cons key key' next []
  | cons row rest ih =>
    obtain ⟨k, n⟩ := row
    by_cases hk : k = key
    · rw [setRow, if_pos hk, lookup_cons, lookup_cons, hk]
      by_cases h : key' = key
      · rw [if_pos h, if_pos h]
      · rw [if_neg h, if_neg h, if_neg h]
    · rw [setRow, if_neg hk, lookup_cons, lookup_cons, ih]
      by_cases h : key' = k
      · rw [if_pos h, if_pos h, if_neg (h ▸ hk)]
      · rw [if_neg h, if_neg h]

/-- A row that is set takes the place of the one with the same key, or comes last. -/
theorem keys_setRow (key : σ × ι) (next : σ) (rows : List ((σ × ι) × σ)) :
    (setRow key next rows).map Prod.fst =
      if key ∈ rows.map Prod.fst then rows.map Prod.fst else rows.map Prod.fst ++ [key] := by
  induction rows with
  | nil => rfl
  | cons row rest ih =>
    obtain ⟨k, n⟩ := row
    by_cases hk : k = key
    · simp [setRow, hk]
    · simp only [setRow, hk, if_false, List.map_cons, ih, List.mem_cons, Ne.symm hk, false_or]
      split <;> rfl

/-- The table holds what the calls say. -/
structure Describes (initial : σ) (calls : List (TableCall σ ι)) (t : TransitionTable σ ι) : Prop where
  initial_eq : t.initial = initial
  lookup_eq : ∀ state input, t.rows.lookup (state, input) = (TableCall.nexts calls state input).getLast?
  fallback_eq : t.fallback = (TableCall.fallbacks calls).getLast?
  mem_finals : ∀ state, state ∈ t.finals ↔ state ∈ TableCall.finalStates calls
  nodup_keys : (t.rows.map Prod.fst).Nodup
  mem_keys : ∀ key, key ∈ t.rows.map Prod.fst ↔ key ∈ TableCall.pairs calls

namespace Describes

variable {initial : σ} {calls : List (TableCall σ ι)} {t : TransitionTable σ ι}

theorem empty (initial : σ) : Describes initial [] ({ initial } : TransitionTable σ ι) where
  initial_eq := rfl
  lookup_eq _ _ := rfl
  fallback_eq := rfl
  mem_finals _ := Iff.rfl
  nodup_keys := List.nodup_nil
  mem_keys _ := Iff.rfl

/-- One call more is described by the table after it. -/
theorem add (d : Describes initial calls t) (call : TableCall σ ι) :
    Describes initial (calls ++ [call]) (t.add call) := by
  cases call with
  | on state input next =>
    refine ⟨d.initial_eq, fun s i => ?_, ?_, fun s => ?_, ?_, fun key => ?_⟩
    · rw [TableCall.getLast?_nexts_snoc, ← d.lookup_eq]
      show (setRow (state, input) next t.rows).lookup (s, i) = _
      rw [lookup_setRow, TableCall.next?]
      by_cases h : (s, i) = (state, input)
      · rw [if_pos h, if_pos h.symm, Option.some_or]
      · rw [if_neg h, if_neg (Ne.symm h), Option.none_or]
    · rw [TableCall.getLast?_fallbacks_snoc]
      exact d.fallback_eq
    · simp only [TableCall.finalStates_snoc, TableCall.named, List.append_nil]
      exact d.mem_finals s
    · show ((setRow (state, input) next t.rows).map Prod.fst).Nodup
      rw [keys_setRow]
      split
      · exact d.nodup_keys
      · next hnew => exact List.nodup_append_comm.mp (List.nodup_cons.mpr ⟨hnew, d.nodup_keys⟩)
    · show key ∈ (setRow (state, input) next t.rows).map Prod.fst ↔ _
      rw [keys_setRow, TableCall.pairs_snoc, List.mem_append, ← d.mem_keys]
      split
      · next hold =>
        refine ⟨.inl, fun h => h.elim id fun hkey => ?_⟩
        rw [List.mem_singleton.mp hkey]
        exact hold
      · exact List.mem_append
  | finals states =>
    refine ⟨d.initial_eq, fun s i => ?_, ?_, fun s => ?_, d.nodup_keys, fun key => ?_⟩
    · rw [TableCall.getLast?_nexts_snoc]
      exact d.lookup_eq s i
    · rw [TableCall.getLast?_fallbacks_snoc]
      exact d.fallback_eq
    · rw [TableCall.finalStates_snoc, List.mem_append, ← d.mem_finals]
      exact List.mem_append
    · simp only [TableCall.pairs_snoc, TableCall.pair?, Option.toList_none, List.append_nil]
      exact d.mem_keys key
  | fallback state =>
    refine ⟨d.initial_eq, fun s i => ?_, ?_, fun s => ?_, d.nodup_keys, fun key => ?_⟩
    · rw [TableCall.getLast?_nexts_snoc]
      exact d.lookup_eq s i
    · rw [TableCall.getLast?_fallbacks_snoc]
      rfl
    · simp only [TableCall.finalStates_snoc, TableCall.named, List.append_nil]
      exact d.mem_finals s
    · simp only [TableCall.pairs_snoc, TableCall.pair?, Option.toList_none, List.append_nil]
      exact d.mem_keys key

theorem ofCalls (initial : σ) (calls : List (TableCall σ ι)) : Describes initial calls (ofCalls initial calls) := by
  induction calls using List.reverseRecOn with
  | nil => exact .empty initial
  | append_singleton calls call ih =>
    rw [TransitionTable.ofCalls, List.foldl_concat]
    exact ih.add call

/-- The rows are as many as the states and inputs that have one. -/
theorem size_eq (d : Describes initial calls t) : t.size = (TableCall.pairs calls).toFinset.card := by
  have hkeys : (TableCall.pairs calls).toFinset = (t.rows.map Prod.fst).toFinset := by
    ext key
    rw [List.mem_toFinset, List.mem_toFinset, d.mem_keys]
  rw [hkeys, List.toFinset_card_of_nodup d.nodup_keys, List.length_map]
  rfl

/-- The table goes on as the automaton that the calls speak of. -/
theorem follows (d : Describes initial calls t) (showState : σ → String) (showInput : ι → String) :
    (behaviour showState showInput).Follows t (Automaton.ofCalls showState showInput initial calls) where
  initial_eq := congrArg (·, t) d.initial_eq
  process_eq state input := by
    simp only [behaviour, TransitionTable.next?, Automaton.ofCalls, d.lookup_eq, d.fallback_eq]
    cases (TableCall.nexts calls state input).getLast?.or (TableCall.fallbacks calls).getLast? with
    | none => rfl
    | some next => rfl
  isFinal_eq state := by
    show t.finals.contains state = decide (state ∈ TableCall.finalStates calls)
    rw [List.contains_eq_mem]
    exact decide_eq_decide.mpr (d.mem_finals state)

end Describes

/-- **Tables mean what their rows say.** Whatever the calls that build a table, a machine over it runs as the automaton
that the calls speak of, with the same results, standings and texts of errors, for every budget and every list of
inputs. So calls that change places where their order says nothing change no run. The size of the table is the number
of different states and inputs that the rows are for. -/
theorem means_its_rows (showState : σ → String) (showInput : ι → String) (initial : σ)
    (calls : List (TableCall σ ι)) :
    (∀ limit inputs, Machine.run (behaviour showState showInput) (ofCalls initial calls) limit inputs =
      (Automaton.ofCalls showState showInput initial calls).run limit inputs) ∧
    (∀ calls', TableCall.Reordered calls calls' → ∀ limit inputs,
      Machine.run (behaviour showState showInput) (ofCalls initial calls') limit inputs =
        Machine.run (behaviour showState showInput) (ofCalls initial calls) limit inputs) ∧
    (ofCalls initial calls).size = (TableCall.pairs calls).toFinset.card := by
  have hruns (calls : List (TableCall σ ι)) (limit : Nat) (inputs : List ι) :
      Machine.run (behaviour showState showInput) (ofCalls initial calls) limit inputs =
        (Automaton.ofCalls showState showInput initial calls).run limit inputs :=
    Machine.run_eq ((Describes.ofCalls initial calls).follows showState showInput) limit inputs
  refine ⟨hruns calls, fun calls' hreordered limit inputs => ?_, (Describes.ofCalls initial calls).size_eq⟩
  rw [hruns, hruns, Automaton.ofCalls_reordered hreordered]

/-- Calls for a door: one row and one fallback are replaced, and the state of the locked door is final. -/
def door : List (TableCall Nat Char) :=
  [.on 0 'o' 2, .finals [2], .on 1 'c' 0, .fallback 3, .on 0 'o' 1, .fallback 2]

/-- The same calls, with the row for the open door first and the fallbacks last. -/
def doorReordered : List (TableCall Nat Char) :=
  [.on 1 'c' 0, .on 0 'o' 2, .finals [2], .on 0 'o' 1, .fallback 3, .fallback 2]

theorem means_its_rows_door :
    TableCall.Reordered door doorReordered ∧
    ∀ limit inputs, Machine.run (behaviour toString Char.quote) (ofCalls 0 doorReordered) limit inputs =
      Machine.run (behaviour toString Char.quote) (ofCalls 0 door) limit inputs := by
  have hreordered : TableCall.Reordered door doorReordered := by
    refine .swap [.on 0 'o' 2] [.fallback 3, .on 0 'o' 1, .fallback 2] trivial ?_
    have hrows : ((0, 'o') : Nat × Char) ≠ (1, 'c') := by decide
    refine .swap [] [.finals [2], .fallback 3, .on 0 'o' 1, .fallback 2] hrows ?_
    refine .swap [.on 1 'c' 0, .on 0 'o' 2, .finals [2]] [.fallback 2] trivial ?_
    exact .refl _
  exact ⟨hreordered, (means_its_rows toString Char.quote 0 door).2.1 doorReordered hreordered⟩

example : Machine.run (behaviour toString Char.quote) (ofCalls 0 door) 9 ['o', 'c', 'x', 'o'] =
    (⟨0, true, 0⟩, [(.ok true, ⟨1, true, 1⟩), (.ok true, ⟨0, true, 2⟩), (.ok false, ⟨2, false, 3⟩),
      (.error .inactive, ⟨2, false, 3⟩)]) := rfl

end TransitionTable

end Sluice
