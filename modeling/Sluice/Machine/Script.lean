import Sluice.Machine.Basic

/-!
# Scripted behaviours

A behaviour over texts that follows a list of rules and keeps a log of what it was asked.
-/

namespace Sluice

/-- A rule: what to answer to a state and an input. -/
structure ScriptRule where
  state : String
  input : String
  answer : Except MachineError String

/-- Rules, with the log of the calls made so far, the latest first. -/
structure MachineScript where
  initial : String
  finals : List String := []
  rules : List ScriptRule := []
  log : List String := []

namespace MachineScript

/-- Adds an entry to the log. -/
def note (s : MachineScript) (entry : String) : MachineScript := { s with log := entry :: s.log }

/-- The log in the order of the calls. -/
def calls (s : MachineScript) : List String := s.log.reverse

/-- The answer of the first rule for the state and the input, a rejection where there is none. -/
def answer (s : MachineScript) (state input : String) : Except MachineError String :=
  match s.rules.find? fun rule => rule.state == state && rule.input == input with
  | some rule => rule.answer
  | none => .error (.rejected ("no rule for " ++ state ++ " " ++ input))

/-- The script as a behaviour. -/
def behaviour : Behaviour MachineScript String String where
  initial s := (s.initial, s.note "init")
  process s state input :=
    (s.answer state input, s.note ("process " ++ state ++ " " ++ input))
  isFinal s state := s.finals.contains state
  onStop s state := s.note ("stop " ++ state)

end MachineScript

end Sluice
