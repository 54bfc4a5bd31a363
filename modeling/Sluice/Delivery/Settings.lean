import Sluice.Fair.Queue
import Sluice.Rate.Limiter
import Sluice.Text.Ascii
import Sluice.Text.Blank

/-!
# Settings of deliverers

A deliverer is set up with a speed limit, the bounds of its fair queue and the room between taking a
resource and handing it over. The speed limit can be overridden by a text, whose grammar is
`SpeedOverride.ofText?`.
-/

namespace Sluice

/-- What a text says about the speed limit. -/
inductive SpeedOverride where
  | unlimited
  | limited (limit : Nat)
  deriving DecidableEq, Repr

namespace SpeedOverride

/-- Reads an override: the words for no limit in any case, or a number, of which zero means no limit
too. White space at the ends does not count. -/
def ofText? (s : List Char) : Option SpeedOverride :=
  let trimmed := Text.trim s
  if Text.isWord trimmed "none" || Text.isWord trimmed "unlimited" then some .unlimited
  else
    match Text.word? trimmed with
    | none => none
    | some 0 => some .unlimited
    | some limit => some (.limited limit)

/-- The limit that an override sets. -/
def limit? : SpeedOverride → Option Nat
  | unlimited => none
  | limited limit => some limit

end SpeedOverride

/-- Settings of a deliverer. -/
structure DelivererSettings where
  /-- Units per second over all targets, if there is a limit. -/
  speedLimit : Option Nat
  /-- The window of the limit in microseconds. -/
  window : Nat
  maxTargets : Nat
  maxBacklog : Nat
  /-- How many resources may wait between being taken and being handed over. -/
  capacity : Nat
  deriving DecidableEq, Repr

namespace DelivererSettings

/-- Settings for ordinary use. -/
def standard : DelivererSettings :=
  ⟨none, LimiterSettings.standardWindow, FairSettings.standard.maxTargets,
    FairSettings.standard.maxBacklog, 1⟩

/-- Settings with small bounds. -/
def small : DelivererSettings :=
  ⟨none, LimiterSettings.small.window, FairSettings.small.maxTargets,
    FairSettings.small.maxBacklog, 1⟩

/-- The settings with the speed limit that a text asks for, if it asks for any. -/
def override (s : DelivererSettings) (text : Option String) : DelivererSettings :=
  match text.bind fun t => SpeedOverride.ofText? t.toList with
  | some o => { s with speedLimit := o.limit? }
  | none => s

/-- The settings for ordinary use, with the speed limit that the environment asks for. -/
def ofEnvironment (value : Option String) : DelivererSettings := standard.override value

/-- The part for the limiter. -/
def limiter (s : DelivererSettings) : LimiterSettings := ⟨s.speedLimit, s.window⟩

/-- The part for the fair queue. -/
def queue (s : DelivererSettings) : FairSettings := ⟨s.maxTargets, s.maxBacklog⟩

/-- Reports the first fault of the limiter's part, then of the queue's part, then of the room. -/
def validate (s : DelivererSettings) : Except DeliveryError Unit := do
  s.limiter.validate
  s.queue.validate
  if s.capacity = 0 then throw (.invalidConfig "queue_capacity must be positive")

end DelivererSettings

end Sluice
