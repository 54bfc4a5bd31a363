import Sluice.Limits

/-!
# Settings of workers

The settings of daemons, processors and pools, each with a set for ordinary use and a small one, and
the faults that their checks report.
-/

namespace Sluice

/-- What is wrong with settings. -/
inductive SettingsError where
  | invalidCapacity (name : String)
  | aboveLimit (name : String) (max : Nat)
  | inconsistent (reason : String)
  deriving DecidableEq, Repr

namespace SettingsError

/-- The sentence that reports the fault. -/
def message : SettingsError → String
  | invalidCapacity name => "invalid capacity: " ++ name ++ " must be positive"
  | aboveLimit name max => name ++ " exceeds the limit of " ++ toString max
  | inconsistent reason => "inconsistent config: " ++ reason

/-- The fault with its parts, for diagnostics. -/
def diagnostic : SettingsError → String
  | invalidCapacity name => Text.record "InvalidCapacity" [("name", Text.quoted name)]
  | aboveLimit name max =>
    Text.record "AboveLimit" [("name", Text.quoted name), ("max", toString max)]
  | inconsistent reason => Text.record "Inconsistent" [("message", Text.quoted reason)]

end SettingsError

/-- Settings of a daemon. -/
structure DaemonSettings where
  /-- The pause between attempts that did not solve the state, in milliseconds. -/
  retryDelay : Nat
  /-- How many commands may wait for the daemon. -/
  capacity : Nat := 16
  deriving DecidableEq, Repr

namespace DaemonSettings

/-- A tenth of a second between attempts. -/
def standard : DaemonSettings := { retryDelay := 100 }

/-- No pause and room for few commands. -/
def small : DaemonSettings := ⟨0, 4⟩

/-- There must be room for a command. -/
def validate (s : DaemonSettings) : Except SettingsError Unit :=
  if s.capacity = 0 then .error (.invalidCapacity "channel_capacity") else .ok ()

end DaemonSettings

/-- Settings of a processor. -/
structure ProcessorSettings where
  /-- How many messages may wait between the reader and the handler. -/
  capacity : Nat
  deriving DecidableEq, Repr

namespace ProcessorSettings

/-- As much room as the limits allow. -/
def standard : ProcessorSettings := ⟨Limits.standard.maxPendingMessages⟩

/-- Room for two messages. -/
def small : ProcessorSettings := ⟨2⟩

/-- There must be room for a message, and for no more than the limits allow. -/
def validate (s : ProcessorSettings) : Except SettingsError Unit :=
  if s.capacity = 0 then .error (.invalidCapacity "queue_capacity")
  else if Limits.standard.maxPendingMessages < s.capacity then
    .error (.aboveLimit "queue_capacity" Limits.standard.maxPendingMessages)
  else .ok ()

end ProcessorSettings

/-- Settings of a pool. -/
structure PoolSettings where
  /-- How many objects may be out at once. -/
  maxSize : Nat
  /-- How many idle objects are kept. -/
  maxIdle : Nat
  deriving DecidableEq, Repr

namespace PoolSettings

/-- A pool that keeps as many idle objects as may be out. -/
def ofSize (size : Nat) : PoolSettings := ⟨size, size⟩

/-- As large as the limits allow. -/
def standard : PoolSettings := ofSize Limits.standard.maxPoolSize

/-- A small pool that keeps half of its objects. -/
def small : PoolSettings := ⟨Limits.small.maxPoolSize, Limits.small.maxPoolSize / 2⟩

/-- An object must be allowed out, and no more may be kept than may be out. -/
def validate (s : PoolSettings) : Except SettingsError Unit :=
  if s.maxSize = 0 then .error (.invalidCapacity "max_size")
  else if s.maxSize < s.maxIdle then .error (.inconsistent "max_idle must be <= max_size")
  else .ok ()

end PoolSettings

end Sluice
