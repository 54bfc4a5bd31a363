import Sluice.Room
import Sluice.Worker.Settings

/-!
# Errors of workers

What daemons, timers, processors and queues report, and what pools report.
-/

namespace Sluice

/-- Why a worker could not be set up, or a request to it was refused. -/
inductive WorkerError where
  | shutdown
  | queueFull (capacity : Nat)
  | invalidConfig (fault : SettingsError)
  | noRoom (shortage : Shortage)
  deriving DecidableEq, Repr

namespace WorkerError

/-- The sentence that reports the error. Faults of settings and shortages speak for themselves. -/
def message : WorkerError → String
  | shutdown => "shutdown in progress"
  | queueFull capacity => "queue full (capacity " ++ toString capacity ++ ")"
  | invalidConfig fault => fault.message
  | noRoom shortage => shortage.message

/-- The error with its parts, for diagnostics. -/
def diagnostic : WorkerError → String
  | shutdown => "Shutdown"
  | queueFull capacity => Text.record "QueueFull" [("capacity", toString capacity)]
  | invalidConfig fault => Text.applied "InvalidConfig" fault.diagnostic
  | noRoom shortage => shortage.diagnostic

end WorkerError

/-- Why a pool handed out no object. -/
inductive PoolError where
  | exhausted (maxSize : Nat)
  | closed
  | factory (reason : String)
  deriving DecidableEq, Repr

namespace PoolError

/-- The sentence that reports the error. -/
def message : PoolError → String
  | exhausted maxSize => "pool exhausted: " ++ toString maxSize ++ " objects in use"
  | closed => "pool closed"
  | factory reason => "object factory failed: " ++ reason

/-- The error with its parts, for diagnostics. -/
def diagnostic : PoolError → String
  | exhausted maxSize => Text.record "Exhausted" [("max_size", toString maxSize)]
  | closed => "Closed"
  | factory reason => Text.record "Factory" [("message", Text.quoted reason)]

end PoolError

end Sluice
