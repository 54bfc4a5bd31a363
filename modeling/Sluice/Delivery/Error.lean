import Sluice.Identifier.Basic
import Sluice.Number.Layout

/-!
# Errors of delivery

What can go wrong when resources are admitted, queued and handed over.
-/

namespace Sluice

/-- Why a request to a limiter, a fair queue or a deliverer was refused. -/
inductive DeliveryError where
  | rateLimitExceeded (requested waitMicros : Nat)
  | queueFull (target : TargetId) (size maxSize : Nat)
  | targetNotFound (target : TargetId)
  | targetExists (target : TargetId)
  | tooManyTargets (max : Nat)
  | invalidPriority (priority : Number.Single)
  | invalidConfig (reason : String)
  | shutdown
  deriving DecidableEq, Repr

namespace DeliveryError

/-- The sentence that reports the error. -/
def message : DeliveryError → String
  | rateLimitExceeded requested wait =>
    "rate limit exceeded: " ++ toString requested ++ " units requested, retry in " ++
      toString wait ++ "us"
  | queueFull target size maxSize =>
    "queue full for " ++ target.text ++ ": " ++ toString size ++ " resources (max " ++
      toString maxSize ++ ")"
  | targetNotFound target => target.text ++ " not found"
  | targetExists target => target.text ++ " already registered"
  | tooManyTargets max => "too many targets (max " ++ toString max ++ ")"
  | invalidPriority priority =>
    "invalid priority " ++ priority.write .plain ++ ": must be finite and > 0"
  | invalidConfig reason => "invalid configuration: " ++ reason
  | shutdown => "shutdown in progress"

/-- The error with its parts, for diagnostics. -/
def diagnostic : DeliveryError → String
  | rateLimitExceeded requested wait =>
    Text.record "RateLimitExceeded" [("requested", toString requested), ("wait_us", toString wait)]
  | queueFull target size maxSize =>
    Text.record "QueueFull"
      [("target", target.diagnostic), ("size", toString size), ("max_size", toString maxSize)]
  | targetNotFound target => Text.record "TargetNotFound" [("target", target.diagnostic)]
  | targetExists target => Text.record "TargetExists" [("target", target.diagnostic)]
  | tooManyTargets max => Text.record "TooManyTargets" [("max", toString max)]
  | invalidPriority priority =>
    Text.record "InvalidPriority" [("priority", priority.write .diagnostic)]
  | invalidConfig reason => Text.record "InvalidConfig" [("message", Text.quoted reason)]
  | shutdown => "Shutdown"

end DeliveryError

end Sluice
