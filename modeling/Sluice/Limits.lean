import Sluice.Fault
import Sluice.Word

/-!
# Limits

The bounds that queues, pools and machines take their default settings from.
-/

namespace Sluice

/-- Upper bounds on what the parts of a program may hold or do. -/
structure Limits where
  maxTargets : Nat
  maxResourcesPerTarget : Nat
  maxPendingMessages : Nat
  maxPoolSize : Nat
  maxTransitions : Nat
  deriving DecidableEq, Repr

namespace Limits

/-- The bounds for ordinary use. -/
def standard : Limits := ⟨4096, 16384, 1024, 256, Word.greatest⟩

/-- Small bounds, easy to reach in a trial. -/
def small : Limits := ⟨16, 64, 8, 4, 1000⟩

/-- The first of the bounds on stored things that is zero is at fault; the bound on transitions may
be zero. -/
def validate (l : Limits) : Except Fault Unit :=
  let positive (name : String) (n : Nat) : Except Fault Unit :=
    if n = 0 then .error (.invalidArgument name "must be positive") else .ok ()
  do
    positive "max_targets" l.maxTargets
    positive "max_resources_per_target" l.maxResourcesPerTarget
    positive "max_pending_messages" l.maxPendingMessages
    positive "max_pool_size" l.maxPoolSize

end Limits

end Sluice
