import Sluice.Room

/-!
# Faults of arguments and supplies

The faults that identifiers and limits report: an argument that is not allowed, a supply of values
that has run out, and a value that there is no room for.
-/

namespace Sluice

/-- Why a value could not be built or handed out. -/
inductive Fault where
  | invalidArgument (name reason : String)
  | exhausted (supply : String)
  | noRoom (shortage : Shortage)
  deriving DecidableEq, Repr

namespace Fault

/-- The sentence that reports the fault. -/
def message : Fault → String
  | invalidArgument name reason => "invalid argument '" ++ name ++ "': " ++ reason
  | exhausted supply => supply ++ " exhausted"
  | noRoom shortage => shortage.message

/-- The fault with its parts, for diagnostics. -/
def diagnostic : Fault → String
  | invalidArgument name reason =>
    Text.record "InvalidArgument" [("name", Text.quoted name), ("reason", Text.quoted reason)]
  | exhausted supply => Text.record "Exhausted" [("resource", Text.quoted supply)]
  | noRoom shortage => shortage.diagnostic

end Fault

end Sluice
