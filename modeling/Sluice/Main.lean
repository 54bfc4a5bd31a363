import Sluice.Contest.Report

/-!
# Command line

Runs a contest, prints its report, and ends with the exit code of the response.
-/

namespace Sluice

/-- The variable of the environment that may set a speed limit. -/
def speedVariable : String := "JACUZZI_SPEED_LIMIT"

end Sluice

def main (arguments : List String) : IO UInt32 := do
  let environment ← IO.getEnv Sluice.speedVariable
  let response := Sluice.Contest.respond arguments environment
  IO.print response.output
  if let some complaint := response.complaint then IO.eprintln complaint
  return UInt32.ofNat response.exitCode
