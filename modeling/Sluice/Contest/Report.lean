import Sluice.Contest.Basic

/-!
# Reports of contests

A report has a line for each target, with the share that it got beside the share that its priority
entitles it to, and a line with the totals. A share is a percentage in double precision. The expected
one starts from priorities summed and divided in single precision; a sum beyond the range entitles
nobody to anything.
-/

namespace Sluice.Contest

open Number

/-- A text filled up with blanks behind it. -/
def padRight (width : Nat) (text : String) : String :=
  text ++ String.ofList (List.replicate (width - text.length) ' ')

/-- A text filled up with blanks in front of it. -/
def padLeft (width : Nat) (text : String) : String :=
  String.ofList (List.replicate (width - text.length) ' ') ++ text

/-- A binary number with a fixed number of places. -/
def places (count : Nat) (x : Binary) : String := fixed count x.num x.den

/-- A share as a percentage. -/
def percent (share : Binary) : Binary := Format.double.mul share (Format.double.ofNat 100)

/-- The share of a part in a total, none if the total is zero. -/
def shareOf (part total : Nat) : Binary :=
  if total = 0 then .ofNat 0
  else Format.double.div (Format.double.ofNat part) (Format.double.ofNat total)

/-- The sum of priorities from left to right, unless it leaves the range. -/
def prioritySum (priorities : List Single) : Option Binary :=
  priorities.foldl
    (fun sum priority => sum.bind fun sum =>
      let sum := Format.single.add sum priority.value
      if Format.single.inRange sum then some sum else none)
    (some (.ofNat 0))

/-- The share that a priority entitles to. -/
def expectedShare (sum : Option Binary) (priority : Single) : Binary :=
  match sum with
  | some sum => Format.single.div priority.value sum
  | none => .ofNat 0

/-- A line of the table from its columns. -/
def tableLine (target priority bytes share expected : String) : String :=
  " ".intercalate [padRight 10 target, padLeft 9 priority, padLeft 14 bytes, padLeft 9 share,
    padLeft 9 expected]

/-- The line of a target. -/
def targetLine (total : Nat) (sum : Option Binary) (target : TargetId) (priority : Single)
    (bytes : Nat) : String :=
  tableLine target.text (places 2 priority.value) (toString bytes)
    (places 1 (percent (shareOf bytes total)) ++ "%")
    (places 1 (percent (expectedShare sum priority)) ++ "%")

/-- The line with the totals. -/
def totalLine (stats : DelivererStats) (speed : Binary) : String :=
  "delivered " ++ toString stats.deliveredBytes ++ " bytes in " ++
    toString stats.deliveredResources ++ " resources, speed " ++ places 0 speed ++
    " B/s over the last window"

/-- The lines of the report on a contest among targets of given priorities. -/
def reportLines (c : Contest) (priorities : List Single) : List String :=
  let counts := c.targets.map c.receivedBy
  let sum := prioritySum priorities
  let row (entry : (TargetId × Single) × Nat) : String :=
    targetLine (counts.foldl (· + ·) 0) sum entry.1.1 entry.1.2 entry.2
  tableLine "target" "priority" "bytes" "share" "expected" ::
    ((c.targets.zip priorities).zip counts).map row ++
    [totalLine (c.final.getD c.deliverer.stats) (c.speed.getD (.ofNat 0))]

/-- Lines, each with its end. -/
def lines (texts : List String) : String := String.join (texts.map (· ++ "\n"))

/-- The name of the program and its version. -/
def versionLine : String := "delivery-sim 0.1.0"

/-- What a command line comes to. -/
structure Response where
  exitCode : Nat
  output : String := ""
  /-- A line for the error stream. -/
  complaint : Option String := none
  deriving DecidableEq, Repr

/-- The line for a command line that cannot be read. -/
def usageLine : String :=
  "usage: delivery-sim [--priority LIST] [--limit N] [--window-ms N] [--chunk-size N] " ++
    "[--backlog N] [--duration-ms N] [--log-level LEVEL]"

/-- Does what a command line asks for, in an environment that may set a speed limit. The exit code
tells a refusal by the deliverer (1), an unreadable command line (2) and a shortage (101) apart. -/
def respond (arguments : List String) (environment : Option String) : Response :=
  match Request.ofArguments? arguments with
  | none => { exitCode := 2, complaint := some usageLine }
  | some .version => { exitCode := 0, output := lines [versionLine] }
  | some (.contest o) =>
    match run o environment with
    | .error (.refused e) => { exitCode := 1, complaint := some ("Error: " ++ e.diagnostic) }
    | .error (.noRoom shortage) => { exitCode := 101, complaint := some shortage.message }
    | .ok c => { exitCode := 0, output := lines (c.reportLines o.priorities) }

end Sluice.Contest
