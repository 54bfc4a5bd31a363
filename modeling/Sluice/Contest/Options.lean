import Sluice.Delivery.Settings
import Sluice.Number.Reading
import Sluice.Room

/-!
# Options of a contest

A contest is set up by the arguments of a command line. An option is written `--name value` or
`--name=value`. The list of priorities may be given in several parts; every other option is given at
most once. A value does not begin with a hyphen unless it stands behind an equals sign, or is the
hyphen alone.
-/

namespace Sluice.Contest

/-- How much is told while a contest runs. -/
inductive LogLevel where
  | error
  | warn
  | info
  | debug
  | trace
  deriving DecidableEq, Repr

namespace LogLevel

/-- The levels by the numbers from one on. -/
def all : List (LogLevel × String) :=
  [(.error, "error"), (.warn, "warn"), (.info, "info"), (.debug, "debug"), (.trace, "trace")]

/-- Reads a level: its number, or its name in any case. -/
def ofText? (s : List Char) : Option LogLevel :=
  match Text.word? s with
  | some (n + 1) => all[n]?.map (·.1)
  | some 0 => none
  | none => (all.find? fun level => Text.isWord s level.2).map (·.1)

end LogLevel

/-- What a contest is about. -/
structure Options where
  /-- The priorities, one for each target. -/
  priorities : List Number.Single := [.ofNat 1, .ofNat 2, .ofNat 4]
  /-- The speed limit in units per second, if one is asked for. -/
  limit : Option Nat := none
  /-- The window of the speed limit in milliseconds. -/
  window : Nat := 1000
  /-- The size of each resource. -/
  chunkSize : Nat := 4096
  /-- The backlog that each target is kept at. -/
  backlog : Nat := 32
  /-- How long the contest lasts, in milliseconds. -/
  duration : Nat := 2000
  logLevel : LogLevel := .info
  deriving DecidableEq, Repr

/-- The settings of the deliverer: those that the environment asks for, with the limit and the window
of the options, and with room for the backlog. The window in microseconds has to fit into a word. -/
def Options.settings? (o : Options) (environment : Option String) :
    Except Shortage DelivererSettings := do
  let base := DelivererSettings.ofEnvironment environment
  let window ← Room.product o.window 1000
  return { base with
    speedLimit := o.limit.or base.speedLimit
    window
    maxBacklog := max base.maxBacklog o.backlog }

/-- What the arguments have said so far. -/
structure Arguments where
  priorities : List Number.Single := []
  limit : Option Nat := none
  window : Option Nat := none
  chunkSize : Option Nat := none
  backlog : Option Nat := none
  duration : Option Nat := none
  logLevel : Option LogLevel := none
  deriving DecidableEq, Repr

namespace Arguments

/-- The options, with the usual ones where nothing was said. -/
def options (a : Arguments) : Options :=
  let usual : Options := {}
  { priorities := if a.priorities.isEmpty then usual.priorities else a.priorities
    limit := a.limit
    window := a.window.getD usual.window
    chunkSize := a.chunkSize.getD usual.chunkSize
    backlog := a.backlog.getD usual.backlog
    duration := a.duration.getD usual.duration
    logLevel := a.logLevel.getD usual.logLevel }

/-- The value of an option that is given at most once. -/
def once {α : Type} (given value : Option α) : Option (Option α) :=
  match given, value with
  | none, some a => some (some a)
  | _, _ => none

/-- Takes in an option with its value, if there is such an option and the value can be read. -/
def set (a : Arguments) (name value : List Char) : Option Arguments :=
  match String.ofList name with
  | "priority" =>
    ((value.splitOn ',').mapM Number.Single.ofText?).map fun priorities =>
      { a with priorities := a.priorities ++ priorities }
  | "limit" => (once a.limit (Text.word? value)).map fun limit => { a with limit }
  | "window-ms" => (once a.window (Text.word? value)).map fun window => { a with window }
  | "chunk-size" => (once a.chunkSize (Text.word? value)).map fun chunkSize => { a with chunkSize }
  | "backlog" => (once a.backlog (Text.word? value)).map fun backlog => { a with backlog }
  | "duration-ms" => (once a.duration (Text.word? value)).map fun duration => { a with duration }
  | "log-level" =>
    (once a.logLevel (LogLevel.ofText? value)).map fun logLevel => { a with logLevel }
  | _ => none

end Arguments

/-- What a command line asks for. -/
inductive Request where
  | version
  | contest (options : Options)
  deriving DecidableEq, Repr

namespace Request

/-- Whether an argument is an option, and so cannot be the value of the option before it. -/
def isOption : List Char → Bool
  | '-' :: _ :: _ => true
  | _ => false

/-- Reads arguments from left to right. The first one that asks for the version settles the request,
and the first one that cannot be read makes the whole line unreadable. -/
def read (a : Arguments) : List (List Char) → Option Request
  | [] => some (.contest a.options)
  | [['-', '-']] => some (.contest a.options)
  | ('-' :: '-' :: text) :: rest =>
    let name := text.takeWhile (· != '=')
    match text.dropWhile (· != '=') with
    | _ :: value => (a.set name value).bind fun a => read a rest
    | [] =>
      if name = "version".toList then some .version
      else
        match rest with
        | [] => none
        | value :: rest => if isOption value then none else (a.set name value).bind fun a => read a rest
  | ('-' :: 'V' :: _) :: _ => some .version
  | _ => none

/-- Reads a command line. -/
def ofArguments? (arguments : List String) : Option Request :=
  read {} (arguments.map String.toList)

end Request

end Sluice.Contest
