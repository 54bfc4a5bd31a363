import Sluice.Text.Record
import Sluice.Word

/-!
# Identifiers

An identifier is a word together with the kind of thing that it names, so that the identifier of a
target is never taken for that of a timer.
-/

namespace Sluice

/-- The kinds of things that carry identifiers. -/
inductive Kind where
  | target
  | task
  | timer
  | processor
  deriving DecidableEq, Repr

/-- The label that texts of identifiers of a kind begin with. -/
def Kind.label : Kind → String
  | .target => "target"
  | .task => "task"
  | .timer => "timer"
  | .processor => "proc"

/-- An identifier of one kind. -/
@[ext]
structure Id (kind : Kind) where
  raw : Nat
  deriving DecidableEq, Repr

/-- The identifier of a delivery target. -/
abbrev TargetId := Id .target

namespace Id

variable {kind : Kind}

instance : Inhabited (Id kind) := ⟨⟨0⟩⟩

/-- The text of an identifier in messages. -/
def text (i : Id kind) : String := kind.label ++ "-" ++ toString i.raw

/-- The text of an identifier in diagnostics. -/
def diagnostic (i : Id kind) : String := Text.applied kind.label (toString i.raw)

/-- The following identifier, none after the greatest word. -/
def next? (i : Id kind) : Option (Id kind) :=
  if i.raw < Word.greatest then some ⟨i.raw + 1⟩ else none

/-- The complaint about an identifier that has no following one. -/
def overflowMessage : String := "ID overflow"

/-- The following identifier, or the complaint that there is none. -/
def next (i : Id kind) : Except String (Id kind) :=
  match i.next? with
  | some j => .ok j
  | none => .error overflowMessage

/-- Puts an identifier into an ascending list that does not hold it yet. -/
def insertAscending (i : Id kind) : List (Id kind) → List (Id kind)
  | [] => [i]
  | j :: rest =>
    if i.raw < j.raw then i :: j :: rest
    else if i.raw = j.raw then j :: rest
    else j :: insertAscending i rest

/-- The identifiers of a list in ascending order, each once. -/
def ascending (ids : List (Id kind)) : List (Id kind) := ids.foldr insertAscending []

/-- The text of a list of identifiers in diagnostics. -/
def listDiagnostic (ids : List (Id kind)) : String := Text.listed (ids.map diagnostic)

end Id

end Sluice
