import Sluice.Text.Quoted

/-!
# Diagnostic layout of records

A value with named parts is shown as its name and, between braces, each part behind its label.
-/

namespace Sluice.Text

/-- A named value with its parts, or the name alone where there are none. -/
def record (name : String) (parts : List (String × String)) : String :=
  if parts.isEmpty then name
  else name ++ " \x7b " ++ ", ".intercalate (parts.map fun (label, text) => label ++ ": " ++ text)
    ++ " \x7d"

/-- A named value that shows only some of its parts. -/
def openRecord (name : String) (parts : List (String × String)) : String :=
  name ++ " \x7b " ++ String.join (parts.map fun (label, text) => label ++ ": " ++ text ++ ", ")
    ++ ".. \x7d"

/-- A name applied to the text of one value. -/
def applied (name text : String) : String := name ++ "(" ++ text ++ ")"

/-- Texts between brackets. -/
def listed (texts : List String) : String := "[" ++ ", ".intercalate texts ++ "]"

end Sluice.Text
