import Sluice.Text.Invisible

/-!
# Quoted text

Diagnostics show strings and characters between quotes. A quote of the surrounding kind, the
backslash and the usual controls are written with a backslash; everything else that leaves no mark
of its own on a line is written by its code point in hexadecimal digits.
-/

namespace Sluice.Text

/-- A character by its code point, as `\u` with lower-case hexadecimal digits between braces. -/
def codePoint (c : Char) : String :=
  "\\u\x7b" ++ String.ofList (Nat.toDigits 16 c.toNat) ++ "\x7d"

/-- A character as it stands between the given quotes. -/
def escape (quote : Char) (c : Char) : String :=
  if c = '\x00' then "\\0"
  else if c = '\t' then "\\t"
  else if c = '\r' then "\\r"
  else if c = '\n' then "\\n"
  else if c = '\\' then "\\\\"
  else if c = quote then String.ofList ['\\', c]
  else if isInvisible c then codePoint c
  else c.toString

/-- A string between double quotes. -/
def quoted (s : String) : String := "\"" ++ String.join (s.toList.map (escape '"')) ++ "\""

/-- A character between single quotes. -/
def quotedChar (c : Char) : String := "'" ++ escape '\'' c ++ "'"

end Sluice.Text
