import Sluice.Word

/-!
# Letters and digits of settings

Numbers in settings and arguments are written in the decimal digits `0` to `9`, and words in the
letters `A` to `Z` of either case.
-/

namespace Sluice.Text

/-- A letter of the alphabet `A` to `Z` as a small one, and any other character as it is. -/
def lower (c : Char) : Char :=
  if 'A' ≤ c ∧ c ≤ 'Z' then Char.ofNat (c.toNat + 32) else c

/-- Whether two words are the same but for the case of their letters. -/
def isWord (s : List Char) (word : String) : Bool := s.map lower == word.toList

/-- The value of a row of decimal digits. -/
def decimal (digits : List Char) : Nat :=
  digits.foldl (fun n c => n * 10 + (c.toNat - '0'.toNat)) 0

/-- Reads a word of memory: at least one decimal digit, behind a plus sign or not, of a value that
fits. -/
def word? (s : List Char) : Option Nat :=
  let digits := match s with
    | '+' :: rest => rest
    | _ => s
  if digits.isEmpty || !digits.all Char.isDigit then none
  else if decimal digits ≤ Word.greatest then some (decimal digits)
  else none

end Sluice.Text
