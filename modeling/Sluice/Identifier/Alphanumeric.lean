import Sluice.Fault
import Sluice.Word

/-!
# Alphanumeric identifiers

An `Alphanumeric` source writes the numbers 0, 1, 2, … in base 36 with a fixed number of digits,
zeros in front. It ends when the digits are used up, and before the greatest word. A call takes its
number first and writes it then; when there is no room for the text, the number is gone all the same.
-/

namespace Sluice

/-- A digit in base 36: the ten decimal digits, then the small letters. -/
def base36Digit (n : Nat) : Char :=
  if n < 10 then Char.ofNat ('0'.toNat + n) else Char.ofNat ('a'.toNat + (n - 10))

/-- The last `width` digits of a number in base 36, zeros in front, before some text. -/
def base36Onto : Nat → Nat → List Char → List Char
  | 0, _, text => text
  | width + 1, n, text => base36Onto width (n / 36) (base36Digit (n % 36) :: text)

/-- The last `width` digits of a number in base 36, zeros in front. -/
def base36 (width n : Nat) : List Char := base36Onto width n []

theorem base36Onto_eq (width n : Nat) (text : List Char) :
    base36Onto width n text = base36 width n ++ text := by
  induction width generalizing n text with
  | zero => rfl
  | succ width ih =>
    calc base36Onto (width + 1) n text
      _ = base36 width (n / 36) ++ base36Digit (n % 36) :: text := ih (n / 36) _
      _ = (base36 width (n / 36) ++ [base36Digit (n % 36)]) ++ text := by simp
      _ = base36 (width + 1) n ++ text := by rw [← ih (n / 36) [base36Digit (n % 36)]]; rfl

@[simp]
theorem base36_zero (n : Nat) : base36 0 n = [] := rfl

theorem base36_succ (width n : Nat) :
    base36 (width + 1) n = base36 width (n / 36) ++ [base36Digit (n % 36)] :=
  base36Onto_eq width (n / 36) [base36Digit (n % 36)]

/-- A source of identifiers of one width. -/
structure Alphanumeric where
  width : Nat
  /-- The number that the next identifier stands for. -/
  upcoming : Nat := 0
  deriving DecidableEq, Repr

namespace Alphanumeric

/-- The width of identifiers where none is asked for. -/
def standardWidth : Nat := 8

/-- A source of identifiers of a width, which must not be zero. -/
def ofWidth (width : Nat) : Except Fault Alphanumeric :=
  if width = 0 then .error (.invalidArgument "width" "must be positive") else .ok ⟨width, 0⟩

/-- How many identifiers the width has, where a word can hold the number: twelve digits in base 36
fit into a word and thirteen do not. -/
def capacity (a : Alphanumeric) : Option Nat :=
  if a.width ≤ 12 then some (Nat.pow 36 a.width) else none

/-- Whether the source is used up. -/
def isExhausted (a : Alphanumeric) : Bool :=
  Word.greatest ≤ a.upcoming || a.capacity.any (· ≤ a.upcoming)

/-- The digits of the next identifier. -/
def digits (a : Alphanumeric) : List Char := base36 a.width a.upcoming

/-- The text of the next identifier, if there is room for it. -/
def write (a : Alphanumeric) : Except Fault String :=
  match Room.things a.width with
  | .ok () => .ok (String.ofList a.digits)
  | .error shortage => .error (.noRoom shortage)

/-- What a call answers, and the source that it leaves: the number is taken before it is written. -/
def next (a : Alphanumeric) : Except Fault String × Alphanumeric :=
  if a.isExhausted then (.error (.exhausted "alphanumeric ids"), a)
  else (a.write, { a with upcoming := a.upcoming + 1 })

/-- The next identifier with the source after it, for whoever does not go on after a fault. -/
def take (a : Alphanumeric) : Except Fault (String × Alphanumeric) :=
  a.next.1.map fun id => (id, a.next.2)

end Alphanumeric

end Sluice
