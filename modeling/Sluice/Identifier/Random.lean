import Sluice.Fault

/-!
# Random identifiers

Random strings over the digits and the letters of both cases, every character being equally likely.
-/

namespace Sluice

/-- The characters of random identifiers. -/
def alphanumericChars : List Char :=
  "0123456789ABCDEFGHIJKLMNOPQRSTUVWXYZabcdefghijklmnopqrstuvwxyz".toList

/-- Draws `length` characters from a source of random numbers, in front of those drawn before. -/
def randomChars {γ : Type} [RandomGen γ] : Nat → List Char → γ → List Char × γ
  | 0, drawn, source => (drawn, source)
  | length + 1, drawn, source =>
    let (index, source) := randNat source 0 (alphanumericChars.length - 1)
    randomChars length (alphanumericChars.getD index '0' :: drawn) source

/-- A random string of a given length, if there is room for it. -/
def randomAlphanumeric {γ : Type} [RandomGen γ] (length : Nat) (source : γ) :
    Except Fault String :=
  match Room.things length with
  | .ok () => .ok (String.ofList (randomChars length [] source).1)
  | .error shortage => .error (.noRoom shortage)

end Sluice
