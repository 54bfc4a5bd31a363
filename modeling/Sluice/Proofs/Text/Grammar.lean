import Mathlib.Data.List.Forall2
import Mathlib.Data.List.TakeWhile
import Sluice.Text.Ascii
import Sluice.Text.Blank

/-!
# The grammar of trimmed texts, words and numerals

What the readers of settings accept, said without the readers: `Trimmed` relates a text to what stands between the white
space at its ends, `AnyCase` to a word that is written in capital and small letters, and `Signed` to the value of its
decimal digits behind a plus sign or none. Each reader is shown to decide its relation (`trim_eq_iff`, `isWord_iff`,
`word?_eq_some_iff`); and `signed_toString` says that the digits of a number are read as that number.
-/

namespace Sluice.Text

/-! ## White space at the ends -/

/-- A text is some characters with nothing but white space before and behind them, and these characters neither begin
nor end with white space. -/
structure Trimmed (s core : List Char) : Prop where
  ends : ∃ front back, s = front ++ core ++ back ∧ (∀ c ∈ front, isBlank c) ∧ ∀ c ∈ back, isBlank c
  head : ∀ c ∈ core.head?, isBlank c = false
  last : ∀ c ∈ core.getLast?, isBlank c = false

/-- Where dropping stops, the character is not one that is dropped. -/
theorem of_mem_head?_dropWhile {p : Char → Bool} {s : List Char} {c : Char} (h : c ∈ (s.dropWhile p).head?) :
    p c = false := by
  have hstop := List.head?_dropWhile_not p s
  rw [Option.mem_def.mp h] at hstop
  exact hstop

/-- Nothing is dropped from a list that does not begin with what is dropped. -/
theorem dropWhile_eq_self {p : Char → Bool} {s : List Char} (h : ∀ c ∈ s.head?, p c = false) :
    s.dropWhile p = s := by
  cases s with
  | nil => rfl
  | cons c s => exact List.dropWhile_cons_of_neg (by rw [h c rfl]; exact Bool.false_ne_true)

/-- A text with the white space that is trimmed behind it. -/
theorem trim_append (s : List Char) :
    trim s ++ ((s.dropWhile isBlank).reverse.takeWhile isBlank).reverse = s.dropWhile isBlank := by
  rw [trim, ← List.reverse_append, List.takeWhile_append_dropWhile, List.reverse_reverse]

theorem trimmed_trim (s : List Char) : Trimmed s (trim s) := by
  have hback := trim_append s
  refine ⟨⟨s.takeWhile isBlank, ((s.dropWhile isBlank).reverse.takeWhile isBlank).reverse, ?_, ?_, ?_⟩, ?_, ?_⟩
  · rw [List.append_assoc, hback, List.takeWhile_append_dropWhile]
  · exact fun c hc => List.mem_takeWhile_imp hc
  · exact fun c hc => List.mem_takeWhile_imp (List.mem_reverse.mp hc)
  · intro c hc
    have hhead : c ∈ (s.dropWhile isBlank).head? := by
      rw [← hback, List.head?_append, Option.mem_def.mp hc]
      rfl
    exact of_mem_head?_dropWhile hhead
  · intro c hc
    rw [trim, List.getLast?_reverse] at hc
    exact of_mem_head?_dropWhile hc

/-- There is one way to trim a text, and it is the reader's. -/
theorem trim_eq_iff {s core : List Char} : trim s = core ↔ Trimmed s core := by
  refine ⟨fun h => h ▸ trimmed_trim s, ?_⟩
  rintro ⟨⟨front, back, rfl, hfront, hback⟩, hhead, hlast⟩
  have hreverse : (back.reverse ++ core.reverse).dropWhile isBlank = core.reverse := by
    rw [List.dropWhile_append_of_pos fun c hc => hback c (List.mem_reverse.mp hc)]
    exact dropWhile_eq_self fun c hc => hlast c (by rwa [List.head?_reverse] at hc)
  rw [trim, List.append_assoc, List.dropWhile_append_of_pos hfront]
  cases core with
  | nil =>
    have hnone : back.dropWhile isBlank = [] := List.dropWhile_eq_nil_iff.mpr hback
    rw [List.nil_append, hnone]
    rfl
  | cons c core =>
    rw [dropWhile_eq_self (s := c :: core ++ back) hhead, List.reverse_append, hreverse, List.reverse_reverse]

/-! ## Words in any case -/

/-- A word that is written in capital and small letters. -/
def AnyCase (word : String) (s : List Char) : Prop :=
  List.Forall₂ (fun c w => c = w ∨ c = w.toUpper) s word.toList

/-- The letters `a` to `z`. -/
def small : List Char := "abcdefghijklmnopqrstuvwxyz".toList

/-- A capital letter is the capital of the small letter that it is read as. -/
theorem eq_toUpper_lower {c : Char} (h : 'A' ≤ c ∧ c ≤ 'Z') : c = (lower c).toUpper := by
  have hall : ∀ k < 26, (Char.ofNat (65 + k + 32)).toUpper = Char.ofNat (65 + k) := by decide
  have hlow : 65 ≤ c.toNat := h.1
  have hhigh : c.toNat ≤ 90 := h.2
  have hc := hall (c.toNat - 65) (by omega)
  rw [Nat.add_sub_cancel' hlow, Char.ofNat_toNat] at hc
  rw [lower, if_pos h, hc]

theorem lower_eq_iff {c w : Char} (hw : w ∈ small) : lower c = w ↔ c = w ∨ c = w.toUpper := by
  have hall : ∀ w ∈ small, lower w = w ∧ lower w.toUpper = w := fun w hw => of_decide_eq_true
    (List.all_eq_true.mp (by decide : (small.all fun w => lower w = w ∧ lower w.toUpper = w) = true) w hw)
  constructor
  · rintro rfl
    by_cases h : 'A' ≤ c ∧ c ≤ 'Z'
    · exact .inr (eq_toUpper_lower h)
    · exact .inl (if_neg h).symm
  · rintro (rfl | rfl)
    · exact (hall c hw).1
    · exact (hall w hw).2

/-- The reader of a word of small letters accepts it in any case, and nothing else. -/
theorem isWord_iff {word : String} {s : List Char} (hword : word.toList ⊆ small) :
    isWord s word = true ↔ AnyCase word s := by
  rw [isWord, beq_iff_eq, AnyCase]
  generalize word.toList = letters at hword
  induction s generalizing letters with
  | nil =>
    cases letters with
    | nil => exact iff_of_true rfl .nil
    | cons w letters => exact iff_of_false nofun nofun
  | cons c s ih =>
    cases letters with
    | nil => exact iff_of_false nofun nofun
    | cons w letters =>
      rw [List.map_cons, List.cons.injEq, List.forall₂_cons, lower_eq_iff (hword List.mem_cons_self),
        ih letters fun v hv => hword (List.mem_cons_of_mem w hv)]

/-! ## Numerals -/

/-- One decimal digit or more, of some value. -/
def Numeral (digits : List Char) (n : Nat) : Prop :=
  digits ≠ [] ∧ (∀ c ∈ digits, c.isDigit) ∧ Nat.ofDigitChars 10 digits 0 = n

/-- A numeral behind a plus sign or none. -/
def Signed (s : List Char) (n : Nat) : Prop :=
  Numeral s n ∨ ∃ digits, s = '+' :: digits ∧ Numeral digits n

theorem decimal_eq (digits : List Char) : decimal digits = Nat.ofDigitChars 10 digits 0 := by
  rw [decimal, Nat.ofDigitChars_eq_foldl]
  simp only [Nat.mul_comm]

theorem isBlank_of_isDigit {c : Char} (h : c.isDigit) : isBlank c = false := by
  have hall : ∀ k < 10, isBlank (Char.ofNat (48 + k)) = false := by decide
  have hrange : 48 ≤ c.toNat ∧ c.toNat ≤ 57 := by
    rw [Char.isDigit, Bool.and_eq_true, decide_eq_true_eq, decide_eq_true_eq] at h
    exact h
  have hc := hall (c.toNat - 48) (by omega)
  rwa [Nat.add_sub_cancel' hrange.1, Char.ofNat_toNat] at hc

/-- A signed numeral begins with its sign or with a digit. -/
theorem Signed.exists_cons {s : List Char} {n : Nat} (h : Signed s n) :
    ∃ c rest, s = c :: rest ∧ (c = '+' ∨ c.isDigit) := by
  obtain ⟨hne, hdigits, -⟩ | ⟨digits, rfl, -⟩ := h
  · obtain ⟨c, rest, rfl⟩ := List.exists_cons_of_ne_nil hne
    exact ⟨c, rest, rfl, .inr (hdigits c List.mem_cons_self)⟩
  · exact ⟨'+', digits, rfl, .inl rfl⟩

/-- What is behind a plus sign is the whole numeral, since the sign is no digit. -/
theorem signed_plus_iff {digits : List Char} {n : Nat} : Signed ('+' :: digits) n ↔ Numeral digits n := by
  constructor
  · rintro (⟨-, hdigits, -⟩ | ⟨_, h, hnumeral⟩)
    · exact absurd (hdigits '+' List.mem_cons_self) (by decide)
    · cases h
      exact hnumeral
  · exact fun h => .inr ⟨digits, rfl, h⟩

/-- Without a plus sign the text itself is the numeral. -/
theorem signed_iff_of_ne {s : List Char} {n : Nat} (h : ∀ digits, s ≠ '+' :: digits) : Signed s n ↔ Numeral s n :=
  ⟨fun hs => hs.resolve_right fun ⟨digits, hplus, _⟩ => h digits hplus, .inl⟩

/-- What the reader does with the digits behind the sign. -/
theorem numeral_iff_read {digits : List Char} {n : Nat} :
    (if digits.isEmpty || !digits.all Char.isDigit then none
      else if decimal digits ≤ Word.greatest then some (decimal digits) else none) = some n ↔
      Numeral digits n ∧ n ≤ Word.greatest := by
  have hform : (digits.isEmpty || !digits.all Char.isDigit) = false ↔ digits ≠ [] ∧
      ∀ c ∈ digits, c.isDigit := by
    simp
  rw [decimal_eq]
  by_cases h : (digits.isEmpty || !digits.all Char.isDigit) = true
  · rw [if_pos h]
    refine iff_of_false nofun fun hn => ?_
    rw [hform.mpr ⟨hn.1.1, hn.1.2.1⟩] at h
    exact Bool.false_ne_true h
  · obtain ⟨hne, hdigits⟩ := hform.mp (Bool.eq_false_iff.mpr h)
    rw [if_neg h]
    constructor
    · intro hread
      by_cases hle : Nat.ofDigitChars 10 digits 0 ≤ Word.greatest
      · rw [if_pos hle] at hread
        cases hread
        exact ⟨⟨hne, hdigits, rfl⟩, hle⟩
      · rw [if_neg hle] at hread
        cases hread
    · rintro ⟨⟨-, -, rfl⟩, hle⟩
      exact if_pos hle

/-- The reader of numbers accepts the signed numerals of values that fit. -/
theorem word?_eq_some_iff {s : List Char} {n : Nat} : word? s = some n ↔ Signed s n ∧ n ≤ Word.greatest := by
  by_cases h : ∃ digits, s = '+' :: digits
  · obtain ⟨digits, rfl⟩ := h
    rw [signed_plus_iff]
    exact numeral_iff_read
  · have hplus : ∀ digits, s ≠ '+' :: digits := fun digits hs => h ⟨digits, hs⟩
    rw [signed_iff_of_ne hplus, ← numeral_iff_read, word?]
    exact hplus

/-- The decimal digits of a number are read as that number. -/
theorem signed_toString (n : Nat) : Signed (toString n).toList n := by
  rw [Nat.toString_eq_ofList_toDigits, String.toList_ofList]
  exact .inl ⟨Nat.toDigits_ne_nil, fun c => Nat.isDigit_of_mem_toDigits (by decide) (by decide),
    Nat.ofDigitChars_toDigits (by decide) (by decide)⟩

/-- There is no white space about the digits of a number. -/
theorem trimmed_toString (n : Nat) : Trimmed (toString n).toList (toString n).toList := by
  rw [Nat.toString_eq_ofList_toDigits, String.toList_ofList]
  have hdigit : ∀ c ∈ Nat.toDigits 10 n, isBlank c = false := fun c hc =>
    isBlank_of_isDigit (Nat.isDigit_of_mem_toDigits (by decide) (by decide) hc)
  exact ⟨⟨[], [], (List.append_nil _).symm, nofun, nofun⟩, fun c hc => hdigit c (List.mem_of_mem_head? hc),
    fun c hc => hdigit c (List.mem_of_getLast? hc)⟩

end Sluice.Text
