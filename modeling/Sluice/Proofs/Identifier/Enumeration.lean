import Mathlib.Algebra.Order.Ring.Nat
import Sluice.Identifier.Alphanumeric

/-!
# Alphanumeric identifiers enumerate their width

The text of a number in base 36 has the width asked for, is made of digits and small letters, is read back as the
number if the width holds it (`readBase36_base36`), and stands before the text of any greater number in the order of
bytes (`bytes_base36_lt`). All three follow the recursion of `base36`, which adds a digit at the end.

A source is used up exactly at the lesser of the number of texts and the greatest word (`isExhausted_iff`), so the
calls of a run are told by the number of them (`after_eq`, `ids_eq`): they hand out the texts of 0, 1, 2, … until the
supply is over, and after that nothing. The calls on a source that is wider than any stretch of memory use up their
numbers too, but none of them has an identifier to hand out.
-/

namespace Sluice

/-! ### Digits and the numbers that they stand for -/

/-- The value of a digit in base 36. -/
def digitValue? (c : Char) : Option Nat :=
  if c.isDigit then some (c.toNat - '0'.toNat)
  else if c.isLower then some (c.toNat - 'a'.toNat + 10)
  else none

/-- The number that a text stands for in base 36. -/
def readBase36 (text : List Char) : Option Nat :=
  text.foldlM (fun n c => (digitValue? c).map (36 * n + ·)) 0

theorem digitValue?_base36Digit : ∀ n < 36, digitValue? (base36Digit n) = some n := by decide +kernel

theorem base36Digit_isDigit_or_isLower :
    ∀ n < 36, (base36Digit n).isDigit = true ∨ (base36Digit n).isLower = true := by
  decide +kernel

theorem readBase36_snoc {text : List Char} {n : Nat} (h : readBase36 text = some n) (c : Char) :
    readBase36 (text ++ [c]) = (digitValue? c).map (36 * n + ·) := by
  rw [readBase36] at h ⊢
  rw [List.foldlM_append, h]
  simp only [List.foldlM_cons, List.foldlM_nil, Option.bind_eq_bind, Option.bind_some, bind_pure]

@[simp]
theorem length_base36 (width n : Nat) : (base36 width n).length = width := by
  induction width generalizing n with
  | zero => rfl
  | succ width ih => rw [base36_succ, List.length_append, ih, List.length_singleton]

theorem isDigit_or_isLower_of_mem {width n : Nat} {c : Char} (hc : c ∈ base36 width n) :
    c.isDigit = true ∨ c.isLower = true := by
  induction width generalizing n with
  | zero => cases hc
  | succ width ih =>
    rw [base36_succ] at hc
    rcases List.mem_append.mp hc with hc | hc
    · exact ih hc
    · obtain rfl := List.mem_singleton.mp hc
      exact base36Digit_isDigit_or_isLower _ (Nat.mod_lt n (by decide))

theorem readBase36_mod (width n : Nat) : readBase36 (base36 width n) = some (n % 36 ^ width) := by
  induction width generalizing n with
  | zero => rw [Nat.pow_zero, Nat.mod_one]; rfl
  | succ width ih =>
    have hlast := digitValue?_base36Digit (n % 36) (Nat.mod_lt n (by decide))
    have hmod : n % 36 ^ (width + 1) = 36 * (n / 36 % 36 ^ width) + n % 36 := by
      rw [Nat.pow_succ', Nat.mod_mul, Nat.add_comm]
    rw [base36_succ, readBase36_snoc (ih (n / 36)), hlast, hmod, Option.map_some]

/-- A text that is wide enough for a number is read back as it. -/
theorem readBase36_base36 {width n : Nat} (h : n < 36 ^ width) : readBase36 (base36 width n) = some n := by
  rw [readBase36_mod, Nat.mod_eq_of_lt h]

/-! ### The order of bytes -/

/-- The bytes of a text. -/
def textBytes (text : String) : List UInt8 := text.toUTF8.data.toList

theorem textBytes_ofList (text : List Char) :
    textBytes (String.ofList text) = text.flatMap String.utf8EncodeChar := by
  rw [textBytes, String.toUTF8, String.toByteArray_ofList, List.utf8Encode, List.toList_data_toByteArray]

/-- What follows two lists of one length does not matter to which of them is less. -/
theorem append_lt_append {l l' : List UInt8} (h : l < l') (hlen : l.length = l'.length) (m m' : List UInt8) :
    l ++ m < l' ++ m' := by
  induction l generalizing l' with
  | nil =>
    cases l' with
    | nil => exact absurd h (List.lt_irrefl [])
    | cons b l' => cases hlen
  | cons a l ih =>
    cases l' with
    | nil => cases hlen
    | cons b l' =>
      refine List.cons_lt_cons_iff.mpr ?_
      rcases List.cons_lt_cons_iff.mp h with hlt | ⟨heq, hlt⟩
      · exact .inl hlt
      · exact .inr ⟨heq, ih hlt (Nat.succ.inj hlen)⟩

/-- The bytes of the last digits of a number in base 36. -/
def base36Bytes (width n : Nat) : List UInt8 := (base36 width n).flatMap String.utf8EncodeChar

theorem utf8EncodeChar_base36Digit :
    ∀ n < 36, String.utf8EncodeChar (base36Digit n) = [UInt8.ofNat (base36Digit n).toNat] := by
  decide +kernel

/-- The digits are in ascending order. -/
theorem base36Digit_lt :
    ∀ n < 36, ∀ m < n, UInt8.ofNat (base36Digit m).toNat < UInt8.ofNat (base36Digit n).toNat := by
  decide +kernel

theorem base36Bytes_succ (width n : Nat) :
    base36Bytes (width + 1) n = base36Bytes width (n / 36) ++ [UInt8.ofNat (base36Digit (n % 36)).toNat] := by
  rw [base36Bytes, base36_succ, List.flatMap_append, List.flatMap_singleton,
    utf8EncodeChar_base36Digit _ (Nat.mod_lt n (by decide)), base36Bytes]

theorem length_base36Bytes (width n : Nat) : (base36Bytes width n).length = width := by
  induction width generalizing n with
  | zero => rfl
  | succ width ih => rw [base36Bytes_succ, List.length_append, ih, List.length_singleton]

/-- The text of a lesser number is less, byte by byte. -/
theorem base36Bytes_lt {width m n : Nat} (hmn : m < n) (hn : n < 36 ^ width) :
    base36Bytes width m < base36Bytes width n := by
  induction width generalizing m n with
  | zero =>
    rw [Nat.pow_zero] at hn
    omega
  | succ width ih =>
    rw [base36Bytes_succ, base36Bytes_succ]
    rcases Nat.lt_or_eq_of_le (Nat.div_le_div_right (c := 36) hmn.le) with hlt | heq
    · -- The numbers differ before the last digit.
      have hfront : n / 36 < 36 ^ width := by
        rw [Nat.pow_succ] at hn
        omega
      exact append_lt_append (ih hlt hfront) (by rw [length_base36Bytes, length_base36Bytes]) _ _
    · have hlast : m % 36 < n % 36 := by omega
      rw [heq]
      refine List.append_left_lt (List.cons_lt_cons_iff.mpr (.inl ?_))
      exact base36Digit_lt _ (Nat.mod_lt n (by decide)) _ hlast

namespace Alphanumeric

/-! ### The supply of a width -/

/-- How many identifiers of a width there are to hand out: all texts, but no more than words can count. -/
def supply (width : Nat) : Nat := min (36 ^ width) (2 ^ 64 - 1)

/-- A source is used up when it has handed out the supply of its width, whether or not a word can hold the number of
texts. -/
theorem isExhausted_iff (a : Alphanumeric) : a.isExhausted = true ↔ supply a.width ≤ a.upcoming := by
  have hgreatest : Word.greatest = 2 ^ 64 - 1 := Word.greatest_eq
  rw [isExhausted, capacity, Bool.or_eq_true, decide_eq_true_eq, hgreatest, supply]
  by_cases hwidth : a.width ≤ 12
  · have hpow : Nat.pow 36 a.width = 36 ^ a.width := rfl
    rw [if_pos hwidth, Option.any_some, decide_eq_true_eq, hpow]
    omega
  · -- Thirteen digits make more texts than there are words.
    have hmany : 2 ^ 64 - 1 ≤ 36 ^ a.width := by
      calc 2 ^ 64 - 1
        _ ≤ 36 ^ 13 := by decide
        _ ≤ 36 ^ a.width := Nat.pow_le_pow_right (by decide) (by omega)
    rw [if_neg hwidth, Option.any_none, min_eq_right hmany]
    simp only [Bool.false_eq_true, or_false]

/-! ### Calls -/

/-- The source after some number of calls. -/
def after (a : Alphanumeric) : Nat → Alphanumeric
  | 0 => a
  | calls + 1 => (a.after calls).next.2

/-- The identifiers that some number of calls hand out, in their order. -/
def ids (a : Alphanumeric) : Nat → List String
  | 0 => []
  | calls + 1 => a.ids calls ++ (a.after calls).next.1.toOption.toList

/-- The text of a number as an identifier of a width. -/
def idText (width n : Nat) : String := String.ofList (base36 width n)

theorem write_of_room {width : Nat} (hroom : width ≤ Room.mostThings) (upcoming : Nat) :
    write ⟨width, upcoming⟩ = .ok (idText width upcoming) := by
  rw [write, (Room.things_eq_ok_iff width).mpr hroom]
  rfl

theorem write_of_no_room {width : Nat} (hroom : Room.mostThings < width) (upcoming : Nat) :
    write ⟨width, upcoming⟩ = .error (.noRoom .memory) := by
  have hshort : Room.things width = .error .memory := if_neg (Nat.not_le.mpr hroom)
  rw [write, hshort]

theorem next_of_lt {width upcoming : Nat} (h : upcoming < supply width) :
    next ⟨width, upcoming⟩ = (write ⟨width, upcoming⟩, ⟨width, upcoming + 1⟩) := by
  have hleft : isExhausted ⟨width, upcoming⟩ = false := by
    rw [← Bool.not_eq_true, isExhausted_iff]
    exact Nat.not_le.mpr h
  rw [next, if_neg (Bool.eq_false_iff.mp hleft)]

theorem next_of_le {width upcoming : Nat} (h : supply width ≤ upcoming) :
    next ⟨width, upcoming⟩ = (.error (.exhausted "alphanumeric ids"), ⟨width, upcoming⟩) :=
  if_pos ((isExhausted_iff _).mpr h)

/-! ### Runs of calls -/

/-- Every call takes a number as long as there are some, whatever comes of it. -/
theorem after_eq (width calls : Nat) : after ⟨width, 0⟩ calls = ⟨width, min calls (supply width)⟩ := by
  induction calls with
  | zero => rw [Nat.zero_min]; rfl
  | succ calls ih =>
    rw [after, ih]
    by_cases h : calls < supply width
    · rw [Nat.min_eq_left h.le, next_of_lt h, Nat.min_eq_left h]
    · have hover : supply width ≤ calls := Nat.not_lt.mp h
      rw [Nat.min_eq_right hover, next_of_le (Nat.le_refl _), Nat.min_eq_right (hover.trans (Nat.le_succ calls))]

/-- The calls hand out the texts of the first numbers, as far as the supply goes. -/
theorem ids_eq {width : Nat} (hroom : width ≤ Room.mostThings) (calls : Nat) :
    ids ⟨width, 0⟩ calls = (List.range (min calls (supply width))).map (idText width) := by
  induction calls with
  | zero => rw [Nat.zero_min]; rfl
  | succ calls ih =>
    rw [ids, ih, after_eq]
    by_cases h : calls < supply width
    · rw [Nat.min_eq_left h.le, next_of_lt h, write_of_room hroom, Nat.min_eq_left h, List.range_succ,
        List.map_append]
      rfl
    · have hover : supply width ≤ calls := Nat.not_lt.mp h
      rw [Nat.min_eq_right hover, next_of_le (Nat.le_refl _), Nat.min_eq_right (hover.trans (Nat.le_succ calls))]
      exact List.append_nil _

theorem ids_of_no_room {width : Nat} (hroom : Room.mostThings < width) (calls : Nat) :
    ids ⟨width, 0⟩ calls = [] := by
  induction calls with
  | zero => rfl
  | succ calls ih =>
    rw [ids, ih, after_eq]
    by_cases h : calls < supply width
    · rw [Nat.min_eq_left h.le, next_of_lt h, write_of_no_room hroom]
      rfl
    · rw [Nat.min_eq_right (Nat.not_lt.mp h), next_of_le (Nat.le_refl _)]
      rfl

theorem pairwise_idText {width count : Nat} (h : count ≤ 36 ^ width) :
    ((List.range count).map (idText width)).Pairwise fun id later => textBytes id < textBytes later := by
  rw [List.pairwise_map]
  refine List.pairwise_lt_range.imp_of_mem fun {m n} _ hn hmn => ?_
  rw [idText, idText, textBytes_ofList, textBytes_ofList]
  exact base36Bytes_lt hmn ((List.mem_range.mp hn).trans_le h)

/-- **Identifiers enumerate their width.** Of the calls on a new source as many succeed as the width has identifiers
and words can count, provided that a stretch of memory can have that width. The successful call number `k` hands out
the text of `k` with as many digits as asked for; these texts ascend in the order of bytes, so none comes twice; and
once the supply is over every call is refused and leaves the source as it is. On a source that is wider no call
succeeds: each one takes its number and finds no room for the text. -/
theorem enumerates_width {width : Nat} (hwidth : 0 < width) :
    ∃ source, ofWidth width = .ok source ∧ ∀ calls,
      (source.ids calls).length =
        (if width ≤ Room.mostThings then min calls (min (36 ^ width) (2 ^ 64 - 1)) else 0) ∧
      (∀ k id, (source.ids calls)[k]? = some id →
        id.length = width ∧ (∀ c ∈ id.toList, c.isDigit ∨ c.isLower) ∧ readBase36 id.toList = some k) ∧
      (source.ids calls).Pairwise (fun id later => textBytes id < textBytes later) ∧
      (source.ids calls).Nodup ∧
      (min (36 ^ width) (2 ^ 64 - 1) ≤ calls →
        (source.after calls).next = (.error (.exhausted "alphanumeric ids"), source.after calls)) ∧
      (Room.mostThings < width → calls < min (36 ^ width) (2 ^ 64 - 1) →
        (source.after calls).next = (.error (.noRoom .memory), ⟨width, calls + 1⟩)) := by
  refine ⟨⟨width, 0⟩, if_neg hwidth.ne', fun calls => ?_⟩
  have hexhausted : supply width ≤ calls →
      (after ⟨width, 0⟩ calls).next = (.error (.exhausted "alphanumeric ids"), after ⟨width, 0⟩ calls) := by
    intro hover
    rw [after_eq, Nat.min_eq_right hover]
    exact next_of_le (Nat.le_refl _)
  have hwasted : Room.mostThings < width → calls < supply width →
      (after ⟨width, 0⟩ calls).next = (.error (.noRoom .memory), ⟨width, calls + 1⟩) := by
    intro hroom hleft
    rw [after_eq, Nat.min_eq_left hleft.le, next_of_lt hleft, write_of_no_room hroom]
  by_cases hroom : width ≤ Room.mostThings
  · have hfew : min calls (supply width) ≤ 36 ^ width :=
      (Nat.min_le_right _ _).trans (Nat.min_le_left _ _)
    have hordered := pairwise_idText hfew
    rw [ids_eq hroom, if_pos hroom]
    refine ⟨?_, fun k id hid => ?_, hordered, hordered.imp ?_, hexhausted, hwasted⟩
    · rw [List.length_map, List.length_range, supply]
    · obtain ⟨hk, rfl⟩ := List.getElem?_eq_some_iff.mp hid
      rw [List.length_map, List.length_range] at hk
      rw [List.getElem_map, List.getElem_range, idText, String.length_ofList, String.toList_ofList]
      exact ⟨length_base36 width k, fun c hc => isDigit_or_isLower_of_mem hc,
        readBase36_base36 (hk.trans_le hfew)⟩
    · rintro id later hlt rfl
      exact List.lt_irrefl _ hlt
  · rw [ids_of_no_room (Nat.not_le.mp hroom), if_neg hroom]
    exact ⟨rfl, fun k id hid => by simp at hid, .nil, .nil, hexhausted, hwasted⟩

/-- With one digit, thirty-six of forty calls succeed, and the next one is refused. -/
theorem enumerates_width_one :
    0 < 1 ∧ ∃ source, ofWidth 1 = .ok source ∧ (source.ids 40).length = 36 ∧
      (source.after 40).next = (.error (.exhausted "alphanumeric ids"), source.after 40) := by
  obtain ⟨source, hsource, hall⟩ := enumerates_width Nat.one_pos
  obtain ⟨hlength, -, -, -, hover, -⟩ := hall 40
  exact ⟨Nat.one_pos, source, hsource, hlength.trans (by decide), hover (by decide)⟩

/-- A width that no stretch of memory can have. -/
def vastWidth : Nat := 2 ^ 63

/-- There is a source for it, but no identifier can be had from it. -/
theorem vastWidth_has_no_ids :
    ∃ source, ofWidth vastWidth = .ok source ∧
      ¬ ∀ calls, (source.ids calls).length = min calls (min (36 ^ vastWidth) (2 ^ 64 - 1)) := by
  refine ⟨⟨vastWidth, 0⟩, if_neg (by decide), fun hall => ?_⟩
  have hroom : Room.mostThings < vastWidth := by decide
  have hnone := ids_of_no_room hroom 1
  have htexts : 0 < 36 ^ vastWidth := Nat.pow_pos (by decide)
  have hone := hall 1
  rw [hnone, List.length_nil] at hone
  omega

end Alphanumeric

end Sluice
