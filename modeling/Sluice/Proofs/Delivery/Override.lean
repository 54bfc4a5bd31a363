import Mathlib.Algebra.Ring.Nat
import Sluice.Proofs.Delivery.Settings
import Sluice.Proofs.Text.Grammar

/-!
# What a text does to the speed limit

An override is a text from the environment. What it says is up to the characters between the white space at its ends:
they lift the limit, or set it to some number, or are of no account. `SpeedOverride.Lifts` and `SpeedOverride.Sets` are
these characters, and they exclude each other because a word begins with a letter and a numeral does not.
`override_follows_grammar` reads the effect of a text on all settings off them.
-/

namespace Sluice

namespace SpeedOverride

open Text

variable {core : List Char} {n : Nat}

/-- The trimmed texts that lift the speed limit: the words for no limit, and zero. -/
def Lifts (core : List Char) : Prop := AnyCase "none" core ∨ AnyCase "unlimited" core ∨ Signed core 0

/-- The trimmed texts that set the speed limit to a number. -/
def Sets (core : List Char) (n : Nat) : Prop := Signed core n ∧ 0 < n ∧ n < 2 ^ 64

/-- A numeral is no word for no limit, whose first letter is neither a digit nor a plus sign. -/
theorem not_anyCase_of_signed (h : Signed core n) : ¬ (AnyCase "none" core ∨ AnyCase "unlimited" core) := by
  obtain ⟨c, rest, rfl, hc⟩ := h.exists_cons
  rintro (hword | hword)
  · obtain ⟨rfl | rfl, -⟩ := List.forall₂_cons.mp hword <;> exact absurd hc (by decide)
  · obtain ⟨rfl | rfl, -⟩ := List.forall₂_cons.mp hword <;> exact absurd hc (by decide)

theorem isWord_iff_anyCase :
    (isWord core "none" || isWord core "unlimited") = true ↔ AnyCase "none" core ∨ AnyCase "unlimited" core := by
  rw [Bool.or_eq_true, isWord_iff (by decide), isWord_iff (by decide)]

theorem lt_iff_le_greatest : n < 2 ^ 64 ↔ n ≤ Word.greatest := by
  rw [Word.greatest]
  omega

/-- How the reader goes about it: the words come first, then the number. -/
theorem ofText?_eq (s : List Char) :
    (AnyCase "none" (trim s) ∨ AnyCase "unlimited" (trim s)) ∧ ofText? s = some .unlimited ∨
      ¬ (AnyCase "none" (trim s) ∨ AnyCase "unlimited" (trim s)) ∧
        ofText? s = (word? (trim s)).map fun n => if n = 0 then .unlimited else .limited n := by
  rw [← isWord_iff_anyCase, ofText?]
  by_cases hword : (isWord (trim s) "none" || isWord (trim s) "unlimited") = true
  · exact .inl ⟨hword, if_pos hword⟩
  · refine .inr ⟨hword, (if_neg hword).trans ?_⟩
    cases word? (trim s) with
    | none => rfl
    | some n => cases n <;> rfl

theorem ofText?_eq_unlimited_iff {s : List Char} : ofText? s = some .unlimited ↔ Lifts (trim s) := by
  obtain ⟨hword, h⟩ | ⟨hword, h⟩ := ofText?_eq s
  · exact iff_of_true h (hword.elim .inl fun hw => .inr (.inl hw))
  · have hlifts : Lifts (trim s) ↔ Signed (trim s) 0 := by
      rw [Lifts, ← or_assoc]
      exact or_iff_right hword
    have hzero : word? (trim s) = some 0 ↔ Signed (trim s) 0 :=
      word?_eq_some_iff.trans (and_iff_left (Nat.zero_le _))
    rw [h, hlifts, ← hzero]
    cases word? (trim s) with
    | none => exact iff_of_false nofun nofun
    | some n => cases n <;> simp

theorem ofText?_eq_limited_iff {s : List Char} : ofText? s = some (.limited n) ↔ Sets (trim s) n := by
  rw [Sets, lt_iff_le_greatest]
  obtain ⟨hword, h⟩ | ⟨hword, h⟩ := ofText?_eq s
  · rw [h]
    exact iff_of_false nofun fun hsets => not_anyCase_of_signed hsets.1 hword
  · have hread : word? (trim s) = some n ↔ Signed (trim s) n ∧ n ≤ Word.greatest := word?_eq_some_iff
    rw [h, and_left_comm, ← hread, and_comm]
    cases word? (trim s) with
    | none => exact iff_of_false nofun fun hn => nomatch hn.1
    | some m =>
      cases m with
      | zero => exact iff_of_false nofun fun hn => absurd hn.2 (Option.some.inj hn.1 ▸ Nat.lt_irrefl 0)
      | succ m =>
        constructor
        · rintro ⟨⟩
          exact ⟨rfl, Nat.succ_pos m⟩
        · rintro ⟨⟨⟩, -⟩
          rfl

/-- Zero is not among the limits that are set. -/
theorem limit?_ne_zero {s : List Char} {o : SpeedOverride} (h : ofText? s = some o) : o.limit? ≠ some 0 := by
  cases o with
  | unlimited => exact nofun
  | limited limit =>
    have hpos := (ofText?_eq_limited_iff.mp h).2.1
    exact fun hzero => absurd (Option.some.inj hzero) (Nat.ne_of_gt hpos)

end SpeedOverride

namespace DelivererSettings

open Text SpeedOverride

variable {text : String}

/-- An override is what its text is read as. -/
theorem override_of_read {o : SpeedOverride} (h : ofText? text.toList = some o) (s : DelivererSettings) :
    s.override (some text) = { s with speedLimit := o.limit? } := by
  rw [override, Option.bind_some, h]

theorem override_of_unread (h : ofText? text.toList = none) (s : DelivererSettings) : s.override (some text) = s := by
  rw [override, Option.bind_some, h]

/-- Settings that a text can be told by: they have a limit, and it is not the given number. -/
def limited (n : Nat) : DelivererSettings := { small with speedLimit := some (n + 1) }

/-- What a text is read as can be told from what it does to all settings. -/
theorem read_of_override {limit : Option Nat}
    (h : ∀ s : DelivererSettings, s.override (some text) = { s with speedLimit := limit }) :
    ∃ o, ofText? text.toList = some o ∧ o.limit? = limit := by
  cases hread : ofText? text.toList with
  | none =>
    have hsame := (override_of_unread hread (limited (limit.getD 0))).symm.trans (h _)
    have hlimit : some (limit.getD 0 + 1) = limit := congrArg speedLimit hsame
    cases limit with
    | none => cases hlimit
    | some n => exact absurd (Option.some.inj hlimit) (Nat.succ_ne_self n)
  | some o =>
    exact ⟨o, rfl, congrArg speedLimit ((override_of_read hread small).symm.trans (h small))⟩

theorem lifts_iff :
    Lifts (trim text.toList) ↔ ∀ s : DelivererSettings, s.override (some text) = { s with speedLimit := none } := by
  rw [← ofText?_eq_unlimited_iff]
  refine ⟨fun h => override_of_read h, fun h => ?_⟩
  obtain ⟨o, hread, hlimit⟩ := read_of_override h
  cases o with
  | unlimited => exact hread
  | limited n => cases hlimit

theorem sets_iff {n : Nat} :
    Sets (trim text.toList) n ↔
      ∀ s : DelivererSettings, s.override (some text) = { s with speedLimit := some n } := by
  rw [← ofText?_eq_limited_iff]
  refine ⟨fun h => override_of_read h, fun h => ?_⟩
  obtain ⟨o, hread, hlimit⟩ := read_of_override h
  cases o with
  | unlimited => cases hlimit
  | limited m =>
    cases hlimit
    exact hread

/-- A text is of no account if it neither lifts the limit nor sets it. -/
theorem unread_iff :
    ofText? text.toList = none ↔ ¬ Lifts (trim text.toList) ∧ ∀ n, ¬ Sets (trim text.toList) n := by
  rw [← ofText?_eq_unlimited_iff]
  constructor
  · intro h
    refine ⟨fun hlifts => ?_, fun n hsets => ?_⟩
    · cases h.symm.trans hlifts
    · cases h.symm.trans (ofText?_eq_limited_iff.mpr hsets)
  · rintro ⟨hlifts, hsets⟩
    cases hread : ofText? text.toList with
    | none => rfl
    | some o =>
      cases o with
      | unlimited => exact absurd hread hlifts
      | limited n => exact absurd (ofText?_eq_limited_iff.mp hread) (hsets n)

theorem override_eq_self_iff :
    (¬ Lifts (trim text.toList) ∧ ∀ n, ¬ Sets (trim text.toList) n) ↔
      ∀ s : DelivererSettings, s.override (some text) = s := by
  rw [← unread_iff]
  refine ⟨override_of_unread, fun h => ?_⟩
  cases hread : ofText? text.toList with
  | none => rfl
  | some o =>
    -- no settings but those with the limit of the text would be left alone
    have hlimit : ∀ n, o.limit? = some (n + 1) := fun n =>
      congrArg speedLimit ((override_of_read hread (limited n)).symm.trans (h (limited n)))
    cases (hlimit 0).symm.trans (hlimit 1)

/-- A text changes the speed limit and nothing else. -/
theorem override_speedLimit_only (s : DelivererSettings) :
    { s.override (some text) with speedLimit := s.speedLimit } = s := by
  cases hread : ofText? text.toList with
  | none => rw [override_of_unread hread]
  | some o => rw [override_of_read hread]

/-- Once a text has been heeded, it has nothing to change. -/
theorem override_override (s : DelivererSettings) :
    (s.override (some text)).override (some text) = s.override (some text) := by
  cases hread : ofText? text.toList with
  | none => rw [override_of_unread hread, override_of_unread hread]
  | some o => rw [override_of_read hread, override_of_read hread]

theorem Proper.override {s : DelivererSettings} (h : s.Proper) : (s.override (some text)).Proper := by
  cases hread : ofText? text.toList with
  | none => rwa [override_of_unread hread]
  | some o =>
    rw [override_of_read hread]
    exact ⟨h.window, limit?_ne_zero hread, h.maxTargets, h.maxBacklog, h.capacity⟩

/-- **A text says what its grammar says.** Between the white space at the ends of a text there is one row of characters;
the text removes the limit of all settings exactly if these are a word for no limit or a zero, sets it to a number
exactly if they are a numeral of that number, which is above zero and fits into a word of memory, and leaves all
settings as they are exactly if they are neither. No text changes anything but the limit, changes anything twice, or
makes settings invalid; and the digits of a number set the limit to that number. -/
theorem override_follows_grammar :
    (∀ text : String, ∃ core, Trimmed text.toList core ∧
      (∀ other, Trimmed text.toList other → other = core) ∧
      (Lifts core ↔ ∀ s : DelivererSettings, s.override (some text) = { s with speedLimit := none }) ∧
      (∀ n, Sets core n ↔ ∀ s : DelivererSettings, s.override (some text) = { s with speedLimit := some n }) ∧
      ((¬ Lifts core ∧ ∀ n, ¬ Sets core n) ↔ ∀ s : DelivererSettings, s.override (some text) = s)) ∧
    (∀ (text : String) (s : DelivererSettings),
      { s.override (some text) with speedLimit := s.speedLimit } = s ∧
      (s.override (some text)).override (some text) = s.override (some text) ∧
      (s.validate = .ok () → (s.override (some text)).validate = .ok ())) ∧
    ∀ n, 0 < n → n < 2 ^ 64 → ∀ s : DelivererSettings,
      s.override (some (toString n)) = { s with speedLimit := some n } := by
  refine ⟨fun text => ?_, fun text s => ?_, fun n hpos hfits => ?_⟩
  · exact ⟨trim text.toList, trimmed_trim _, fun other h => (trim_eq_iff.mpr h).symm, lifts_iff, fun n => sets_iff,
      override_eq_self_iff⟩
  · exact ⟨override_speedLimit_only s, override_override s, fun h =>
      validate_eq_ok_iff.mpr (validate_eq_ok_iff.mp h).override⟩
  · have htrim : trim (toString n).toList = (toString n).toList := trim_eq_iff.mpr (trimmed_toString n)
    refine sets_iff.mp ?_
    rw [htrim]
    exact ⟨signed_toString n, hpos, hfits⟩

/-- Four texts: one with white space around a word in capital and small letters, one with a sign and leading zeros, one
with two signs, and the digits of the greatest word. -/
theorem override_follows_grammar_texts :
    (∀ s : DelivererSettings, s.override (some "\u2003NoNe\u3000") = { s with speedLimit := none }) ∧
    (∀ s : DelivererSettings, s.override (some "\t+0012 ") = { s with speedLimit := some 12 }) ∧
    (∀ s : DelivererSettings, s.override (some "++12") = s) ∧
    ∀ s : DelivererSettings,
      s.override (some (toString 18446744073709551615)) = { s with speedLimit := some 18446744073709551615 } := by
  obtain ⟨hgrammar, -, hdigits⟩ := override_follows_grammar
  obtain ⟨word, hword, -, hlifts, -, -⟩ := hgrammar "\u2003NoNe\u3000"
  obtain ⟨number, hnumber, -, -, hsets, -⟩ := hgrammar "\t+0012 "
  obtain ⟨neither, hneither, -, -, -, hsame⟩ := hgrammar "++12"
  rw [← trim_eq_iff] at hword hnumber hneither
  subst hword hnumber hneither
  refine ⟨hlifts.mp ?_, (hsets 12).mp ?_, hsame.mp ?_, hdigits _ (by decide) (by decide)⟩
  · exact ofText?_eq_unlimited_iff.mp (by decide +kernel)
  · exact ofText?_eq_limited_iff.mp (by decide +kernel)
  · exact unread_iff.mp (by decide +kernel)

end DelivererSettings

end Sluice
