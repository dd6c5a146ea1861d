/-
Capital letters and decimal digits.

A text is all digits exactly if its capital form is (`all_isDecimalDigit_flatMap_upperChar`): no
digit has another capital, and no other character has a capital form of digits. Both are facts about
the tables, which are compared range by range.
-/
import Mathlib.Data.List.Basic
import Nic.Text.DecimalDigit
import Nic.Text.Uppercase

set_option autoImplicit false

namespace Nic.Text

/-! ## Characters below 128 -/

/-- What holds of each of the 128 holds of a character that is one of them. -/
theorem of_ascii {p : Char → Prop} {c : Char} (hc : c.toNat < 128)
    (h : ∀ n < 128, p (Char.ofNat n)) : p c := by
  have hn := h c.toNat hc
  rwa [Char.ofNat_toNat] at hn

theorem upperChar_of_ascii {c : Char} (hc : c.toNat < 128) : upperChar c = [c.toUpper] :=
  if_pos hc

theorem isDecimalDigit_toUpper {c : Char} (hc : c.toNat < 128) :
    isDecimalDigit c.toUpper = isDecimalDigit c := by
  apply of_ascii hc
  decide +kernel

/-! ## Ranges -/

theorem isDigit_iff {c : Char} : c.isDigit = true ↔ 48 ≤ c.toNat ∧ c.toNat ≤ 57 := by
  rw [Char.isDigit, Bool.and_eq_true, decide_eq_true_iff, decide_eq_true_iff]
  rfl

/-- A decimal digit is one of `0` to `9`, or in the table. -/
theorem isDecimalDigit_iff {c : Char} :
    isDecimalDigit c = true ↔
      ∃ d ∈ (48, 57) :: decimalDigitRanges, d.1 ≤ c.toNat ∧ c.toNat ≤ d.2 := by
  have htable : ∀ d ∈ decimalDigitRanges, 128 ≤ d.1 := by decide
  rw [isDecimalDigit, List.exists_mem_cons_iff]
  split
  · rw [isDigit_iff]
    refine ⟨.inl, ?_⟩
    rintro (h | ⟨d, hd, hle, -⟩)
    · exact h
    · have := htable d hd
      omega
  · rw [inRanges_eq_true_iff]
    refine ⟨.inr, ?_⟩
    rintro (h | h)
    · dsimp only at h
      omega
    · exact h

/-- Whether there is no decimal digit from one code point to another. -/
def noDigitWithin (first last : Nat) : Bool :=
  ((48, 57) :: decimalDigitRanges).all fun d => Nat.blt last d.1 || Nat.blt d.2 first

theorem isDecimalDigit_of_noDigitWithin {first last : Nat} {c : Char}
    (h : noDigitWithin first last = true) (hfirst : first ≤ c.toNat) (hlast : c.toNat ≤ last) :
    isDecimalDigit c = false := by
  rw [Bool.eq_false_iff, ne_eq, isDecimalDigit_iff]
  rintro ⟨d, hd, hle, hge⟩
  have hout := List.all_eq_true.mp h d hd
  rw [Bool.or_eq_true, Nat.blt_eq, Nat.blt_eq] at hout
  omega

/-- A code point, or zero if it is that of no character. -/
theorem toNat_ofNat (n : Nat) : (Char.ofNat n).toNat = n ∨ (Char.ofNat n).toNat = 0 := by
  by_cases h : n.isValidChar
  · rw [Char.ofNat, dif_pos h]
    exact .inl rfl
  · rw [Char.ofNat, dif_neg h]
    exact .inr rfl

/-! ## Tables -/

/-- No digit has another capital, and no capital is a digit. -/
theorem caseRuns_noDigit : (caseRuns.all fun r => noDigitWithin r.first r.last &&
    noDigitWithin (r.first + r.shift).toNat (r.last + r.shift).toNat) = true := by
  decide +kernel

/-- No digit has a capital form of many characters, and no such form is made of digits. -/
theorem expansions_noDigit : (expansions.all fun p => noDigitWithin p.1 p.1 &&
    p.2.any fun n => noDigitWithin n n) = true := by
  decide +kernel

/-! ## Characters -/

theorem CaseRun.bounds_of_contains {r : CaseRun} {n : Nat} (h : r.contains n = true) :
    r.first ≤ n ∧ n ≤ r.last := by
  rw [contains, Bool.and_eq_true, Bool.and_eq_true, decide_eq_true_iff, decide_eq_true_iff] at h
  exact h.1

/-- How a character can have its capital form. -/
inductive UpperCase (c : Char) : List Char → Prop where
  | ascii (h : c.toNat < 128) : UpperCase c [c.toUpper]
  | expansion {ns : List Nat} (h : (c.toNat, ns) ∈ expansions) : UpperCase c (ns.map Char.ofNat)
  | run {r : CaseRun} (h : r ∈ caseRuns) (hc : r.contains c.toNat = true) :
    UpperCase c [Char.ofNat (c.toNat + r.shift).toNat]
  | same : UpperCase c [c]

theorem upperCase_upperChar (c : Char) : UpperCase c (upperChar c) := by
  unfold upperChar
  split
  · exact .ascii ‹_›
  split
  next ns hlookup =>
    obtain ⟨before, after, heq, -⟩ := List.lookup_eq_some_iff.mp hlookup
    exact .expansion (heq ▸ List.mem_append_right _ List.mem_cons_self)
  split
  next r hfind =>
    have hcontains := List.find?_some hfind
    exact .run (List.mem_of_find?_eq_some hfind) hcontains
  · exact .same

/-- A code point where there is no digit is that of no digit. -/
theorem isDecimalDigit_ofNat {first last n : Nat} (h : noDigitWithin first last = true)
    (hfirst : first ≤ n) (hlast : n ≤ last) : isDecimalDigit (Char.ofNat n) = false := by
  rcases toNat_ofNat n with hn | hn
  · exact isDecimalDigit_of_noDigitWithin h (by omega) (by omega)
  · exact isDecimalDigit_of_noDigitWithin (by decide : noDigitWithin 0 0 = true)
      (Nat.zero_le _) (Nat.le_of_eq hn)

theorem UpperCase.all_isDecimalDigit {c : Char} {us : List Char} (h : UpperCase c us) :
    us.all isDecimalDigit = isDecimalDigit c := by
  cases h with
  | ascii h =>
    rw [List.all_cons, List.all_nil, Bool.and_true, isDecimalDigit_toUpper h]
  | @expansion ns h =>
    have hnone := List.all_eq_true.mp expansions_noDigit _ h
    rw [Bool.and_eq_true, List.any_eq_true] at hnone
    obtain ⟨hc, n, hn, hother⟩ := hnone
    rw [isDecimalDigit_of_noDigitWithin hc (Nat.le_refl _) (Nat.le_refl _), List.all_eq_false]
    refine ⟨Char.ofNat n, List.mem_map_of_mem hn, ?_⟩
    rw [isDecimalDigit_ofNat hother (Nat.le_refl _) (Nat.le_refl _)]
    exact Bool.false_ne_true
  | @run r h hc =>
    have hnone := List.all_eq_true.mp caseRuns_noDigit r h
    rw [Bool.and_eq_true] at hnone
    obtain ⟨hfirst, hlast⟩ := CaseRun.bounds_of_contains hc
    rw [isDecimalDigit_of_noDigitWithin hnone.1 hfirst hlast, List.all_cons, List.all_nil,
      Bool.and_true]
    exact isDecimalDigit_ofNat hnone.2 (by omega) (by omega)
  | same => rw [List.all_cons, List.all_nil, Bool.and_true]

theorem UpperCase.ne_nil {c : Char} {us : List Char} (h : UpperCase c us) : us ≠ [] := by
  cases h with
  | @expansion ns h =>
    have hnone := List.all_eq_true.mp expansions_noDigit _ h
    rw [Bool.and_eq_true, List.any_eq_true] at hnone
    obtain ⟨-, n, hn, -⟩ := hnone
    exact List.ne_nil_of_mem (List.mem_map_of_mem hn)
  | _ => exact List.cons_ne_nil _ _

/-! ## Texts -/

/-- A text has only digits exactly if its capital form has. -/
theorem all_isDecimalDigit_flatMap_upperChar (cs : List Char) :
    (cs.flatMap upperChar).all isDecimalDigit = cs.all isDecimalDigit := by
  rw [List.all_flatMap]
  congr 1
  funext c
  exact (upperCase_upperChar c).all_isDecimalDigit

theorem flatMap_upperChar_eq_nil_iff {cs : List Char} : cs.flatMap upperChar = [] ↔ cs = [] := by
  cases cs with
  | nil => simp
  | cons c cs => simp [List.flatMap_cons, (upperCase_upperChar c).ne_nil]

end Nic.Text
