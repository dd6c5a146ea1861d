/-
Hexadecimal digits, told apart from all other characters.

The reader of digits knows `0` to `9` and the letters `a` to `f` in either case, and nothing else:
a digit of another script has no value (`hexValue?_eq_some_iff`). What a digit stands for is said
by its place among the sixteen (`digitNumber`).
-/
import Nic.Proofs.Text.Uppercase
import Nic.Text.Hex

set_option autoImplicit false

namespace Nic.Text

/-- The hexadecimal digits, in both cases. -/
def IsHexDigit (c : Char) : Prop := c ∈ "0123456789abcdefABCDEF".toList

instance : DecidablePred IsHexDigit :=
  fun c => inferInstanceAs (Decidable (c ∈ "0123456789abcdefABCDEF".toList))

theorem IsHexDigit.ascii {c : Char} (h : IsHexDigit c) : c.toNat < 128 := by
  have hall : "0123456789abcdefABCDEF".toList.all (·.toNat < 128) := by decide +kernel
  exact of_decide_eq_true (List.all_eq_true.mp hall c h)

theorem hexValue?_of_not_ascii {c : Char} (h : ¬ c.toNat < 128) : hexValue? c = none := by
  have hle : ∀ d : Char, d.toNat < 128 → ¬ c ≤ d := by
    intro d hd hcd
    exact h (Nat.lt_of_le_of_lt hcd hd)
  rw [hexValue?, if_neg fun hc => hle '9' (by decide) hc.2,
    if_neg fun hc => hle 'f' (by decide) hc.2, if_neg fun hc => hle 'F' (by decide) hc.2]

/-- **What has a value is a digit, and written again it is the digit in its small form.** -/
theorem hexValue?_eq_some_iff {c : Char} {d : Nibble} :
    hexValue? c = some d ↔ IsHexDigit c ∧ hexDigit d = c.toLower := by
  by_cases hc : c.toNat < 128
  · revert d
    apply of_ascii hc
    decide +kernel
  · rw [hexValue?_of_not_ascii hc]
    exact ⟨fun h => (nomatch h), fun h => absurd h.1.ascii hc⟩

theorem exists_hexValue? {c : Char} (h : IsHexDigit c) : ∃ d, hexValue? c = some d := by
  have hall : "0123456789abcdefABCDEF".toList.all (hexValue? · |>.isSome) := by decide +kernel
  exact Option.isSome_iff_exists.mp (List.all_eq_true.mp hall c h)

theorem hexValue?_of_not_isHexDigit {c : Char} (h : ¬ IsHexDigit c) : hexValue? c = none :=
  Option.eq_none_iff_forall_ne_some.mpr fun _ hd => h (hexValue?_eq_some_iff.mp hd).1

theorem isHexDigit_hexDigit : ∀ d : Nibble, IsHexDigit (hexDigit d) := by decide +kernel

/-- The number that a digit stands for: its place among the sixteen digits. -/
def digitNumber (c : Char) : Nat := "0123456789abcdef".toList.idxOf c.toLower

/-- The value of a digit is the number that it stands for. -/
theorem hexValue?_map_toNat (c : Char) :
    (hexValue? c).map BitVec.toNat = if IsHexDigit c then some (digitNumber c) else none := by
  by_cases hc : c.toNat < 128
  · apply of_ascii hc
    decide +kernel
  · rw [hexValue?_of_not_ascii hc, if_neg fun h => hc h.ascii]
    rfl

/-- The decimal digits are those of the sixteen that stand for a number below ten. -/
theorem isDigit_iff_digitNumber_lt {c : Char} :
    c.isDigit = true ↔ IsHexDigit c ∧ digitNumber c < 10 := by
  by_cases hc : c.toNat < 128
  · apply of_ascii hc
    decide +kernel
  · refine ⟨fun h => ?_, fun h => absurd h.1.ascii hc⟩
    have := (isDigit_iff.mp h).2
    omega

theorem digitNumber_lt {c : Char} (h : IsHexDigit c) : digitNumber c < 16 := by
  have hall : "0123456789abcdefABCDEF".toList.all (digitNumber · < 16) := by decide +kernel
  exact of_decide_eq_true (List.all_eq_true.mp hall c h)

end Nic.Text
