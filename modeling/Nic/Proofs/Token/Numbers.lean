/-
Numbers as they are written, and what the readers make of them.

`Magnitude` and `Numeral` say which texts are numbers and which number each of them is; they know
nothing of limits and faults. A reader has a limit, adds digits from the left and stops at the first
one that takes it past the limit. That is the same as a limit on the whole number, since the value
only grows (`le_addDigits`), so leading zeros cost nothing. Hence a reader accepts exactly the
numbers within its limit, each with its value: `readUnsigned_eq_ok_iff`, `readNegative_eq_ok_iff`
and `readDisplaced_eq_ok_iff`.
-/
import Mathlib.Data.Nat.Digits.Defs
import Nic.Proofs.Text.Hex
import Nic.Token.Number

set_option autoImplicit false

namespace Nic.Token

open Text

/-! ## How numbers are written -/

/-- The number that a sequence of digits is, the most significant one first. -/
def numberOf (radix : Nat) (digits : List Char) : Nat :=
  Nat.ofDigits radix (digits.map digitNumber).reverse

/-- A number without a sign is written as one or more decimal digits, or as `0x` or `0X` and one or
more hexadecimal digits. Only the digits of ASCII count. -/
inductive Magnitude : List Char → Nat → Prop where
  | decimal {digits : List Char} (hne : digits ≠ []) (h : ∀ c ∈ digits, c.isDigit = true) :
    Magnitude digits (numberOf 10 digits)
  | hexadecimal {x : Char} {digits : List Char} (hx : x = 'x' ∨ x = 'X') (hne : digits ≠ [])
    (h : ∀ c ∈ digits, IsHexDigit c) :
    Magnitude ('0' :: x :: digits) (numberOf 16 digits)

/-- A number may have a minus sign. -/
inductive Numeral : List Char → Int → Prop where
  | unsigned {cs : List Char} {n : Nat} (h : Magnitude cs n) : Numeral cs n
  | negative {cs : List Char} {n : Nat} (h : Magnitude cs n) : Numeral ('-' :: cs) (-n)

/-- A number with its sign. -/
def withSign (negative : Bool) (n : Nat) : Int :=
  if negative then -n else n

/-! ## Digits from the left -/

theorem digitValue?_ten (c : Char) :
    digitValue? 10 c = if c.isDigit = true then some (digitNumber c) else none := by
  rw [digitValue?, hexValue?_map_toNat]
  by_cases hc : IsHexDigit c
  · simp only [hc, if_true, Option.filter_some, isDigit_iff_digitNumber_lt, true_and,
      decide_eq_true_eq]
  · simp only [hc, if_false, Option.filter_none, isDigit_iff_digitNumber_lt, false_and]

theorem digitValue?_sixteen (c : Char) :
    digitValue? 16 c = if IsHexDigit c then some (digitNumber c) else none := by
  rw [digitValue?, hexValue?_map_toNat]
  by_cases hc : IsHexDigit c
  · simp only [hc, if_true, Option.filter_some, digitNumber_lt hc, decide_true]
  · simp only [hc, if_false, Option.filter_none]

/-- The value with all of these digits added. -/
def addDigits (radix value : Nat) (digits : List Char) : Nat :=
  digits.foldl (fun v c => v * radix + digitNumber c) value

theorem addDigits_zero (radix : Nat) (digits : List Char) :
    addDigits radix 0 digits = numberOf radix digits := by
  rw [addDigits, numberOf, Nat.ofDigits_eq_foldr, List.foldr_reverse, List.foldl_map]
  simp only [Nat.cast_id, Nat.add_comm, Nat.mul_comm]

/-- Digits never make a value smaller. -/
theorem le_addDigits {radix : Nat} (hradix : 0 < radix) (value : Nat) (digits : List Char) :
    value ≤ addDigits radix value digits := by
  induction digits generalizing value with
  | nil => exact Nat.le_refl value
  | cons c digits ih =>
    calc value ≤ value * radix := Nat.le_mul_of_pos_right value hradix
      _ ≤ value * radix + digitNumber c := Nat.le_add_right _ _
      _ ≤ addDigits radix value (c :: digits) := ih _

section Radix

variable {radix : Nat} {p : Char → Prop} [DecidablePred p]

/-- **A limit at each digit is a limit on the number.** -/
theorem foldlM_addDigit_eq_ok_iff (hradix : 0 < radix)
    (hp : ∀ c, digitValue? radix c = if p c then some (digitNumber c) else none)
    {limit value n : Nat} (hvalue : value ≤ limit) {digits : List Char} :
    digits.foldlM (addDigit radix limit) value = .ok n ↔
      (∀ c ∈ digits, p c) ∧ addDigits radix value digits = n ∧ n ≤ limit := by
  induction digits generalizing value with
  | nil =>
    simp only [List.foldlM_nil, pure, Except.pure, Except.ok.injEq, List.not_mem_nil, false_implies,
      implies_true, true_and, addDigits, List.foldl_nil]
    constructor
    · rintro rfl
      exact ⟨rfl, hvalue⟩
    · exact And.left
  | cons c digits ih =>
    rw [List.foldlM_cons, addDigit, hp, List.forall_mem_cons]
    by_cases hc : p c
    · have hrest := le_addDigits hradix (value * radix + digitNumber c) digits
      by_cases hle : value * radix + digitNumber c ≤ limit
      · simp only [hc, hle, if_true, true_and]
        exact ih hle
      · -- the rest cannot bring the value back
        simp only [hc, hle, if_true, if_false, true_and]
        constructor
        · intro h
          cases h
        · rintro ⟨-, rfl, hn⟩
          exact absurd (Nat.le_trans hrest hn) hle
    · simp only [hc, if_false, false_and, iff_false]
      intro h
      cases h

theorem readDigits_eq_ok_iff (hradix : 0 < radix)
    (hp : ∀ c, digitValue? radix c = if p c then some (digitNumber c) else none)
    {limit n : Nat} {digits : List Char} :
    readDigits radix limit digits = .ok n ↔
      digits ≠ [] ∧ (∀ c ∈ digits, p c) ∧ numberOf radix digits = n ∧ n ≤ limit := by
  cases digits with
  | nil => simp [readDigits]
  | cons c digits =>
    rw [readDigits, if_neg (by simp), foldlM_addDigit_eq_ok_iff hradix hp (Nat.zero_le limit),
      addDigits_zero]
    simp

end Radix

/-! ## Magnitudes -/

theorem mapError_eq_ok_iff {ε ε' α : Type} {f : ε → ε'} {r : Except ε α} {a : α} :
    r.mapError f = .ok a ↔ r = .ok a := by
  cases r <;> simp [Except.mapError]

theorem afterHexMark?_eq_some {cs digits : List Char} (h : afterHexMark? cs = some digits) :
    ∃ x, (x = 'x' ∨ x = 'X') ∧ cs = '0' :: x :: digits := by
  unfold afterHexMark? at h
  split at h
  · cases h
    exact ⟨'x', .inl rfl, rfl⟩
  · cases h
    exact ⟨'X', .inr rfl, rfl⟩
  · cases h

/-- Decimal digits are no hexadecimal number. -/
theorem afterHexMark?_of_digits {cs : List Char} (h : ∀ c ∈ cs, c.isDigit = true) :
    afterHexMark? cs = none := by
  have hx : 'x' ∉ cs := fun hmem => absurd (h _ hmem) (by decide)
  have hX : 'X' ∉ cs := fun hmem => absurd (h _ hmem) (by decide)
  unfold afterHexMark?
  split <;> simp_all

/-- What is read is a number, and it is not past the larger one of the two limits. -/
theorem magnitude_of_readMagnitude {limit n : Nat} {large : LexicalFault} {cs : List Char}
    (hlimit : limit ≤ 65535) (h : readMagnitude limit large cs = .ok n) :
    Magnitude cs n ∧ n ≤ 65535 := by
  unfold readMagnitude at h
  cases hmark : afterHexMark? cs with
  | some digits =>
    rw [hmark, mapError_eq_ok_iff, readDigits_eq_ok_iff (by decide) digitValue?_sixteen] at h
    obtain ⟨x, hx, rfl⟩ := afterHexMark?_eq_some hmark
    obtain ⟨hne, hdigits, rfl, hn⟩ := h
    exact ⟨.hexadecimal hx hne hdigits, hn⟩
  | none =>
    rw [hmark, mapError_eq_ok_iff, readDigits_eq_ok_iff (by decide) digitValue?_ten] at h
    obtain ⟨hne, hdigits, rfl, hn⟩ := h
    exact ⟨.decimal hne hdigits, Nat.le_trans hn hlimit⟩

/-- A number within both limits is read. -/
theorem readMagnitude_of_magnitude {limit n : Nat} {cs : List Char} (h : Magnitude cs n)
    (hn : n ≤ limit) (hlimit : limit ≤ 65535) (large : LexicalFault) :
    readMagnitude limit large cs = .ok n := by
  cases h with
  | decimal hne hdigits =>
    rw [readMagnitude, afterHexMark?_of_digits hdigits, mapError_eq_ok_iff,
      readDigits_eq_ok_iff (by decide) digitValue?_ten]
    exact ⟨hne, hdigits, rfl, hn⟩
  | @hexadecimal x digits hx hne hdigits =>
    have hmark : afterHexMark? ('0' :: x :: digits) = some digits := by
      rcases hx with rfl | rfl <;> rfl
    rw [readMagnitude, hmark, mapError_eq_ok_iff,
      readDigits_eq_ok_iff (by decide) digitValue?_sixteen]
    exact ⟨hne, hdigits, rfl, Nat.le_trans hn hlimit⟩

/-! ## Literals -/

theorem readUnsigned_eq_ok_iff {cs : List Char} {t : Token} :
    readUnsigned cs = .ok t ↔ ∃ n, Magnitude cs n ∧ n ≤ 65535 ∧ t = .unsigned n := by
  constructor
  · intro h
    cases hread : readMagnitude 65535 .exceedsUnsigned cs with
    | error fault =>
      rw [readUnsigned, hread] at h
      cases h
    | ok n =>
      rw [readUnsigned, hread] at h
      obtain ⟨hcs, hn⟩ := magnitude_of_readMagnitude (Nat.le_refl _) hread
      exact ⟨n, hcs, hn, (Except.ok.inj h).symm⟩
  · rintro ⟨n, hcs, hn, rfl⟩
    rw [readUnsigned, readMagnitude_of_magnitude hcs hn (Nat.le_refl _)]
    rfl

theorem readNegative_eq_ok_iff {cs : List Char} {t : Token} :
    readNegative cs = .ok t ↔ ∃ n, Magnitude cs n ∧ n ≤ 32768 ∧ t = .signed (-n) := by
  constructor
  · intro h
    cases hread : readMagnitude 32768 .exceedsSigned cs with
    | error fault =>
      rw [readNegative, hread] at h
      cases h
    | ok n =>
      rw [readNegative, hread] at h
      simp only [bind, Except.bind] at h
      split at h
      next hn =>
        exact ⟨n, (magnitude_of_readMagnitude (by decide) hread).1, hn, (Except.ok.inj h).symm⟩
      next => cases h
  · rintro ⟨n, hcs, hn, rfl⟩
    rw [readNegative, readMagnitude_of_magnitude hcs hn (by decide)]
    simp only [bind, Except.bind, hn, if_true]
    rfl

/-- The two signs have limits that differ by one. -/
theorem readDisplaced_eq (name : List Char) (negative : Bool) (cs : List Char) :
    readDisplaced name negative cs = (do
      let n ← readMagnitude 65535 .exceedsSigned cs
      if -32768 ≤ withSign negative n ∧ withSign negative n ≤ 32767 then
        return .displaced (String.ofList name) (withSign negative n)
      else throw .exceedsSigned) := by
  have hlimits : ∀ n : Nat, (-32768 ≤ withSign negative n ∧ withSign negative n ≤ 32767) ↔
      if negative then n ≤ 32768 else n ≤ 32767 := by
    intro n
    cases negative <;> simp only [withSign, Bool.false_eq_true, if_true, if_false] <;> omega
  simp only [readDisplaced, hlimits]
  cases negative <;> rfl

theorem readDisplaced_eq_ok_iff {name cs : List Char} {negative : Bool} {t : Token} :
    readDisplaced name negative cs = .ok t ↔
      ∃ n, Magnitude cs n ∧ (-32768 ≤ withSign negative n ∧ withSign negative n ≤ 32767) ∧
        t = .displaced (String.ofList name) (withSign negative n) := by
  rw [readDisplaced_eq]
  constructor
  · intro h
    cases hread : readMagnitude 65535 .exceedsSigned cs with
    | error fault =>
      rw [hread] at h
      cases h
    | ok n =>
      rw [hread] at h
      simp only [bind, Except.bind] at h
      split at h
      next hn =>
        exact ⟨n, (magnitude_of_readMagnitude (Nat.le_refl _) hread).1, hn,
          (Except.ok.inj h).symm⟩
      next => cases h
  · rintro ⟨n, hcs, hn, rfl⟩
    have hle : n ≤ 65535 := by
      cases negative <;> simp only [withSign, Bool.false_eq_true, if_true, if_false] at hn <;> omega
    rw [readMagnitude_of_magnitude hcs hle (Nat.le_refl _)]
    simp only [bind, Except.bind, hn, and_self, if_true]
    rfl

/-! ## Numerals -/

/-- Reads a number that may have a minus sign. -/
def readNumber : List Char → Except LexicalFault Token
  | '-' :: cs => readNegative cs
  | cs => readUnsigned cs

theorem readNumber_of_ne {cs : List Char} (h : cs.head? ≠ some '-') :
    readNumber cs = readUnsigned cs := by
  unfold readNumber
  split
  · exact absurd rfl h
  · rfl

theorem Magnitude.head_ne {cs : List Char} {n : Nat} (h : Magnitude cs n) :
    cs.head? ≠ some '-' := by
  cases h with
  | decimal _ hdigits =>
    intro hhead
    exact absurd (hdigits _ (List.mem_of_mem_head? hhead)) (by decide)
  | hexadecimal => simp

/-- A text is at most one number. -/
theorem Magnitude.unique {cs : List Char} {n m : Nat} (h : Magnitude cs n) (h' : Magnitude cs m) :
    n = m := by
  cases h with
  | decimal _ hdigits =>
    cases h' with
    | decimal => rfl
    | @hexadecimal x digits hx =>
      have := hdigits x (by simp)
      rcases hx with rfl | rfl <;> cases this
  | @hexadecimal x digits hx =>
    cases h' with
    | decimal _ hdigits =>
      have := hdigits x (by simp)
      rcases hx with rfl | rfl <;> cases this
    | hexadecimal => rfl

theorem numeral_minus_iff {cs : List Char} {v : Int} :
    Numeral ('-' :: cs) v ↔ ∃ n : Nat, Magnitude cs n ∧ v = -n := by
  constructor
  · intro h
    cases h with
    | unsigned h => exact absurd rfl h.head_ne
    | negative h => exact ⟨_, h, rfl⟩
  · rintro ⟨n, h, rfl⟩
    exact .negative h

theorem numeral_of_ne_iff {cs : List Char} (hcs : cs.head? ≠ some '-') {v : Int} :
    Numeral cs v ↔ ∃ n : Nat, Magnitude cs n ∧ v = n := by
  constructor
  · intro h
    cases h with
    | unsigned h => exact ⟨_, h, rfl⟩
    | negative h => exact absurd rfl hcs
  · rintro ⟨n, h, rfl⟩
    exact .unsigned h

theorem Numeral.unique {cs : List Char} {v v' : Int} (h : Numeral cs v) (h' : Numeral cs v') :
    v = v' := by
  cases h with
  | unsigned h =>
    obtain ⟨n, hn, rfl⟩ := (numeral_of_ne_iff h.head_ne).mp h'
    rw [h.unique hn]
  | negative h =>
    obtain ⟨n, hn, rfl⟩ := numeral_minus_iff.mp h'
    rw [h.unique hn]

end Nic.Token
