/-
Newlines among the bytes of a text.

The number of a line is found from the offsets of newlines, which are counted character by
character. It is also the number of bytes with the code of a newline (`Source.lineAt_eq_count`): no
character but the newline has such a byte, since all bytes of a character that is not ASCII are 128
or more.
-/
import Nic.Proofs.Executable.Text
import Nic.Proofs.Text.Lines

set_option autoImplicit false

namespace Nic.Text

open Executable

/-! ## The bytes of a character -/

theorem newline_ne_ofNat {n : Nat} (hlt : n < 256) (hne : n ≠ 10) : 10 ≠ UInt8.ofNat n := by
  intro heq
  have hcode : 10 = (UInt8.ofNat n).toNat := congrArg UInt8.toNat heq
  rw [UInt8.toNat_ofNat', Nat.mod_eq_of_lt hlt] at hcode
  exact hne hcode.symm

theorem newline_not_mem_utf8EncodeChar {c : Char} (hc : c ≠ '\n') :
    10 ∉ String.utf8EncodeChar c := by
  have hcode : c.val.toNat ≠ 10 := by
    intro heq
    exact hc (Char.ext (UInt32.toNat_inj.mp heq))
  unfold String.utf8EncodeChar
  dsimp only
  -- one byte is the code itself; of more bytes, each is what it adds to 128 or more
  split
  · rw [List.mem_singleton]
    exact newline_ne_ofNat (by omega) hcode
  split
  · simp only [List.mem_cons, List.not_mem_nil, or_false, not_or]
    exact ⟨newline_ne_ofNat (by omega) (by omega), newline_ne_ofNat (by omega) (by omega)⟩
  split
  · simp only [List.mem_cons, List.not_mem_nil, or_false, not_or]
    exact ⟨newline_ne_ofNat (by omega) (by omega), newline_ne_ofNat (by omega) (by omega),
      newline_ne_ofNat (by omega) (by omega)⟩
  · simp only [List.mem_cons, List.not_mem_nil, or_false, not_or]
    exact ⟨newline_ne_ofNat (by omega) (by omega), newline_ne_ofNat (by omega) (by omega),
      newline_ne_ofNat (by omega) (by omega), newline_ne_ofNat (by omega) (by omega)⟩

theorem newline_not_mem_utf8Bytes {c : Char} (hc : c ≠ '\n') :
    10 ∉ utf8Bytes (String.ofList [c]) := by
  have hbytes : [c].utf8Encode.data.toList = String.utf8EncodeChar c := by
    simp [List.utf8Encode]
  rw [utf8Bytes_ofList, hbytes, List.mem_map]
  rintro ⟨b, hb, h10⟩
  obtain rfl : b = 10 := UInt8.toBitVec_inj.mp h10
  exact newline_not_mem_utf8EncodeChar hc hb

theorem length_utf8Bytes_singleton (c : Char) :
    (utf8Bytes (String.ofList [c])).length = c.utf8Size := by
  rw [length_utf8Bytes_ofList, byteLength_cons, byteLength_nil, Nat.add_zero]

theorem utf8Bytes_newline : utf8Bytes (String.ofList ['\n']) = [10] := by decide +kernel

/-! ## The bytes of a text -/

theorem countP_newlinesFrom_of_le {base offset : Nat} (h : offset ≤ base) (cs : List Char) :
    (newlinesFrom base cs).countP (· < offset) = 0 := by
  rw [List.countP_eq_zero]
  intro n hn
  have hle := le_of_mem_newlinesFrom hn
  simp only [decide_eq_true_eq]
  omega

/-- Among the first bytes of a text, as many are newlines as there are newlines before that many
bytes, whether these bytes end between two characters or not. -/
theorem count_take_utf8Bytes (base n : Nat) (cs : List Char) :
    ((utf8Bytes (String.ofList cs)).take n).count 10 =
      (newlinesFrom base cs).countP (· < base + n) := by
  induction cs generalizing base n with
  | nil => simp [utf8Bytes, newlinesFrom]
  | cons c cs ih =>
    have hbytes : utf8Bytes (String.ofList (c :: cs)) =
        utf8Bytes (String.ofList [c]) ++ utf8Bytes (String.ofList cs) := utf8Bytes_append [c] cs
    rw [hbytes, List.take_append, length_utf8Bytes_singleton, List.count_append,
      ih (base + c.utf8Size), newlinesFrom_cons, List.countP_append]
    have hpos : 0 < c.utf8Size := c.utf8Size_pos
    -- what comes after the character is counted alike if the bytes reach so far, else not at all
    have hrest : (newlinesFrom (base + c.utf8Size) cs).countP
          (· < base + c.utf8Size + (n - c.utf8Size)) =
        (newlinesFrom (base + c.utf8Size) cs).countP (· < base + n) := by
      by_cases hn : c.utf8Size ≤ n
      · rw [Nat.add_assoc, Nat.add_sub_cancel' hn]
      · rw [countP_newlinesFrom_of_le (by omega), countP_newlinesFrom_of_le (by omega)]
    rw [hrest]
    congr 1
    by_cases hc : c = '\n'
    · subst hc
      rw [utf8Bytes_newline, if_pos rfl]
      cases n with
      | zero => simp
      | succ n => simp
    · rw [if_neg hc, List.countP_nil]
      apply List.count_eq_zero_of_not_mem
      intro hmem
      exact newline_not_mem_utf8Bytes hc (List.mem_of_mem_take hmem)

/-- A text without a newline has no such byte. -/
theorem newline_not_mem_utf8Bytes_ofList {cs : List Char} (h : '\n' ∉ cs) :
    10 ∉ utf8Bytes (String.ofList cs) := by
  have hcount := count_take_utf8Bytes 0 (utf8Bytes (String.ofList cs)).length cs
  rw [List.take_length, newlinesFrom_of_not_mem h, List.countP_nil] at hcount
  exact List.count_eq_zero.mp hcount

/-- **The number of a line is that of the newline bytes before it.** -/
theorem Source.lineAt_eq_count (s : Source) (offset : Nat) :
    s.lineAt offset = ((utf8Bytes s.text).take offset).count 10 := by
  have hcount := count_take_utf8Bytes 0 offset s.text.toList
  rw [String.ofList_toList, Nat.zero_add] at hcount
  exact hcount.symm

end Nic.Text
