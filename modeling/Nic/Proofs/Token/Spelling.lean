/-
Words that spell one token.

`Spells w t` says that `w` is read as the token `t` and as nothing else, before anything that no
token goes on with. Reserved words, registers, byte literals, names and names with a displacement
are spelt in this way by their printed forms, and words with blanks between them spell one token
each (`values_words`).

A printed name has to be read as a name again, not as a register or as a reserved word. For a name
in front of a displacement that is no matter; but if the displacement is zero, it is not printed.
Such a name is read as a name if another name with the same capital form is
(`ofName_of_uppercase`), since the capital form decides what is reserved.
-/
import Mathlib.Data.List.Forall2
import Nic.Proofs.Text.Uppercase
import Nic.Proofs.Token.Kinds

set_option autoImplicit false

namespace Nic.Token

/-! ## Spelling -/

/-- The word is read as this token, before anything that no token goes on with. -/
def Spells (w : List Char) (t : Token) : Prop :=
  ∀ y, Breaks y → values (w ++ y) = .ok t :: values y

/-- A word that is one piece spells its token. -/
theorem spells_of_piece {c : Char} {cs : List Char} {t : Token} (hc : c ≠ '/')
    (h : pieceAt c cs = ⟨some (.ok t), cs.length⟩) : Spells (c :: cs) t := by
  intro y hy
  have hpiece : pieceAt c (cs ++ y) = ⟨some (.ok t), cs.length⟩ := by
    rw [← h]
    exact pieceAt_append_of_breaks hy (fun hslash => absurd hslash hc)
      (fun hslash => absurd hslash hc)
  rw [List.cons_append, values_cons, hpiece, List.drop_left]
  rfl

/-- **Words with blanks between them spell one token each.** -/
theorem values_words {ws : List (List Char)} {ts : List Token} (h : List.Forall₂ Spells ws ts) :
    values ([' '].intercalate ws) = ts.map .ok := by
  have hblank : ∀ cs, values (' ' :: cs) = values cs := by
    intro cs
    rw [values_cons]
    rfl
  induction h with
  | nil => exact values_nil
  | @cons w t ws ts hw hws ih =>
    cases hws with
    | nil =>
      have hlast := hw [] (fun c hc => by cases hc)
      rw [List.append_nil, values_nil] at hlast
      rw [List.intercalate_singleton, hlast]
      rfl
    | cons _ _ =>
      rw [List.intercalate_cons_cons, List.append_assoc, hw _ fun c hc => ?_, List.cons_append,
        List.nil_append, hblank, ih]
      · rfl
      · cases hc
        decide

/-! ## Names -/

/-- Whether a text is a name as far as its characters go. -/
def isWord : List Char → Bool
  | [] => false
  | c :: cs => isNameStart c && cs.all Text.isWordChar

theorem ne_slash_of_isNameStart {c : Char} (hc : isNameStart c = true) : c ≠ '/' :=
  ne_of_mem_marks (by decide) (.inl hc)

theorem wordRun_eq_self {cs : List Char} (h : cs.all Text.isWordChar = true) : wordRun cs = cs :=
  List.takeWhile_eq_self_iff.mpr (List.all_eq_true.mp h)

/-- Word characters, up to what is none. -/
theorem wordRun_append_of_nil {cs y : List Char} (hcs : cs.all Text.isWordChar = true)
    (hy : wordRun y = []) : wordRun (cs ++ y) = cs := by
  rw [wordRun, List.takeWhile_append_of_pos (List.all_eq_true.mp hcs), ← wordRun, hy,
    List.append_nil]

theorem isWord_wordRun {c : Char} (hc : isNameStart c = true) (cs : List Char) :
    isWord (c :: wordRun cs) = true := by
  rw [isWord, hc, wordRun, List.all_takeWhile]
  rfl

/-- A name spells what it is read as. -/
theorem spells_word {w : List Char} {t : Token} (hw : isWord w = true) (h : ofName w = .ok t) :
    Spells w t := by
  cases w with
  | nil => cases hw
  | cons c cs =>
    rw [isWord, Bool.and_eq_true] at hw
    refine spells_of_piece (ne_slash_of_isNameStart hw.1) ?_
    rw [pieceAt_name hw.1, wordRun_eq_self hw.2, List.drop_length, h]
    rfl

/-- A reserved word spells its mnemonic. -/
theorem spells_mnemonic (m : Mnemonic) : Spells m.text.toList (.mnemonic m) := by
  have hall : ∀ m ∈ Mnemonic.all,
      isWord m.text.toList = true ∧ ofName m.text.toList = .ok (.mnemonic m) := by
    decide +kernel
  obtain ⟨hword, hname⟩ := hall m (Mnemonic.mem_all m)
  exact spells_word hword hname

/-- A register spells itself. -/
theorem spells_register (r : Reg) : Spells r.text.toList (.register r) := by
  have hall : ∀ n : Nibble, isWord (Reg.mk n).text.toList = true ∧
      ofName (Reg.mk n).text.toList = .ok (.register ⟨n⟩) := by
    decide +kernel
  obtain ⟨hword, hname⟩ := hall r.number
  exact spells_word hword hname

/-! ## Names with the same capital form -/

/-- A word is read as a name exactly if it is neither a register nor reserved. -/
theorem ofName_eq_name_iff {w : List Char} :
    ofName w = .ok (.name (String.ofList w)) ↔
      registerDigits? w = none ∧ Mnemonic.ofName? (String.ofList w) = none := by
  rw [ofName]
  cases registerDigits? w with
  | some digits =>
    refine ⟨fun h => ?_, fun h => nomatch h.1⟩
    obtain ⟨r, hr⟩ := readRegister_eq_ok h
    cases hr
  | none =>
    dsimp only
    cases Mnemonic.ofName? (String.ofList w) <;> simp

/-- Whether a capital form is that of a register. -/
def isRegisterForm : List Char → Bool
  | [] => false
  | u :: us => u == 'R' && !us.isEmpty && us.all Text.isDecimalDigit

theorem toUpper_eq_R {c : Char} (hc : c.toNat < 128) :
    (c.toUpper == 'R') = (c == 'r' || c == 'R') := by
  apply Text.of_ascii hc
  decide +kernel

/-- The capital form of a word decides whether it looks like a register. -/
theorem registerDigits?_isSome {w : List Char} (hw : isWord w = true) :
    (registerDigits? w).isSome = isRegisterForm (w.flatMap Text.upperChar) := by
  cases w with
  | nil => rfl
  | cons c cs =>
    rw [isWord, Bool.and_eq_true] at hw
    have hascii := (bounds_of_isNameStart hw.1).2
    have hempty : (cs.flatMap Text.upperChar).isEmpty = cs.isEmpty := by
      rw [Bool.eq_iff_iff, List.isEmpty_iff, List.isEmpty_iff, Text.flatMap_upperChar_eq_nil_iff]
    rw [List.flatMap_cons, Text.upperChar_of_ascii hascii, List.singleton_append, isRegisterForm,
      toUpper_eq_R hascii, hempty, Text.all_isDecimalDigit_flatMap_upperChar, registerDigits?]
    split
    next h => exact h.symm
    next h => exact (Bool.eq_false_iff.mpr h).symm

/-- **The capital form decides what is reserved.** A word with the capital form of a name is a
name. -/
theorem ofName_of_uppercase {w w' : List Char} (hw : isWord w = true) (hw' : isWord w' = true)
    (h : Text.uppercase (String.ofList w) = Text.uppercase (String.ofList w'))
    (hname : ofName w' = .ok (.name (String.ofList w'))) :
    ofName w = .ok (.name (String.ofList w)) := by
  rw [ofName_eq_name_iff] at hname ⊢
  have hform : w.flatMap Text.upperChar = w'.flatMap Text.upperChar := by
    simpa [Text.uppercase, String.ofList_inj] using h
  refine ⟨?_, ?_⟩
  · rw [← Option.not_isSome_iff_eq_none, registerDigits?_isSome hw, hform,
      ← registerDigits?_isSome hw', hname.1]
    exact Bool.false_ne_true
  · rw [Mnemonic.ofName?, h]
    exact hname.2

/-! ## Numbers -/

theorem toList_literal (b : Byte) :
    ("0x" ++ Text.hexByte b).toList = '0' :: 'x' :: Text.hexDigits b.digits := by
  rw [String.toList_append]
  exact congrArg ("0x".toList ++ ·) String.toList_ofList

/-- A byte literal is read as its value. -/
theorem read_literal : ∀ b : Byte, ('x' :: Text.hexDigits b.digits).all Text.isWordChar = true ∧
    readUnsigned ('0' :: 'x' :: Text.hexDigits b.digits) = .ok (.unsigned b.toNat) := by
  decide +kernel

/-- A byte literal spells its value. -/
theorem spells_literal (b : Byte) :
    Spells ("0x" ++ Text.hexByte b).toList (.unsigned b.toNat) := by
  obtain ⟨hword, hread⟩ := read_literal b
  rw [toList_literal]
  refine spells_of_piece (by decide) ?_
  rw [pieceAt_digit (by decide), wordRun_eq_self hword, hread]

theorem isDigit_of_mem_decimalDigits {n : Nat} {c : Char} (h : c ∈ Text.decimalDigits n) :
    c.isDigit = true := by
  have hdigit : ∀ d < 10, (Char.ofNat (48 + d)).isDigit = true := by decide
  fun_induction Text.decimalDigits n with
  | case1 n hn =>
    rw [List.mem_singleton.mp h]
    exact hdigit n hn
  | case2 n hn ih =>
    rcases List.mem_append.mp h with h | h
    · exact ih h
    · rw [List.mem_singleton.mp h]
      exact hdigit _ (Nat.mod_lt _ (by omega))

theorem decimalDigits_ne_nil (n : Nat) : Text.decimalDigits n ≠ [] := by
  unfold Text.decimalDigits
  split <;> simp

/-- Reading digits undoes writing them. -/
theorem readDigits_decimalDigits {n limit : Nat} (h : n ≤ limit) :
    readDigits 10 limit (Text.decimalDigits n) = .ok n := by
  have hvalue : ∀ d < 10, digitValue? 10 (Char.ofNat (48 + d)) = some d := by decide
  have hdigits : (Text.decimalDigits n).foldlM (addDigit 10 limit) 0 = .ok n := by
    fun_induction Text.decimalDigits n with
    | case1 n hn =>
      have hstep : addDigit 10 limit 0 (Char.ofNat (48 + n)) = .ok n := by
        simp [addDigit, hvalue n hn, h]
      rw [List.foldlM_cons, hstep]
      rfl
    | case2 n hn ih =>
      have hstep : addDigit 10 limit (n / 10) (Char.ofNat (48 + n % 10)) = .ok n := by
        have hn10 : n / 10 * 10 + n % 10 = n := Nat.div_add_mod' n 10
        simp [addDigit, hvalue (n % 10) (Nat.mod_lt _ (by omega)), hn10, h]
      rw [List.foldlM_append, ih (by omega)]
      change (List.foldlM (addDigit 10 limit) (n / 10) [Char.ofNat (48 + n % 10)]) = _
      rw [List.foldlM_cons, hstep]
      rfl
  rw [readDigits, if_neg (by simpa using decimalDigits_ne_nil n), hdigits]

/-- A name with a sign and digits is one piece, up to what is no word character. -/
theorem pieceAt_displaced {c sign d : Char} {cs ds y : List Char} (hc : isNameStart c = true)
    (hcs : cs.all Text.isWordChar = true) (hsign : sign = '+' ∨ sign = '-')
    (hd : Text.isDecimalDigit d = true) (hds : ds.all Text.isWordChar = true)
    (hy : wordRun y = []) :
    pieceAt c (cs ++ sign :: d :: ds ++ y) =
      ⟨some (readDisplaced (c :: cs) (sign == '-') (d :: ds)), (cs ++ sign :: d :: ds).length⟩ := by
  have hrun : wordRun (cs ++ sign :: d :: (ds ++ y)) = cs := by
    have hhead : ∀ e ∈ (sign :: d :: (ds ++ y)).head?, Text.isWordChar e = false := by
      intro e he
      cases he
      rcases hsign with rfl | rfl <;> decide
    rw [wordRun, takeWhile_append_of_head hhead]
    exact wordRun_eq_self hcs
  rw [List.append_assoc, List.cons_append, List.cons_append, pieceAt_name hc, hrun, List.drop_left,
    displacement?_cons_cons, if_pos ⟨hsign, hd⟩, wordRun_append_of_nil hds hy]
  simp [Nat.add_assoc, Nat.add_comm]

theorem readDisplaced_decimalDigits {w : List Char} {offset : Int}
    (hoffset : -32768 ≤ offset ∧ offset ≤ 32767) :
    readDisplaced w (decide (offset < 0)) (Text.decimalDigits offset.natAbs) =
      .ok (.displaced (String.ofList w) offset) := by
  have hread : readMagnitude 65535 .exceedsSigned (Text.decimalDigits offset.natAbs) =
      .ok offset.natAbs := by
    rw [readMagnitude, afterHexMark?_of_digits fun c => isDigit_of_mem_decimalDigits]
    exact congrArg (Except.mapError _) (readDigits_decimalDigits (by omega))
  rw [readDisplaced, hread]
  by_cases hneg : offset < 0
  · have hvalue : -(offset.natAbs : Int) = offset := by omega
    simp only [bind, Except.bind, hneg, decide_true, if_true, hvalue,
      show offset.natAbs ≤ 32768 by omega]
    rfl
  · have hvalue : (offset.natAbs : Int) = offset := by omega
    simp only [bind, Except.bind, hneg, decide_false, Bool.false_eq_true, if_false, if_true, hvalue,
      show offset.natAbs ≤ 32767 by omega]
    rfl

/-- A displacement is written as a sign and decimal digits. -/
theorem decimalSigned_toList (offset : Int) :
    ∃ sign, (sign = '+' ∨ sign = '-') ∧ (sign == '-') = decide (offset < 0) ∧
      (Text.decimalSigned offset).toList = sign :: Text.decimalDigits offset.natAbs := by
  unfold Text.decimalSigned
  by_cases hneg : offset < 0
  · rw [if_pos hneg, String.toList_append, decide_eq_true hneg]
    exact ⟨'-', .inr rfl, rfl, congrArg ("-".toList ++ ·) String.toList_ofList⟩
  · rw [if_neg hneg, String.toList_append, decide_eq_false hneg]
    exact ⟨'+', .inl rfl, rfl, congrArg ("+".toList ++ ·) String.toList_ofList⟩

/-- A name with a displacement spells both. -/
theorem spells_displaced {w : List Char} {offset : Int} (hw : isWord w = true)
    (hoffset : -32768 ≤ offset ∧ offset ≤ 32767) :
    Spells (w ++ (Text.decimalSigned offset).toList) (.displaced (String.ofList w) offset) := by
  obtain ⟨sign, hsign, hneg, htext⟩ := decimalSigned_toList offset
  obtain ⟨d, ds, hdigits⟩ := List.exists_cons_of_ne_nil (decimalDigits_ne_nil offset.natAbs)
  have hclass : ∀ e ∈ d :: ds, Text.isDecimalDigit e = true ∧ Text.isWordChar e = true := by
    intro e he
    have hdigit := isDigit_of_mem_decimalDigits (hdigits ▸ he)
    have hascii : e.toNat < 128 := Nat.lt_of_le_of_lt (Text.isDigit_iff.mp hdigit).2 (by decide)
    rw [Text.isDecimalDigit, Text.isWordChar, if_pos hascii, if_pos hascii, Char.isAlphanum, hdigit]
    simp
  cases w with
  | nil => cases hw
  | cons c cs =>
    rw [isWord, Bool.and_eq_true] at hw
    have hpiece := pieceAt_displaced hw.1 hw.2 hsign (hclass d List.mem_cons_self).1
      (List.all_eq_true.mpr fun e he => (hclass e (List.mem_cons_of_mem _ he)).2) (y := []) rfl
    rw [List.append_nil, hneg, ← hdigits, readDisplaced_decimalDigits hoffset, ← htext] at hpiece
    exact spells_of_piece (ne_slash_of_isNameStart hw.1) hpiece

end Nic.Token
