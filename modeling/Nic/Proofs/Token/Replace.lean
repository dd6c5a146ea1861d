/-
Putting another token in the place of a digit.

If a zero stands in a text as a token of its own, then a number or a name with a displacement can
stand in its place, and all other tokens stay as they are: no token before it goes on into it, since
none goes on into the zero, and it ends where the zero ends, since no word character follows. So the
tokens of the text are those before, whatever the new piece is read as, and those after
(`readAs_number`, `readAs_displaced`). The new piece may well be a fault.

A zero serves as the mark since it is a digit and a word character: whatever piece looks past its
end for either, finds one and goes on (`pieceAt_append_of_zero`).
-/
import Nic.Proofs.Token.Spelling

set_option autoImplicit false

namespace Nic.Token

/-! ## Up to a zero -/

/-- A run that does not go on with a character that it could go on with ends before. -/
theorem length_takeWhile_lt {q : Char → Bool} {c : Char} (hc : q c = true) {x y : List Char}
    (h : ((x ++ c :: y).takeWhile q).length ≤ x.length) : (x.takeWhile q).length < x.length := by
  have hle := (List.takeWhile_prefix (l := x) q).length_le
  rw [List.takeWhile_append] at h
  split at h
  · rw [List.takeWhile_cons_of_pos hc, List.length_append, List.length_cons] at h
    omega
  · omega

theorem takeWhile_append_of_lt {q : Char → Bool} {x : List Char}
    (h : (x.takeWhile q).length < x.length) (z : List Char) :
    (x ++ z).takeWhile q = x.takeWhile q := by
  rw [List.takeWhile_append, if_neg (Nat.ne_of_lt h)]

/-- A displacement that does not go on with the zero ends before. -/
theorem displacement?_append_of_zero {x y : List Char}
    (h : ∀ negative digits, displacement? (x ++ '0' :: y) = some (negative, digits) →
      1 + digits.length ≤ x.length) (hx : x ≠ []) (z : List Char) :
    displacement? (x ++ z) = displacement? x := by
  match x with
  | [] => exact absurd rfl hx
  | [a] =>
    -- a sign at the end would have the zero as its digit
    have hsign : ¬ (a = '+' ∨ a = '-') := by
      intro ha
      have hdigits := h _ _ ((displacement?_cons_cons a '0' y).trans (if_pos ⟨ha, by decide⟩))
      simp only [List.length_cons, List.length_nil] at hdigits
      omega
    cases z with
    | nil => rfl
    | cons d z =>
      rw [List.singleton_append, displacement?_cons_cons, if_neg fun hd => hsign hd.1,
        displacement?_singleton]
  | a :: d :: x =>
    rw [List.cons_append, List.cons_append, displacement?_cons_cons] at h ⊢
    rw [displacement?_cons_cons]
    split
    next hd =>
      have hlen := h _ _ (if_pos hd)
      simp only [List.length_cons] at hlen
      have hle : (wordRun (x ++ '0' :: y)).length ≤ x.length := by omega
      rw [wordRun, takeWhile_append_of_lt (length_takeWhile_lt (by decide) hle), ← wordRun]
    next => rfl

/-- **A piece that ends before a zero ends there**, also if something else follows. Only a slash
may become the start of a comment. -/
theorem pieceAt_append_of_zero {c : Char} {x y : List Char}
    (h : (pieceAt c (x ++ '0' :: y)).more ≤ x.length) {z : List Char} (hz : z.head? ≠ some '/') :
    pieceAt c (x ++ z) = pieceAt c x := by
  cases pieceShape c with
  | single content hsingle => rw [hsingle, hsingle]
  | slash hc =>
    subst hc
    rw [pieceAt_slash] at h
    rw [pieceAt_slash, pieceAt_slash]
    cases x with
    | nil =>
      rw [List.nil_append, if_neg hz]
      rfl
    | cons a x =>
      have hhead : ∀ y, (a :: x ++ y).head? = (a :: x).head? := fun _ => rfl
      rw [hhead] at h ⊢
      by_cases ha : (a :: x).head? = some '/'
      · rw [if_pos ha] at h
        rw [if_pos ha, if_pos ha, takeWhile_append_of_lt (length_takeWhile_lt (by decide) h)]
      · rw [if_neg ha, if_neg ha]
  | number read hnumber =>
    rw [hnumber] at h
    have hrun : wordRun (x ++ z) = wordRun x :=
      takeWhile_append_of_lt (length_takeWhile_lt (by decide) h) z
    rw [hnumber, hnumber, hrun]
  | name hc =>
    rw [pieceAt_name hc] at h
    have hle : (wordRun (x ++ '0' :: y)).length ≤ x.length := by
      split at h <;> dsimp only at h <;> omega
    have hlt : (wordRun x).length < x.length := length_takeWhile_lt (by decide) hle
    have hrun : ∀ z, wordRun (x ++ z) = wordRun x := takeWhile_append_of_lt hlt
    have hdrop : ∀ z, (x ++ z).drop (wordRun x).length = x.drop (wordRun x).length ++ z :=
      fun z => List.drop_append_of_le_length (Nat.le_of_lt hlt)
    rw [hrun, hdrop] at h
    have hdisp : displacement? (x.drop (wordRun x).length ++ z) =
        displacement? (x.drop (wordRun x).length) := by
      refine displacement?_append_of_zero (y := y) (fun negative digits hsome => ?_) ?_ z
      · rw [hsome] at h
        dsimp only at h
        rw [List.length_drop]
        omega
      · rw [Ne, List.drop_eq_nil_iff]
        omega
    rw [pieceAt_name hc, pieceAt_name hc, hrun, hdrop, hdisp]

theorem Apart.of_zero {x y : List Char} (h : Apart ('0' :: y) x) {z : List Char}
    (hz : z.head? ≠ some '/') : Apart z x := by
  induction h with
  | nil => exact .nil
  | piece hle _ ih =>
    refine .piece ?_ ih
    rw [pieceAt_append_of_zero hle hz]
    exact more_le _ _

/-! ## A token of its own -/

/-- Between `x` and `y`, the text `w` is read as one token or one fault. -/
def IsToken (x w y : String) : Prop :=
  ∃ l ∈ scan (x ++ w ++ y), l.span = ⟨x.utf8ByteSize, x.utf8ByteSize + w.utf8ByteSize⟩

instance (x w y : String) : Decidable (IsToken x w y) :=
  inferInstanceAs (Decidable (∃ l ∈ scan (x ++ w ++ y),
    l.span = ⟨x.utf8ByteSize, x.utf8ByteSize + w.utf8ByteSize⟩))

/-- A text is cut where a token starts. -/
theorem apart_of_mem_scanFrom {x z : List Char} {offset : Nat} {l : Lexeme}
    (hl : l ∈ scanFrom offset (x ++ z)) (hstart : l.span.start = offset + Text.byteLength x) :
    Apart z x := by
  induction x using pieces_induction generalizing offset with
  | nil => exact .nil
  | piece c x ih =>
    have hc := byteLength_pos (List.cons_ne_nil c x)
    rw [List.cons_append, scanFrom_cons] at hl
    -- the token is behind the first piece, which is not empty
    have hrest : l ∈ scanFrom
        (offset + Text.byteLength (c :: (x ++ z).take (pieceAt c (x ++ z)).more))
        ((x ++ z).drop (pieceAt c (x ++ z)).more) := by
      rcases List.mem_append.mp hl with hfirst | hrest
      · obtain ⟨value, -, rfl⟩ := List.mem_map.mp hfirst
        dsimp only at hstart
        omega
      · exact hrest
    have hle : (pieceAt c (x ++ z)).more ≤ x.length := by
      have hbehind := (bounds_of_mem_scanFrom hrest).1
      rw [hstart] at hbehind
      by_contra hlt
      have hpast := byteLength_lt_of_lt_more (Nat.lt_of_not_le hlt)
      omega
    refine .piece hle (@ih (offset + Text.byteLength (c :: x.take (pieceAt c x).more)) ?_ ?_)
    · rw [pieceAt_append_of_le hle] at hrest hle
      rwa [List.take_append_of_le_length hle, List.drop_append_of_le_length hle] at hrest
    · rw [hstart, Nat.add_assoc, byteLength_piece]

/-- A zero at the start of a text, if it is a token of its own, has no word character after it. -/
theorem wordRun_eq_nil_of_mem {y : List Char} {offset : Nat} {l : Lexeme}
    (hl : l ∈ scanFrom offset ('0' :: y)) (hspan : l.span = ⟨offset, offset + 1⟩) :
    wordRun y = [] := by
  have hzero : Text.byteLength ('0' :: y.take (wordRun y).length) =
      1 + Text.byteLength (y.take (wordRun y).length) := Text.byteLength_cons _ _
  rw [scanFrom_cons, pieceAt_digit (by decide), hzero] at hl
  rcases List.mem_append.mp hl with hfirst | hrest
  · have hstop := congrArg Span.stop hspan
    rw [Piece.lexemes, List.mem_map] at hfirst
    obtain ⟨value, -, rfl⟩ := hfirst
    dsimp only at hstop
    have hempty : y.take (wordRun y).length = [] := by
      by_contra hne
      have := byteLength_pos hne
      omega
    rw [List.take_eq_nil_iff, List.length_eq_zero_iff] at hempty
    rcases hempty with hrun | rfl
    · exact hrun
    · rfl
  · have hbehind := (bounds_of_mem_scanFrom hrest).1
    rw [hspan] at hbehind
    dsimp only at hbehind
    omega

/-- Where a zero is a token of its own, the text before it is cut off, and no word character
follows. -/
theorem IsToken.zero {x y : String} (h : IsToken x "0" y) :
    Apart ('0' :: y.toList) x.toList ∧ wordRun y.toList = [] := by
  obtain ⟨l, hl, hspan⟩ := h
  have htext : (x ++ "0" ++ y).toList = x.toList ++ '0' :: y.toList := by
    rw [String.toList_append, String.toList_append, List.append_assoc]
    rfl
  change l ∈ scanFrom 0 (x ++ "0" ++ y).toList at hl
  rw [htext] at hl
  rw [← Text.byteLength_toList, ← Text.byteLength_toList] at hspan
  have hstart : l.span.start = 0 + Text.byteLength x.toList := by rw [hspan, Nat.zero_add]
  have hapart : Apart ('0' :: y.toList) x.toList := apart_of_mem_scanFrom hl hstart
  refine ⟨hapart, ?_⟩
  -- the token is behind the text before it, so it is the zero
  rw [hapart.splits] at hl
  rcases List.mem_append.mp hl with hbefore | hzero
  · have hbounds := bounds_of_mem_scanFrom hbefore
    rw [hspan] at hbounds
    dsimp only at hbounds
    have hone : Text.byteLength "0".toList = 1 := by decide
    omega
  · refine wordRun_eq_nil_of_mem hzero ?_
    rw [hspan, Nat.zero_add]
    rfl

/-! ## Another token in its place -/

/-- Whether a text is read as a number without a sign, be it right or wrong: it is a decimal digit
of any script, and word characters after it. -/
def isUnsigned : List Char → Bool
  | [] => false
  | c :: cs => Text.isDecimalDigit c && cs.all Text.isWordChar

/-- Whether a text is read as a number with a minus sign, be it right or wrong. -/
def isNegative : List Char → Bool
  | '-' :: cs => cs.all Text.isWordChar
  | _ => false

/-- Between `x` and `y`, the text `w` is read as this token or fault, and the texts around it as
they are read alone. -/
def ReadAs (x w y : String) (value : Except LexicalFault Token) : Prop :=
  values (x ++ w ++ y).toList = values x.toList ++ value :: values y.toList

section Replace

variable {x y : String}

/-- A text of one piece is read in place of the zero. -/
theorem IsToken.readAs (h : IsToken x "0" y) {w : String} {c : Char} {cs : List Char}
    {value : Except LexicalFault Token} (hw : w.toList = c :: cs) (hc : c ≠ '/')
    (hpiece : pieceAt c (cs ++ y.toList) = ⟨some value, cs.length⟩) : ReadAs x w y value := by
  have hapart : Apart (c :: (cs ++ y.toList)) x.toList :=
    h.zero.1.of_zero fun hslash => hc (Option.some.inj hslash)
  rw [ReadAs, String.toList_append, String.toList_append, hw, List.append_assoc, List.cons_append,
    hapart.splits.values_append, values_cons, hpiece, List.drop_left]
  rfl

theorem readAs_unsigned (h : IsToken x "0" y) {w : String} (hw : isUnsigned w.toList = true) :
    ReadAs x w y (readUnsigned w.toList) := by
  cases htext : w.toList with
  | nil =>
    rw [htext] at hw
    cases hw
  | cons c cs =>
    rw [htext, isUnsigned, Bool.and_eq_true] at hw
    refine h.readAs htext (ne_of_mem_marks (by decide) (.inr hw.1)) ?_
    rw [pieceAt_digit hw.1, wordRun_append_of_nil hw.2 h.zero.2]

/-- A number, right or wrong, is read as a whole. -/
theorem readAs_number (h : IsToken x "0" y) {w : String}
    (hw : isUnsigned w.toList = true ∨ isNegative w.toList = true) :
    ReadAs x w y (readNumber w.toList) := by
  rcases hw with hw | hw
  · rw [readNumber_of_ne]
    · exact readAs_unsigned h hw
    · intro hminus
      obtain ⟨cs, hcs⟩ := List.head?_eq_some_iff.mp hminus
      rw [hcs, isUnsigned, show Text.isDecimalDigit '-' = false by decide] at hw
      cases hw
  · unfold isNegative at hw
    split at hw
    next cs htext =>
      rw [htext]
      refine h.readAs htext (by decide) ?_
      rw [pieceAt_minus, wordRun_append_of_nil hw h.zero.2]
      rfl
    next => cases hw

/-- A name with a displacement. -/
def displacedText (name : String) (negative : Bool) (digits : String) : String :=
  name ++ (if negative then "-" else "+") ++ digits

theorem toList_displacedText (name : String) (negative : Bool) (digits : String) :
    ∃ sign : Char, (sign = '+' ∨ sign = '-') ∧ (sign == '-') = negative ∧
      (displacedText name negative digits).toList = name.toList ++ sign :: digits.toList := by
  cases negative with
  | false => exact ⟨'+', .inl rfl, rfl, by simp [displacedText]⟩
  | true => exact ⟨'-', .inr rfl, rfl, by simp [displacedText]⟩

/-- A name with a displacement, right or wrong, is read as a whole. -/
theorem readAs_displaced (h : IsToken x "0" y) {name digits : String} {negative : Bool}
    (hname : isWord name.toList = true) (hdigits : isUnsigned digits.toList = true) :
    ReadAs x (displacedText name negative digits) y
      (readDisplaced name.toList negative digits.toList) := by
  obtain ⟨sign, hsign, rfl, htext⟩ := toList_displacedText name negative digits
  match hcs : name.toList, hds : digits.toList with
  | [], _ =>
    rw [hcs] at hname
    cases hname
  | _, [] =>
    rw [hds] at hdigits
    cases hdigits
  | c :: cs, d :: ds =>
    rw [hcs, isWord, Bool.and_eq_true] at hname
    rw [hds, isUnsigned, Bool.and_eq_true] at hdigits
    rw [hcs, hds] at htext
    exact h.readAs htext (ne_slash_of_isNameStart hname.1)
      (pieceAt_displaced hname.1 hname.2 hsign hdigits.1 hdigits.2 h.zero.2)

end Replace

end Nic.Token
