/-
Where a text can be cut.

The scanner takes the longest piece at each character, so the tokens of `x ++ y` are in general
not those of `x` and those of `y`: a name at the end of `x` may go on in `y`. `Splits x y` says
that they are. A text splits

  - before every newline, whatever the text is (`splits_newline`);
  - at every place that is not within a token (`splits_of_not_inside`);
  - before every character that no token goes on with, unless it ends in a comment
    (`splits_or_comment`).

The work is to see how far `pieceAt` looks ahead. That is settled once, by the four shapes that a
piece can have (`pieceShape`): a piece of one character looks at nothing, a number at the run of
word characters, a name also at the two characters after its run, and a slash at one more
character or at the rest of the line.
-/
import Mathlib.Data.List.TakeWhile
import Nic.Proofs.Token.Scan

set_option autoImplicit false

namespace Nic.Token

/-! ## The shapes of pieces -/

/-- How the piece at a character depends on the text after it. -/
inductive PieceShape (c : Char) : Prop where
  /-- The piece is this character alone, whatever follows, and no comment. -/
  | single (content : Option (Except LexicalFault Token))
    (h : ∀ cs, pieceAt c cs = ⟨content, 0⟩)
  /-- A slash starts a comment if another one follows. -/
  | slash (hc : c = '/')
  /-- A number goes on over all word characters. -/
  | number (read : List Char → Except LexicalFault Token)
    (h : ∀ cs, pieceAt c cs = ⟨some (read (wordRun cs)), (wordRun cs).length⟩)
  /-- So does a name, and it may have a displacement. -/
  | name (hc : isNameStart c = true)

/-- What stands for itself, or starts a comment, starts neither a name nor a number. -/
theorem ne_of_mem_marks {c d : Char}
    (hd : d ∈ [' ', '\t', '\r', '\x0c', '\n', ':', ',', '/'])
    (hc : isNameStart c = true ∨ Text.isDecimalDigit c = true) : c ≠ d := by
  rintro rfl
  simp only [List.mem_cons, List.not_mem_nil, or_false] at hd
  revert hc
  rcases hd with rfl | rfl | rfl | rfl | rfl | rfl | rfl | rfl <;> decide

/-- A name starts with a character from `A` to `z`. -/
theorem bounds_of_isNameStart {c : Char} (hc : isNameStart c = true) :
    65 ≤ c.toNat ∧ c.toNat < 128 := by
  rcases (Bool.or_eq_true _ _).mp hc with hletter | hother
  · rcases (Bool.or_eq_true _ _).mp hletter with hupper | hlower
    · have hbounds : 'A'.toNat ≤ c.toNat ∧ c.toNat ≤ 'Z'.toNat := of_decide_eq_true hupper
      exact ⟨hbounds.1, Nat.lt_of_le_of_lt hbounds.2 (by decide)⟩
    · obtain ⟨hfirst, hlast⟩ := (Bool.and_eq_true _ _).mp hlower
      have hfirst : 'a'.toNat ≤ c.toNat := of_decide_eq_true hfirst
      have hlast : c.toNat ≤ 'z'.toNat := of_decide_eq_true hlast
      exact ⟨Nat.le_trans (by decide) hfirst, Nat.lt_of_le_of_lt hlast (by decide)⟩
  · rw [beq_iff_eq.mp hother]
    decide

theorem isDecimalDigit_of_isNameStart {c : Char} (hc : isNameStart c = true) :
    Text.isDecimalDigit c = false := by
  have hbounds := bounds_of_isNameStart hc
  rw [Text.isDecimalDigit, if_pos hbounds.2]
  simp only [Char.isDigit, ge_iff_le, UInt32.le_iff_toNat_le, Char.toNat_val, Char.reduceToNat,
    Bool.and_eq_false_imp, decide_eq_true_eq, decide_eq_false_iff_not, not_le]
  omega

theorem pieceAt_slash (cs : List Char) :
    pieceAt '/' cs = if cs.head? = some '/' then
        ⟨some (.ok .comment), (cs.takeWhile (· != '\n')).length⟩
      else ⟨some (.error .badSymbol), 0⟩ := by
  simp [pieceAt]

theorem pieceAt_digit {c : Char} (hc : Text.isDecimalDigit c = true) (cs : List Char) :
    pieceAt c cs = ⟨some (readUnsigned (c :: wordRun cs)), (wordRun cs).length⟩ := by
  have hne := fun d hd => ne_of_mem_marks (c := c) (d := d) hd (.inr hc)
  simp only [List.forall_mem_cons] at hne
  obtain ⟨h₁, h₂, h₃, h₄, h₅, h₆, h₇, h₈, -⟩ := hne
  simp [pieceAt, h₁, h₂, h₃, h₄, h₅, h₆, h₇, h₈, hc]

theorem pieceAt_minus (cs : List Char) :
    pieceAt '-' cs = ⟨some (readNegative (wordRun cs)), (wordRun cs).length⟩ := by
  simp [pieceAt, show Text.isDecimalDigit '-' = false by decide]

theorem pieceAt_name {c : Char} (hc : isNameStart c = true) (cs : List Char) :
    pieceAt c cs = match displacement? (cs.drop (wordRun cs).length) with
      | some (negative, digits) =>
        ⟨some (readDisplaced (c :: wordRun cs) negative digits),
          (wordRun cs).length + 1 + digits.length⟩
      | none => ⟨some (ofName (c :: wordRun cs)), (wordRun cs).length⟩ := by
  have hne := fun d hd => ne_of_mem_marks (c := c) (d := d) hd (.inl hc)
  simp only [List.forall_mem_cons] at hne
  obtain ⟨h₁, h₂, h₃, h₄, h₅, h₆, h₇, h₈, -⟩ := hne
  have hminus : c ≠ '-' := by
    rintro rfl
    revert hc
    decide
  rcases hd : displacement? (cs.drop (wordRun cs).length) with _ | ⟨negative, digits⟩ <;>
    simp only [pieceAt, beq_iff_eq, h₅, h₆, h₇, h₈, hminus, hc, Bool.or_self,
      isDecimalDigit_of_isNameStart hc, beq_false_of_ne h₁, beq_false_of_ne h₂, beq_false_of_ne h₃,
      beq_false_of_ne h₄, Bool.false_eq_true, if_false, if_true, hd]

theorem pieceShape (c : Char) : PieceShape c := by
  by_cases hslash : c = '/'
  · exact .slash hslash
  by_cases hdigit : Text.isDecimalDigit c = true
  · exact .number (fun run => readUnsigned (c :: run)) (pieceAt_digit hdigit)
  by_cases hminus : c = '-'
  · subst hminus
    exact .number readNegative pieceAt_minus
  by_cases hname : isNameStart c = true
  · exact .name hname
  -- what is left is decided by the character alone
  refine .single (pieceAt c []).content fun cs => ?_
  simp only [pieceAt, beq_iff_eq, hslash, hdigit, hminus, hname, if_false]
  split
  · rfl
  · split
    · rfl
    · split
      · rfl
      · split <;> rfl

/-! ## Looking ahead -/

theorem takeWhile_append_of_head {q : Char → Bool} {x y : List Char}
    (h : ∀ c ∈ y.head?, q c = false) : (x ++ y).takeWhile q = x.takeWhile q := by
  have hy : y.takeWhile q = [] := by
    cases y with
    | nil => rfl
    | cons c y => exact List.takeWhile_cons_of_neg (by simp [h c rfl])
  rw [List.takeWhile_append, hy, List.append_nil]
  split
  · rename_i hx
    exact (List.takeWhile_prefix q).eq_of_length hx |>.symm
  · rfl

theorem takeWhile_append_of_length_le {q : Char → Bool} {x y : List Char}
    (h : ((x ++ y).takeWhile q).length ≤ x.length) :
    (x ++ y).takeWhile q = x.takeWhile q := by
  rw [List.takeWhile_append] at h ⊢
  split
  · rename_i hx
    rw [if_pos hx, List.length_append] at h
    have hy : y.takeWhile q = [] := List.eq_nil_of_length_eq_zero (by omega)
    rw [hy, List.append_nil]
    exact (List.takeWhile_prefix q).eq_of_length hx |>.symm
  · rfl

@[simp] theorem displacement?_nil : displacement? [] = none := rfl

@[simp] theorem displacement?_singleton (a : Char) : displacement? [a] = none := by
  unfold displacement?
  split <;> simp_all

theorem displacement?_cons_cons (a d : Char) (cs : List Char) :
    displacement? (a :: d :: cs) =
      if (a = '+' ∨ a = '-') ∧ Text.isDecimalDigit d = true then some (a == '-', d :: wordRun cs)
      else none := by
  unfold displacement?
  split <;> simp_all

/-- A piece that ends within `x` is the same if there is nothing but `x`. -/
theorem displacement?_append_of_le {x y : List Char}
    (h : ∀ negative digits, displacement? (x ++ y) = some (negative, digits) →
      1 + digits.length ≤ x.length) : displacement? (x ++ y) = displacement? x := by
  match x with
  | [] =>
    cases hy : displacement? y with
    | none => exact hy
    | some found =>
      have := h found.1 found.2 hy
      rw [List.length_nil] at this
      omega
  | [a] =>
    cases y with
    | nil => rfl
    | cons d y =>
      rw [List.singleton_append, displacement?_cons_cons] at h ⊢
      split
      · rename_i hd
        have := h _ _ (if_pos hd)
        simp only [List.length_cons, List.length_nil] at this
        omega
      · rw [displacement?_singleton]
  | a :: d :: x =>
    rw [List.cons_append, List.cons_append, displacement?_cons_cons] at h ⊢
    rw [displacement?_cons_cons]
    split
    · rename_i hd
      have hlen := h _ _ (if_pos hd)
      simp only [List.length_cons] at hlen
      rw [wordRun, wordRun, takeWhile_append_of_length_le (by rw [← wordRun]; omega)]
    · rfl

theorem displacement?_length_le {x : List Char} {negative : Bool} {digits : List Char}
    (h : displacement? x = some (negative, digits)) : 1 + digits.length ≤ x.length := by
  match x with
  | [] => cases h
  | [a] =>
    rw [displacement?_singleton] at h
    cases h
  | a :: d :: x =>
    rw [displacement?_cons_cons] at h
    split at h
    · cases h
      have hrun := (List.takeWhile_prefix Text.isWordChar (l := x)).length_le
      simp only [wordRun, List.length_cons]
      omega
    · cases h

/-- A character that no token but a comment goes on with. -/
def isBreak (c : Char) : Bool :=
  !Text.isWordChar c && !Text.isDecimalDigit c && c != '+' && c != '-'

/-- The text is empty or starts with such a character. -/
def Breaks (cs : List Char) : Prop :=
  ∀ c ∈ cs.head?, isBreak c = true

theorem wordRun_append_of_breaks (x : List Char) {y : List Char} (hy : Breaks y) :
    wordRun (x ++ y) = wordRun x := by
  refine takeWhile_append_of_head fun c hc => ?_
  have := hy c hc
  simp only [isBreak, Bool.and_eq_true, Bool.not_eq_true'] at this
  exact this.1.1.1

theorem displacement?_append_of_breaks (x : List Char) {y : List Char} (hy : Breaks y) :
    displacement? (x ++ y) = displacement? x := by
  have hbreak : ∀ c ∈ y.head?, Text.isDecimalDigit c = false ∧ c ≠ '+' ∧ c ≠ '-' := by
    intro c hc
    have := hy c hc
    simp only [isBreak, Bool.and_eq_true, Bool.not_eq_true', bne_iff_ne] at this
    exact ⟨this.1.1.2, this.1.2, this.2⟩
  match x, y with
  | [], [] => rfl
  | [], [c] => exact displacement?_singleton c
  | [], c :: d :: y =>
    obtain ⟨-, hplus, hminus⟩ := hbreak c rfl
    simp [displacement?_cons_cons, hplus, hminus]
  | [a], [] => rfl
  | [a], d :: y =>
    obtain ⟨hdigit, -⟩ := hbreak d rfl
    simp [displacement?_cons_cons, hdigit]
  | a :: d :: x, y =>
    rw [List.cons_append, List.cons_append, displacement?_cons_cons, displacement?_cons_cons,
      wordRun_append_of_breaks x hy]

/-! ## Pieces in a longer text -/

theorem more_le (c : Char) (cs : List Char) : (pieceAt c cs).more ≤ cs.length := by
  have hrun : (wordRun cs).length ≤ cs.length := (List.takeWhile_prefix _).length_le
  cases pieceShape c with
  | single content h =>
    rw [h]
    exact Nat.zero_le _
  | slash hc =>
    rw [hc, pieceAt_slash]
    split
    · exact (List.takeWhile_prefix _).length_le
    · exact Nat.zero_le _
  | number read h =>
    rw [h]
    exact hrun
  | name hc =>
    rw [pieceAt_name hc]
    split
    · rename_i hdisp
      have := displacement?_length_le hdisp
      rw [List.length_drop] at this
      dsimp only
      omega
    · exact hrun

/-- What is skipped is skipped one character at a time. -/
theorem more_eq_zero_of_skipped {c : Char} {cs : List Char} (h : (pieceAt c cs).content = none) :
    (pieceAt c cs).more = 0 := by
  cases pieceShape c with
  | single content hsingle => rw [hsingle]
  | slash hc =>
    rw [hc, pieceAt_slash] at h
    split at h <;> cases h
  | number read hnumber =>
    rw [hnumber] at h
    cases h
  | name hc =>
    rw [pieceAt_name hc] at h
    split at h <;> cases h

/-- A piece that ends within a text is the piece of that text, whatever follows. -/
theorem pieceAt_append_of_le {c : Char} {x y : List Char}
    (h : (pieceAt c (x ++ y)).more ≤ x.length) : pieceAt c (x ++ y) = pieceAt c x := by
  cases pieceShape c with
  | single content hsingle => rw [hsingle, hsingle]
  | slash hc =>
    subst hc
    rw [pieceAt_slash] at h
    rw [pieceAt_slash, pieceAt_slash]
    cases x with
    | nil =>
      -- a second slash would be outside of the text
      split at h
      · rename_i hy
        obtain ⟨y, rfl⟩ : ∃ ys, y = '/' :: ys := List.head?_eq_some_iff.mp hy
        simp at h
      · rename_i hy
        rw [if_neg hy]
        rfl
    | cons a x =>
      have hhead : (a :: x ++ y).head? = (a :: x).head? := rfl
      rw [hhead] at h ⊢
      by_cases ha : (a :: x).head? = some '/'
      · rw [if_pos ha] at h
        rw [if_pos ha, if_pos ha, takeWhile_append_of_length_le h]
      · rw [if_neg ha, if_neg ha]
  | number read hnumber =>
    rw [hnumber] at h
    have hrun : wordRun (x ++ y) = wordRun x := takeWhile_append_of_length_le h
    rw [hnumber, hnumber, hrun]
  | name hc =>
    rw [pieceAt_name hc] at h
    -- the run ends within the text, and so does the displacement, if there is one
    have hle : (wordRun (x ++ y)).length ≤ x.length := by
      split at h <;> dsimp only at h <;> omega
    have hrun : wordRun (x ++ y) = wordRun x := takeWhile_append_of_length_le hle
    have hdrop : (x ++ y).drop (wordRun x).length = x.drop (wordRun x).length ++ y :=
      List.drop_append_of_le_length (hrun ▸ hle)
    rw [hrun, hdrop] at h
    have hdisp : displacement? (x.drop (wordRun x).length ++ y) =
        displacement? (x.drop (wordRun x).length) := by
      refine displacement?_append_of_le fun negative digits hsome => ?_
      rw [hsome] at h
      dsimp only at h
      rw [List.length_drop]
      omega
    rw [pieceAt_name hc, pieceAt_name hc, hrun, hdrop, hdisp]

/-- A piece is the same in a longer text if no token goes on with what follows. A comment may go
on up to the next newline, and a slash at the end may become the start of a comment. -/
theorem pieceAt_append_of_breaks {c : Char} {x y : List Char} (hy : Breaks y)
    (hslash : c = '/' → x = [] → y.head? ≠ some '/')
    (hcomment : c = '/' → x.head? = some '/' → '\n' ∉ x → ∀ d ∈ y.head?, d = '\n') :
    pieceAt c (x ++ y) = pieceAt c x := by
  cases pieceShape c with
  | single content h => rw [h, h]
  | slash hc =>
    subst hc
    rw [pieceAt_slash, pieceAt_slash]
    cases x with
    | nil =>
      rw [List.nil_append, if_neg (hslash rfl rfl)]
      rfl
    | cons a x =>
      have hhead : (a :: x ++ y).head? = (a :: x).head? := rfl
      rw [hhead]
      by_cases ha : (a :: x).head? = some '/'
      · rw [if_pos ha, if_pos ha]
        by_cases hend : '\n' ∈ a :: x
        · rw [List.takeWhile_append, if_neg fun hlen => ?_]
          -- the comment ends at the newline
          have hall := List.takeWhile_eq_self_iff.mp ((List.takeWhile_prefix _).eq_of_length hlen)
          have := hall _ hend
          simp at this
        · rw [takeWhile_append_of_head fun d hd => by simp [hcomment rfl ha hend d hd]]
      · rw [if_neg ha, if_neg ha]
  | number read h => rw [h, h, wordRun_append_of_breaks x hy]
  | name hc =>
    have hdrop : (x ++ y).drop (wordRun x).length = x.drop (wordRun x).length ++ y :=
      List.drop_append_of_le_length (List.takeWhile_prefix _).length_le
    rw [pieceAt_name hc, pieceAt_name hc, wordRun_append_of_breaks x hy, hdrop,
      displacement?_append_of_breaks _ hy]

/-- What follows a newline decides nothing about the pieces before it. -/
theorem pieceAt_append_newline (c : Char) (x y : List Char) :
    pieceAt c (x ++ '\n' :: y) = pieceAt c x := by
  refine pieceAt_append_of_breaks ?_ ?_ ?_
  · intro d hd
    cases hd
    decide
  · intro _ _ h
    cases h
  · intro _ _ _ d hd
    cases hd
    rfl

/-! ## The tokens of a text -/

/-- The tokens and faults of a text that starts at an offset. -/
def scanFrom (offset : Nat) (cs : List Char) : List Lexeme :=
  (scanInto #[] offset cs).toList

/-- The induction over the pieces of a text. -/
theorem pieces_induction {motive : List Char → Prop} (nil : motive [])
    (piece : ∀ c cs, motive (cs.drop (pieceAt c cs).more) → motive (c :: cs)) (cs : List Char) :
    motive cs := by
  fun_induction scanInto #[] 0 cs with
  | case1 found offset => exact nil
  | case2 found offset c cs p stop ih => exact piece c cs ih

/-- What was found before stays in front. -/
theorem scanInto_eq (found : Array Lexeme) (offset : Nat) (cs : List Char) :
    (scanInto found offset cs).toList = found.toList ++ scanFrom offset cs := by
  induction cs using pieces_induction generalizing found offset with
  | nil => simp [scanFrom, scanInto]
  | piece c cs ih =>
    rw [scanFrom, scanInto, scanInto, ih, ih, Array.toList_appendList, Array.toList_appendList,
      List.append_assoc]
    rfl

@[simp] theorem scanFrom_nil (offset : Nat) : scanFrom offset [] = [] := by
  simp [scanFrom, scanInto]

theorem scanFrom_cons (offset : Nat) (c : Char) (cs : List Char) :
    scanFrom offset (c :: cs) =
      (pieceAt c cs).lexemes
          ⟨offset, offset + Text.byteLength (c :: cs.take (pieceAt c cs).more)⟩ ++
        scanFrom (offset + Text.byteLength (c :: cs.take (pieceAt c cs).more))
          (cs.drop (pieceAt c cs).more) := by
  rw [scanFrom, scanInto, scanInto_eq, Array.toList_appendList]
  rfl

theorem Piece.map_value_lexemes (piece : Piece) (span : Span) :
    (piece.lexemes span).map (·.value) = piece.content.toList := by
  rw [Piece.lexemes, List.map_map]
  exact List.map_id _

/-- The tokens and faults of a text, without their places. -/
def values (cs : List Char) : List (Except LexicalFault Token) :=
  (scanFrom 0 cs).map (·.value)

/-- Where a text starts decides nothing but the places. -/
theorem map_value_scanFrom (offset : Nat) (cs : List Char) :
    (scanFrom offset cs).map (·.value) = values cs := by
  have h : ∀ offset₁ offset₂,
      (scanFrom offset₁ cs).map (·.value) = (scanFrom offset₂ cs).map (·.value) := by
    induction cs using pieces_induction with
    | nil => simp
    | piece c cs ih =>
      intro offset₁ offset₂
      rw [scanFrom_cons, scanFrom_cons offset₂, List.map_append, List.map_append]
      rw [Piece.map_value_lexemes, Piece.map_value_lexemes, ih]
  exact h offset 0

@[simp] theorem values_nil : values [] = [] := by
  rw [values, scanFrom_nil, List.map_nil]

theorem values_cons (c : Char) (cs : List Char) :
    values (c :: cs) = (pieceAt c cs).content.toList ++ values (cs.drop (pieceAt c cs).more) := by
  rw [values, scanFrom_cons, List.map_append, map_value_scanFrom, Piece.map_value_lexemes]

/-! ## Splitting -/

/-- The tokens of `x ++ y` are those of `x` and those of `y`. -/
def Splits (x y : List Char) : Prop :=
  ∀ offset, scanFrom offset (x ++ y) = scanFrom offset x ++ scanFrom (offset + Text.byteLength x) y

theorem Splits.values_append {x y : List Char} (h : Splits x y) :
    values (x ++ y) = values x ++ values y := by
  rw [values, h, List.map_append, map_value_scanFrom, map_value_scanFrom]

theorem splits_nil_left (y : List Char) : Splits [] y := by
  intro offset
  rw [scanFrom_nil]
  rfl

/-- The first piece of a text and the rest, counted in bytes. -/
theorem byteLength_piece (c : Char) (x : List Char) :
    Text.byteLength (c :: x.take (pieceAt c x).more) +
      Text.byteLength (x.drop (pieceAt c x).more) = Text.byteLength (c :: x) := by
  rw [← Text.byteLength_append, List.cons_append, List.take_append_drop]

/-- Both ends of a token are within its text. -/
theorem bounds_of_mem_scanFrom {offset : Nat} {cs : List Char} {l : Lexeme}
    (h : l ∈ scanFrom offset cs) :
    offset ≤ l.span.start ∧ l.span.start ≤ l.span.stop ∧
      l.span.stop ≤ offset + Text.byteLength cs := by
  rcases mem_scanInto h with hnil | ⟨before, c, rest, rfl, -, hspan⟩
  · cases hnil
  · have hpiece := byteLength_piece c rest
    rw [hspan]
    simp only [Text.byteLength_append]
    omega

/-- A text splits at a place if its first piece does not go past it, and the rest splits. -/
theorem splits_cons {c : Char} {x y : List Char} (hpiece : pieceAt c (x ++ y) = pieceAt c x)
    (h : Splits (x.drop (pieceAt c x).more) y) : Splits (c :: x) y := by
  intro offset
  have hle := more_le c x
  rw [List.cons_append, scanFrom_cons, hpiece, List.take_append_of_le_length hle,
    List.drop_append_of_le_length hle, h, scanFrom_cons offset c x, List.append_assoc,
    Nat.add_assoc, byteLength_piece]

/-- **Newlines separate.** No piece but the newline itself goes past a newline. -/
theorem splits_newline (x y : List Char) : Splits x ('\n' :: y) := by
  induction x using pieces_induction with
  | nil => exact splits_nil_left _
  | piece c x ih => exact splits_cons (pieceAt_append_newline c x y) ih

theorem byteLength_pos {cs : List Char} (h : cs ≠ []) : 0 < Text.byteLength cs := by
  obtain ⟨c, cs, rfl⟩ := List.exists_cons_of_ne_nil h
  have := Char.utf8Size_pos c
  rw [Text.byteLength_cons]
  omega

/-- A piece that goes past the end of `x` has more bytes than `x`. -/
theorem byteLength_lt_of_lt_more {c : Char} {x y : List Char}
    (h : x.length < (pieceAt c (x ++ y)).more) :
    Text.byteLength (c :: x) <
      Text.byteLength (c :: (x ++ y).take (pieceAt c (x ++ y)).more) := by
  have htake : (x ++ y).take (pieceAt c (x ++ y)).more =
      x ++ y.take ((pieceAt c (x ++ y)).more - x.length) := by
    rw [List.take_append, List.take_of_length_le (Nat.le_of_lt h)]
  have hmore : y.take ((pieceAt c (x ++ y)).more - x.length) ≠ [] := by
    have := more_le c (x ++ y)
    rw [List.length_append] at this
    rw [← List.length_pos_iff, List.length_take]
    omega
  have hpos := byteLength_pos hmore
  rw [htake, ← List.cons_append, Text.byteLength_append]
  omega

/-- The first piece ends at or before every place that is not within a token. -/
theorem more_le_of_not_inside {c : Char} {x y : List Char} {offset : Nat}
    (h : ∀ l ∈ scanFrom offset (c :: (x ++ y)),
      ¬ (l.span.start < offset + Text.byteLength (c :: x) ∧
        offset + Text.byteLength (c :: x) < l.span.stop)) :
    (pieceAt c (x ++ y)).more ≤ x.length := by
  by_contra hlt
  replace hlt : x.length < (pieceAt c (x ++ y)).more := Nat.lt_of_not_le hlt
  cases hcontent : (pieceAt c (x ++ y)).content with
  | none =>
    rw [more_eq_zero_of_skipped hcontent] at hlt
    omega
  | some value =>
    -- the piece is a token, and the place is within it
    have hpast := byteLength_lt_of_lt_more hlt
    have hc := byteLength_pos (List.cons_ne_nil c x)
    have hmem : ⟨value, ⟨offset, offset + Text.byteLength
        (c :: (x ++ y).take (pieceAt c (x ++ y)).more)⟩⟩ ∈ scanFrom offset (c :: (x ++ y)) := by
      rw [scanFrom_cons, Piece.lexemes, hcontent]
      exact List.mem_append_left _ List.mem_cons_self
    refine h _ hmem ⟨?_, ?_⟩ <;> dsimp only <;> omega

/-- Of the pieces of `x ++ y`, none that starts in `x` goes on in `y`. -/
inductive Apart (y : List Char) : List Char → Prop where
  | nil : Apart y []
  | piece {c : Char} {x : List Char} (hle : (pieceAt c (x ++ y)).more ≤ x.length)
    (h : Apart y (x.drop (pieceAt c x).more)) : Apart y (c :: x)

theorem Apart.splits {x y : List Char} (h : Apart y x) : Splits x y := by
  induction h with
  | nil => exact splits_nil_left y
  | piece hle _ ih => exact splits_cons (pieceAt_append_of_le hle) ih

/-- What follows the first piece, if that ends within `x`. -/
theorem scanFrom_cons_append {c : Char} {x y : List Char}
    (hle : (pieceAt c (x ++ y)).more ≤ x.length) (offset : Nat) :
    scanFrom offset (c :: (x ++ y)) =
      (pieceAt c x).lexemes ⟨offset, offset + Text.byteLength (c :: x.take (pieceAt c x).more)⟩ ++
        scanFrom (offset + Text.byteLength (c :: x.take (pieceAt c x).more))
          (x.drop (pieceAt c x).more ++ y) := by
  have hpiece := pieceAt_append_of_le hle
  rw [hpiece] at hle
  rw [scanFrom_cons, hpiece, List.take_append_of_le_length hle, List.drop_append_of_le_length hle]

/-- **Tokens are whole.** A text splits at every place that is not within a token. -/
theorem splits_of_not_inside {x y : List Char} (offset : Nat)
    (h : ∀ l ∈ scanFrom offset (x ++ y), ¬ (l.span.start < offset + Text.byteLength x ∧
      offset + Text.byteLength x < l.span.stop)) : Splits x y := by
  apply Apart.splits
  induction x using pieces_induction generalizing offset with
  | nil => exact .nil
  | piece c x ih =>
    have hle : (pieceAt c (x ++ y)).more ≤ x.length := more_le_of_not_inside h
    refine .piece hle (ih (offset + Text.byteLength (c :: x.take (pieceAt c x).more)) ?_)
    intro l hl
    rw [Nat.add_assoc, byteLength_piece]
    refine h l ?_
    rw [List.cons_append, scanFrom_cons_append hle]
    exact List.mem_append_right _ hl

/-- A comment goes on to the end of a text without a newline. -/
theorem more_comment {x : List Char} (hx : x.head? = some '/') (hline : '\n' ∉ x) :
    (pieceAt '/' x).more = x.length := by
  rw [pieceAt_slash, if_pos hx, List.takeWhile_eq_self_iff.mpr]
  intro d hd
  rw [bne_iff_ne]
  rintro rfl
  exact hline hd

/-- A piece that ends before a comment ends there however the comment goes on: it is itself no
comment, as that would go on to the end of the line. -/
theorem splits_cons_comment {c : Char} {p x t : List Char}
    (hmore : (pieceAt c (p ++ x ++ '/' :: '/' :: t)).more = p.length) (ht : '\n' ∉ t)
    (h : ∀ t', Splits x ('/' :: '/' :: t')) (t' : List Char) :
    Splits (c :: (p ++ x)) ('/' :: '/' :: t') := by
  have hpiece : pieceAt c (p ++ x ++ '/' :: '/' :: t) = pieceAt c (p ++ x) := by
    apply pieceAt_append_of_le
    rw [hmore, List.length_append]
    omega
  have hno : c = '/' → (p ++ x ++ '/' :: '/' :: t).head? = some '/' → '\n' ∉ p ++ x → False := by
    rintro rfl hhead hline
    rw [more_comment hhead] at hmore
    · simp only [List.length_append, List.length_cons] at hmore
      omega
    · simp [ht, List.mem_append.not.mp hline]
  refine splits_cons (pieceAt_append_of_breaks ?_ ?_ ?_) ?_
  · intro d hd
    cases hd
    decide
  · intro hc hnil
    exact (hno hc (by rw [hnil]; rfl) (by rw [hnil]; exact List.not_mem_nil)).elim
  · intro hc hhead hline
    exact (hno hc (by rw [List.head?_append, hhead]; rfl) hline).elim
  · rw [← hpiece, hmore, List.drop_left]
    exact h t'

/-- **Texts without an error split where no token goes on**, unless they end in a comment. The
text before such a comment splits from it, however the comment goes on. -/
theorem splits_or_comment {x : List Char} (herror : ∀ fault, .error fault ∉ values x) :
    (∀ y, Breaks y → Splits x y) ∨
      ∃ x₁ t, x = x₁ ++ '/' :: '/' :: t ∧ '\n' ∉ t ∧ ∀ t', Splits x₁ ('/' :: '/' :: t') := by
  induction x using pieces_induction with
  | nil => exact .inl fun y _ => splits_nil_left y
  | piece c x ih =>
    rw [values_cons] at herror
    rcases ih fun fault hfault => herror fault (List.mem_append_right _ hfault) with
      hrest | ⟨x₁, t, hrest, ht, hsplit⟩
    · by_cases hcomment : c = '/' ∧ x.head? = some '/' ∧ '\n' ∉ x
      · obtain ⟨rfl, hx, hline⟩ := hcomment
        obtain ⟨t, rfl⟩ := List.head?_eq_some_iff.mp hx
        exact .inr ⟨[], t, rfl, fun h => hline (List.mem_cons_of_mem _ h),
          fun t' => splits_nil_left _⟩
      · refine .inl fun y hy => splits_cons (pieceAt_append_of_breaks hy ?_ ?_) (hrest y hy)
        · -- a slash at the end is an error
          rintro rfl rfl
          exact absurd (List.mem_append_left _ (List.mem_singleton.mpr rfl))
            (herror .badSymbol)
        · intro hc hx hline
          exact absurd ⟨hc, hx, hline⟩ hcomment
    · have hx : x.take (pieceAt c x).more ++ x₁ ++ '/' :: '/' :: t = x := by
        rw [List.append_assoc, ← hrest, List.take_append_drop]
      refine .inr ⟨c :: (x.take (pieceAt c x).more ++ x₁), t, by rw [List.cons_append, hx], ht, ?_⟩
      refine splits_cons_comment ?_ ht hsplit
      rw [hx, List.length_take_of_le (more_le c x)]

end Nic.Token
