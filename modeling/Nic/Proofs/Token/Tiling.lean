/-
The tokens of a source tile it.

The scanner takes a text apart from its start on. What it takes is a blank, which is left out, or a
newline, which is a token, or one character or more without a newline, which is another token or a
fault. `Tiling` says this much of a list of tokens and faults, and `tiling_scanFrom` that it holds
of those of the scanner: it is only there that pieces are looked at.

What concerns all tokens of a text follows by induction over the tiling: none is empty, each ends
before the next one starts (`Tiling.ordered`), and there are as many newline tokens as newlines
(`Tiling.countP_newline`).
-/
import Nic.Proofs.Text.Lines
import Nic.Proofs.Token.Kinds

set_option autoImplicit false

namespace Nic.Token

/-! ## Pieces -/

/-- The characters that are skipped. -/
def blanks : List Char := [' ', '\t', '\r', '\x0c']

/-- No other character is skipped. -/
theorem mem_blanks_of_skipped {c : Char} {cs : List Char} (h : (pieceAt c cs).content = none) :
    c ∈ blanks := by
  unfold pieceAt at h
  split at h
  · rename_i hc
    simpa [blanks, or_assoc] using hc
  -- everything else is a token or a fault
  split at h
  · cases h
  split at h
  · cases h
  split at h
  · cases h
  split at h
  · split at h <;> cases h
  split at h
  · cases h
  split at h
  · cases h
  split at h
  · dsimp only at h
    split at h <;> cases h
  · cases h

@[simp] theorem pieceAt_newline (cs : List Char) : pieceAt '\n' cs = ⟨some (.ok .newline), 0⟩ := by
  simp [pieceAt]

/-- A newline is in no piece but its own. -/
theorem newline_not_mem_piece {c : Char} (hc : c ≠ '\n') (cs : List Char) :
    '\n' ∉ c :: cs.take (pieceAt c cs).more := by
  rw [List.mem_cons, not_or]
  refine ⟨hc.symm, ?_⟩
  by_cases hmem : '\n' ∈ cs
  · obtain ⟨x, y, rfl, hx⟩ := List.eq_append_cons_of_mem hmem
    rw [pieceAt_append_newline, List.take_append_of_le_length (more_le c x)]
    exact fun h => hx (List.mem_of_mem_take h)
  · exact fun h => hmem (List.mem_of_mem_take h)

theorem ne_newline_of_content {c : Char} {cs : List Char} {value : Except LexicalFault Token}
    (hc : c ≠ '\n') (h : (pieceAt c cs).content = some value) : value ≠ .ok .newline := by
  rintro rfl
  cases readFrom_of_content h with
  | newline hnewline => exact hc hnewline

/-! ## Tilings -/

/-- The token of a newline. -/
def newlineAt (offset : Nat) : Lexeme := ⟨.ok .newline, ⟨offset, offset + 1⟩⟩

/-- A text that starts at an offset is made of these tokens and faults, and of blanks between
them. -/
inductive Tiling : Nat → List Char → List Lexeme → Prop where
  | nil {offset : Nat} : Tiling offset [] []
  | blank {offset : Nat} {c : Char} {cs : List Char} {lexemes : List Lexeme}
    (hc : c ∈ blanks) (h : Tiling (offset + 1) cs lexemes) :
    Tiling offset (c :: cs) lexemes
  | newline {offset : Nat} {cs : List Char} {lexemes : List Lexeme}
    (h : Tiling (offset + 1) cs lexemes) :
    Tiling offset ('\n' :: cs) (newlineAt offset :: lexemes)
  | piece {offset : Nat} {text cs : List Char} {value : Except LexicalFault Token}
    {lexemes : List Lexeme} (hne : text ≠ []) (hline : '\n' ∉ text)
    (hvalue : value ≠ .ok .newline)
    (h : Tiling (offset + Text.byteLength text) cs lexemes) :
    Tiling offset (text ++ cs) (⟨value, ⟨offset, offset + Text.byteLength text⟩⟩ :: lexemes)

theorem utf8Size_of_mem_blanks {c : Char} (hc : c ∈ blanks) : c.utf8Size = 1 := by
  simp only [blanks, List.mem_cons, List.not_mem_nil, or_false] at hc
  rcases hc with rfl | rfl | rfl | rfl <;> rfl

/-- **The scanner tiles its text.** -/
theorem tiling_scanFrom (offset : Nat) (cs : List Char) :
    Tiling offset cs (scanFrom offset cs) := by
  induction cs using pieces_induction generalizing offset with
  | nil =>
    rw [scanFrom_nil]
    exact .nil
  | piece c cs ih =>
    rw [scanFrom_cons, Piece.lexemes]
    cases hcontent : (pieceAt c cs).content with
    | none =>
      have hc := mem_blanks_of_skipped hcontent
      have htiling := ih (offset + 1)
      rw [more_eq_zero_of_skipped hcontent, List.drop_zero] at htiling ⊢
      rw [List.take_zero, Text.byteLength_cons, utf8Size_of_mem_blanks hc]
      exact .blank hc htiling
    | some value =>
      by_cases hc : c = '\n'
      · subst hc
        rw [pieceAt_newline] at hcontent ih ⊢
        cases hcontent
        exact .newline (ih (offset + 1))
      · have htiling := Tiling.piece (List.cons_ne_nil c _) (newline_not_mem_piece hc cs)
          (ne_newline_of_content hc hcontent)
          (ih (offset + Text.byteLength (c :: cs.take (pieceAt c cs).more)))
        rwa [List.cons_append, List.take_append_drop] at htiling

namespace Tiling

variable {offset : Nat} {cs : List Char} {lexemes : List Lexeme}

theorem le_start (h : Tiling offset cs lexemes) : ∀ l ∈ lexemes, offset ≤ l.span.start := by
  induction h with
  | nil => simp
  | blank hc h ih =>
    intro l hl
    exact Nat.le_of_succ_le (ih l hl)
  | newline h ih =>
    rw [List.forall_mem_cons]
    exact ⟨Nat.le_refl _, fun l hl => Nat.le_of_succ_le (ih l hl)⟩
  | piece hne hline hvalue h ih =>
    rw [List.forall_mem_cons]
    exact ⟨Nat.le_refl _, fun l hl => Nat.le_of_add_right_le (ih l hl)⟩

theorem start_lt_stop (h : Tiling offset cs lexemes) :
    ∀ l ∈ lexemes, l.span.start < l.span.stop := by
  induction h with
  | nil => simp
  | blank hc h ih => exact ih
  | newline h ih =>
    rw [List.forall_mem_cons]
    exact ⟨Nat.lt_succ_self _, ih⟩
  | piece hne hline hvalue h ih =>
    rw [List.forall_mem_cons]
    exact ⟨Nat.lt_add_of_pos_right (byteLength_pos hne), ih⟩

/-- **Tokens come one after the other**, and each ends before the next one starts. -/
theorem ordered (h : Tiling offset cs lexemes) :
    lexemes.Pairwise fun l l' => l.span.start < l'.span.start ∧ l.span.stop ≤ l'.span.start := by
  have hstop : lexemes.Pairwise fun l l' => l.span.stop ≤ l'.span.start := by
    induction h with
    | nil => exact .nil
    | blank hc h ih => exact ih
    | newline h ih => exact .cons h.le_start ih
    | piece hne hline hvalue h ih => exact .cons h.le_start ih
  refine hstop.imp_of_mem fun {l l'} hl _ hle => ⟨?_, hle⟩
  exact Nat.lt_of_lt_of_le (h.start_lt_stop l hl) hle

/-- There are as many newlines among the tokens as in the text. -/
theorem countP_newline (h : Tiling offset cs lexemes) :
    lexemes.countP (·.value = .ok .newline) = (Text.newlinesFrom offset cs).length := by
  induction h with
  | nil => rfl
  | @blank offset c cs lexemes hc h ih =>
    have hne : c ≠ '\n' := by
      rintro rfl
      revert hc
      decide
    rw [ih, Text.newlinesFrom_cons, if_neg hne, utf8Size_of_mem_blanks hc]
    rfl
  | newline h ih =>
    rw [List.countP_cons_of_pos (by simp [newlineAt]), ih, Text.newlinesFrom_cons, if_pos rfl]
    rfl
  | piece hne hline hvalue h ih =>
    rw [List.countP_cons_of_neg (by simp [hvalue]), ih, Text.newlinesFrom_append,
      Text.newlinesFrom_of_not_mem hline]
    rfl

end Tiling

theorem tiling_scan (source : String) : Tiling 0 source.toList (scan source) :=
  tiling_scanFrom 0 source.toList

end Nic.Token
