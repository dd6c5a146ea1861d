/-
What the tokens of a source cover.

Each byte of a text is a blank that no token covers, or a newline and covered by its own token
alone, or covered by one other token or fault (`Placed`). This is proved by induction over the
tiling of the text (`Tiling.placed`). The bytes of a piece are not looked at one by one: it is
enough that none of them is that of a newline.

So tokens and faults tile their source (`tiles_scan`), and the source has one line more than newline
tokens (`countP_newline_scan`).
-/
import Nic.Proofs.Text.NewlineBytes
import Nic.Proofs.Token.Tiling

set_option autoImplicit false

namespace Nic

/-- A byte is one of those of a place. -/
def Span.Covers (span : Span) (i : Nat) : Prop :=
  span.start ≤ i ∧ i < span.stop

instance (span : Span) (i : Nat) : Decidable (span.Covers i) :=
  inferInstanceAs (Decidable (_ ∧ _))

namespace Token

open Executable

/-! ## Bytes -/

/-- The tokens and faults that cover a byte. -/
def covering (lexemes : List Lexeme) (i : Nat) : List Lexeme :=
  lexemes.filter (·.span.Covers i)

theorem mem_covering {lexemes : List Lexeme} {i : Nat} {l : Lexeme} :
    l ∈ covering lexemes i ↔ l ∈ lexemes ∧ l.span.Covers i := by
  rw [covering, List.mem_filter, decide_eq_true_iff]

theorem Tiling.covering_of_lt {offset i : Nat} {cs : List Char} {lexemes : List Lexeme}
    (h : Tiling offset cs lexemes) (hi : i < offset) : covering lexemes i = [] := by
  rw [List.eq_nil_iff_forall_not_mem]
  intro l hl
  obtain ⟨hmem, hcovers⟩ := mem_covering.mp hl
  have hstart := h.le_start l hmem
  have hle : l.span.start ≤ i := hcovers.1
  omega

theorem covering_cons_of_covers {l : Lexeme} {i : Nat} (h : l.span.Covers i)
    (lexemes : List Lexeme) : covering (l :: lexemes) i = l :: covering lexemes i :=
  List.filter_cons_of_pos (by simpa using h)

theorem covering_cons_of_stop_le {l : Lexeme} {i : Nat} (h : l.span.stop ≤ i)
    (lexemes : List Lexeme) : covering (l :: lexemes) i = covering lexemes i := by
  refine List.filter_cons_of_neg ?_
  rw [decide_eq_true_iff, Span.Covers]
  omega

/-- The bytes of the four blanks. -/
def blankBytes : List Byte := [0x20, 0x09, 0x0d, 0x0c]

/-- What the tokens of a text make of the byte at an index: it is a blank between them, a newline,
or in another token or a fault. -/
inductive Placed (lexemes : List Lexeme) (i : Nat) (b : Byte) : Prop where
  | blank (hb : b ∈ blankBytes) (h : covering lexemes i = [])
  | newline (hb : b = 10) (h : covering lexemes i = [newlineAt i])
  | within (l : Lexeme) (hb : b ≠ 10) (hl : l.value ≠ .ok .newline) (h : covering lexemes i = [l])

theorem Placed.of_covering_eq {lexemes lexemes' : List Lexeme} {i : Nat} {b : Byte}
    (h : Placed lexemes i b) (heq : covering lexemes' i = covering lexemes i) :
    Placed lexemes' i b := by
  cases h with
  | blank hb h => exact .blank hb (heq.trans h)
  | newline hb h => exact .newline hb (heq.trans h)
  | within l hb hl h => exact .within l hb hl (heq.trans h)

theorem utf8Bytes_of_mem_blanks {c : Char} (hc : c ∈ blanks) :
    ∃ b ∈ blankBytes, utf8Bytes (String.ofList [c]) = [b] := by
  simp only [blanks, List.mem_cons, List.not_mem_nil, or_false] at hc
  rcases hc with rfl | rfl | rfl | rfl <;> decide +kernel

/-- **Every byte of a text has its place.** -/
theorem Tiling.placed {offset i : Nat} {cs : List Char} {lexemes : List Lexeme} {b : Byte}
    (h : Tiling offset cs lexemes) (hb : (utf8Bytes (String.ofList cs))[i]? = some b) :
    Placed lexemes (offset + i) b := by
  induction h generalizing i with
  | nil => cases hb
  | @blank offset c cs lexemes hc h ih =>
    obtain ⟨blank, hblank, hbytes⟩ := utf8Bytes_of_mem_blanks hc
    rw [← List.singleton_append, utf8Bytes_append, hbytes, List.singleton_append] at hb
    cases i with
    | zero =>
      -- all tokens start behind the blank
      obtain rfl := Option.some.inj hb
      exact .blank hblank (h.covering_of_lt (Nat.lt_succ_self _))
    | succ i =>
      have hplaced := ih hb
      rwa [Nat.add_assoc, Nat.add_comm 1 i] at hplaced
  | @newline offset cs lexemes h ih =>
    rw [← List.singleton_append, utf8Bytes_append, Text.utf8Bytes_newline,
      List.singleton_append] at hb
    cases i with
    | zero =>
      obtain rfl := Option.some.inj hb
      have hcovers : (newlineAt offset).span.Covers offset := ⟨Nat.le_refl _, Nat.lt_succ_self _⟩
      refine .newline rfl ?_
      rw [Nat.add_zero, covering_cons_of_covers hcovers, h.covering_of_lt (Nat.lt_succ_self _)]
    | succ i =>
      have hplaced := ih hb
      rw [Nat.add_assoc, Nat.add_comm 1 i] at hplaced
      have hstop : (newlineAt offset).span.stop ≤ offset + (i + 1) := by simp [newlineAt]
      exact hplaced.of_covering_eq (covering_cons_of_stop_le hstop _)
  | @piece offset text cs value lexemes hne hline hvalue h ih =>
    rw [utf8Bytes_append] at hb
    by_cases hi : i < Text.byteLength text
    · -- within the piece, which has no newline
      rw [List.getElem?_append_left (by rwa [length_utf8Bytes_ofList])] at hb
      have hstop : offset + i < offset + Text.byteLength text := Nat.add_lt_add_left hi _
      refine .within ⟨value, ⟨offset, offset + Text.byteLength text⟩⟩ ?_ hvalue ?_
      · rintro rfl
        exact Text.newline_not_mem_utf8Bytes_ofList hline (List.mem_of_getElem? hb)
      · rw [covering_cons_of_covers ⟨Nat.le_add_right _ _, hstop⟩, h.covering_of_lt hstop]
    · -- behind it, where it covers nothing
      rw [List.getElem?_append_right (by rw [length_utf8Bytes_ofList]; omega),
        length_utf8Bytes_ofList] at hb
      have hplaced := ih hb
      rw [Nat.add_assoc, Nat.add_sub_cancel' (Nat.le_of_not_lt hi)] at hplaced
      refine hplaced.of_covering_eq (covering_cons_of_stop_le ?_ _)
      exact Nat.add_le_add_left (Nat.le_of_not_lt hi) _

/-! ## Sources -/

/-- A token or fault is read from the text at its place. -/
theorem reads_of_mem_scan {source : String} {l : Lexeme} (h : l ∈ scan source) :
    ∃ text, Text.Reads source l.span text := by
  obtain ⟨before, c, rest, hsource, -, hspan⟩ := mem_scan h
  refine ⟨String.ofList (c :: rest.take (pieceAt c rest).more), before,
    rest.drop (pieceAt c rest).more, ?_, ?_⟩
  · rw [hsource, String.toList_ofList, List.append_assoc, List.cons_append, List.take_append_drop]
  · rw [hspan, Text.byteLength_append, ← Text.byteLength_toList, String.toList_ofList]

theorem placed_scan {source : String} {i : Nat} {b : Byte} (hb : (utf8Bytes source)[i]? = some b) :
    Placed (scan source) i b := by
  rw [← String.ofList_toList (s := source)] at hb
  have hplaced := (tiling_scan source).placed hb
  rwa [Nat.zero_add] at hplaced

/-- These tokens and faults tile a source. -/
structure Tiles (source : String) (lexemes : List Lexeme) : Prop where
  /-- Their places are not empty, and start and end between two characters. -/
  whole : ∀ l ∈ lexemes, l.span.start < l.span.stop ∧ ∃ text, Text.Reads source l.span text
  /-- They are in order, and no two of them overlap. -/
  ordered : lexemes.Pairwise fun l l' =>
    l.span.start < l'.span.start ∧ l.span.stop ≤ l'.span.start
  /-- What they leave out is blank. -/
  blank : ∀ (i : Nat) (b : Byte), (utf8Bytes source)[i]? = some b →
    (∀ l ∈ lexemes, ¬ l.span.Covers i) → b ∈ blankBytes
  /-- A newline is a token of its own, and in no other one. -/
  newline : ∀ i : Nat, (utf8Bytes source)[i]? = some 10 → covering lexemes i = [newlineAt i]
  /-- Nothing else is a newline token. -/
  ofNewline : ∀ l ∈ lexemes, l.value = .ok .newline →
    l = newlineAt l.span.start ∧ (utf8Bytes source)[l.span.start]? = some 10

/-- The first byte of a token is one of the source. -/
theorem exists_byte_of_mem_scan {source : String} {l : Lexeme} (h : l ∈ scan source) :
    ∃ b, (utf8Bytes source)[l.span.start]? = some b := by
  have hlt := start_lt_of_mem_scan h
  rw [← length_utf8Bytes] at hlt
  exact ⟨_, List.getElem?_eq_getElem hlt⟩

/-- **The tokens and faults of a source tile it.** -/
theorem tiles_scan (source : String) : Tiles source (scan source) where
  whole l hl := ⟨(tiling_scan source).start_lt_stop l hl, reads_of_mem_scan hl⟩
  ordered := (tiling_scan source).ordered
  blank i b hb hnone := by
    have hcovering : covering (scan source) i = [] := by
      rw [List.eq_nil_iff_forall_not_mem]
      intro l hl
      obtain ⟨hmem, hcovers⟩ := mem_covering.mp hl
      exact hnone l hmem hcovers
    cases placed_scan hb with
    | blank hb h => exact hb
    | newline hb h => cases h.symm.trans hcovering
    | within l hb hl h => cases h.symm.trans hcovering
  newline i hi := by
    cases placed_scan hi with
    | blank hb h => exact absurd hb (by decide)
    | newline hb h => exact h
    | within l hb hl h => exact absurd rfl hb
  ofNewline l hl hvalue := by
    obtain ⟨b, hb⟩ := exists_byte_of_mem_scan hl
    -- the token is the one that covers its first byte
    have hcovers : l ∈ covering (scan source) l.span.start :=
      mem_covering.mpr ⟨hl, Nat.le_refl _, (tiling_scan source).start_lt_stop l hl⟩
    cases placed_scan hb with
    | blank hblank h =>
      rw [h] at hcovers
      cases hcovers
    | newline hten h =>
      rw [h] at hcovers
      exact ⟨List.mem_singleton.mp hcovers, hten ▸ hb⟩
    | within l' hten hl' h =>
      rw [h] at hcovers
      exact absurd (List.mem_singleton.mp hcovers ▸ hvalue) hl'

/-- **A source has one line more than newline tokens.** -/
theorem countP_newline_scan (source : String) :
    (scan source).countP (·.value = .ok .newline) + 1 = (Text.Source.mk source).lineCount :=
  congrArg (· + 1) (tiling_scan source).countP_newline

end Token

end Nic
