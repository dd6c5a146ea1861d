/-
The places of tokens.

Every token, and every fault, is a piece of the text: it starts at some character, is what the
scanner finds there, and its place is counted in bytes from the start of the text (`mem_scan`).
What stands at a place, if it starts and ends between two characters, is said by `Text.Reads`.
-/
import Mathlib.Data.String.Basic
import Nic.Token.Scan

set_option autoImplicit false

namespace Nic

/-- Counting the bytes of a text by its characters. -/
theorem Text.byteLength_toList (s : String) : Text.byteLength s.toList = s.utf8ByteSize := by
  have hlen : ∀ cs : List Char, Text.byteLength cs = String.utf8Len cs := by
    intro cs
    induction cs with
    | nil => rfl
    | cons c cs ih => rw [Text.byteLength_cons, ih, String.utf8Len_cons, Nat.add_comm]
  rw [hlen, ← String.utf8ByteSize_ofList, String.ofList_toList]

/-- At this place of the source, this text is written. -/
def Text.Reads (source : String) (span : Span) (text : String) : Prop :=
  ∃ before after, source.toList = before ++ text.toList ++ after ∧
    span = ⟨Text.byteLength before, Text.byteLength before + text.utf8ByteSize⟩

/-- The place is as long as the text. -/
theorem Text.Reads.stop_eq {source text : String} {span : Span} (h : Text.Reads source span text) :
    span.stop = span.start + text.utf8ByteSize := by
  obtain ⟨before, after, -, rfl⟩ := h
  rfl

namespace Token

/-- What the scanner adds stands in the text that it was given. -/
theorem mem_scanInto {found : Array Lexeme} {offset : Nat} {cs : List Char} {l : Lexeme}
    (h : l ∈ (scanInto found offset cs).toList) :
    l ∈ found.toList ∨ ∃ before c rest, cs = before ++ c :: rest ∧
      (pieceAt c rest).content = some l.value ∧
      l.span = ⟨offset + Text.byteLength before,
        offset + Text.byteLength (before ++ c :: rest.take (pieceAt c rest).more)⟩ := by
  fun_induction scanInto found offset cs with
  | case1 found offset => exact .inl h
  | case2 found offset c cs piece stop ih =>
    rcases ih h with hl | ⟨before, d, rest, hcs, hcontent, hspan⟩
    · rw [Array.toList_appendList, List.mem_append] at hl
      rcases hl with hl | hl
      · exact .inl hl
      · obtain ⟨value, hvalue, rfl⟩ := List.mem_map.mp hl
        exact .inr ⟨[], c, cs, rfl, Option.mem_toList.mp hvalue, rfl⟩
    · -- a later piece stands behind the characters of this one
      refine .inr ⟨c :: cs.take piece.more ++ before, d, rest, ?_, hcontent, ?_⟩
      · rw [List.cons_append, List.cons_append, List.append_assoc, ← hcs, List.take_append_drop]
      · rw [hspan, List.append_assoc, Text.byteLength_append _ before,
          Text.byteLength_append _ (before ++ _), ← Nat.add_assoc, ← Nat.add_assoc]

/-- **Tokens and faults are pieces of the source.** -/
theorem mem_scan {source : String} {l : Lexeme} (h : l ∈ scan source) :
    ∃ before c rest, source.toList = before ++ c :: rest ∧
      (pieceAt c rest).content = some l.value ∧
      l.span = ⟨Text.byteLength before,
        Text.byteLength (before ++ c :: rest.take (pieceAt c rest).more)⟩ := by
  rcases mem_scanInto h with hl | ⟨before, c, rest, hcs, hcontent, hspan⟩
  · cases hl
  · rw [Nat.zero_add, Nat.zero_add] at hspan
    exact ⟨before, c, rest, hcs, hcontent, hspan⟩

/-- No token starts past the end of the source. -/
theorem start_lt_of_mem_scan {source : String} {l : Lexeme} (h : l ∈ scan source) :
    l.span.start < source.utf8ByteSize := by
  obtain ⟨before, c, rest, hcs, -, hspan⟩ := mem_scan h
  have hc : 0 < c.utf8Size := Char.utf8Size_pos c
  rw [hspan, ← Text.byteLength_toList, hcs, Text.byteLength_append before (c :: rest),
    Text.byteLength_cons]
  dsimp only
  omega

end Token

end Nic
