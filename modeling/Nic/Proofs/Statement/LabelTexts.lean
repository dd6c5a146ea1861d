/-
Labels in the text of a source.

Of the place of a label a statement keeps only where it starts. But each label, defined or used, is
named by a token that starts there (`token_of_mem_labels`), and such a token starts with the name,
whether a displacement follows or not. So the name of a label is what the source says at its place
(`reads_of_mem_labels`).

With the tiling of the source by its tokens, this is what places in messages rest on
(`scan_tiles_source`).
-/
import Nic.Proofs.Statement.Grammar
import Nic.Proofs.Token.Coverage

set_option autoImplicit false

namespace Nic

/-- **A label of a statement is written at its place.** -/
theorem reads_of_mem_labels {source : String} {s : Statement}
    (hs : s ∈ (parse source).statements) {label : Label} {offset : Int}
    (h : (label, offset) ∈ s.body.labels) : Text.Reads source label.span label.name := by
  obtain ⟨span, hstart, ⟨-, hname⟩ | hdisplaced⟩ := token_of_mem_labels hs h
  · rw [Label.span, hstart]
    exact Token.reads_of_name_mem_scan hname
  · rw [Label.span, hstart]
    exact Token.reads_of_displaced_mem_scan hdisplaced

/-- **A source is tiled by its tokens, and names stand where they are said to.** For every text:

* the tokens and faults have places that are not empty, start and end between two characters, are in
  order and do not overlap; every byte that none of them covers is a space, a tab, a carriage return
  or a form feed; every newline byte is covered by one newline token and nothing else, and there are
  no other newline tokens;
* so the text has one line more than newline tokens;
* the name of each label of each statement is the text at the place of the label. -/
theorem scan_tiles_source (source : String) :
    Token.Tiles source (Token.scan source) ∧
    (Token.scan source).countP (·.value = .ok .newline) + 1 = (Text.Source.mk source).lineCount ∧
    ∀ s ∈ (parse source).statements, ∀ label offset, (label, offset) ∈ s.body.labels →
      Text.Reads source label.span label.name := by
  refine ⟨Token.tiles_scan source, Token.countP_newline_scan source, ?_⟩
  intro s hs label offset h
  exact reads_of_mem_labels hs h

/-- Letters of two bytes, in a label, in a comment and as a fault. A tab is left out, the newline is
a token of its own, and the place of the label ends before its displacement. -/
theorem scan_tiles_source_displaced :
    (Token.scan "aß:\tjump aß-1 // ü\n÷").map (·.span) =
      [⟨0, 3⟩, ⟨3, 4⟩, ⟨5, 9⟩, ⟨10, 15⟩, ⟨16, 21⟩, ⟨21, 22⟩, ⟨22, 24⟩] ∧
    (0x09 : Byte) ∈ Token.blankBytes ∧
    Token.covering (Token.scan "aß:\tjump aß-1 // ü\n÷") 21 = [Token.newlineAt 21] ∧
    Text.Reads "aß:\tjump aß-1 // ü\n÷" ⟨10, 13⟩ "aß" := by
  obtain ⟨htiles, -, hlabels⟩ := scan_tiles_source "aß:\tjump aß-1 // ü\n÷"
  have hspans : (Token.scan "aß:\tjump aß-1 // ü\n÷").map (·.span) =
      [⟨0, 3⟩, ⟨3, 4⟩, ⟨5, 9⟩, ⟨10, 15⟩, ⟨16, 21⟩, ⟨21, 22⟩, ⟨22, 24⟩] := by decide +kernel
  have hjump : ⟨.instr (.jump (.address ⟨"aß", 10⟩ (-1))), ⟨5, 15⟩⟩ ∈
      (parse "aß:\tjump aß-1 // ü\n÷").statements := by decide +kernel
  refine ⟨hspans, ?_, ?_, ?_⟩
  · refine htiles.blank 4 0x09 (by decide +kernel) ?_
    decide +kernel
  · exact htiles.newline 21 (by decide +kernel)
  · exact hlabels _ hjump ⟨"aß", 10⟩ (-1) List.mem_cons_self

end Nic
