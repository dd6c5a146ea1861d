/-
The lines that errors are shown with.

An error is shown with the number and the text of the line that its first place starts on. Wherever
an error comes from, this start is an end of a token of some line: errors of lines stand at tokens
or behind the last one, and the others at labels and statements (`onLine_of_found`). So it is on the
line that these tokens are on, also where it is the very end of the line, and the line that is shown
is the one with as many newlines before it.
-/
import Nic.Proofs.Assembly.LabelSpans
import Nic.Proofs.Assembly.Stages
import Nic.Proofs.Statement.ErrorPlaces
import Nic.Proofs.Text.Blank
import Nic.Proofs.Text.NewlineBytes

set_option autoImplicit false

namespace Nic

open Statement

/-! ## Where errors start -/

theorem mem_labels_of_defined? {s : Statement} {label : Label} (h : s.defined? = some label) :
    (label, 0) ∈ s.body.labels := by
  rcases defined?_eq_some_iff.mp h with hbody | ⟨values, hbody⟩
  · rw [hbody]
    exact List.mem_cons_self
  · rw [hbody]
    exact List.mem_cons_self

/-- An operand without a value is reported at its label. -/
theorem label_of_operandFault? {program : List Statement} {x : Operand} {e : AssemblyError}
    (h : operandFault? program x = some e) :
    (∀ fault, e.fault ≠ .grammar fault) ∧
      ∃ label offset, x = .address label offset ∧ e.first = label.span := by
  cases x with
  | literal value => cases h
  | address label offset =>
    rw [operandFault?] at h
    split at h
    · cases h
      exact ⟨fun _ hfault => (by cases hfault), label, offset, rfl, rfl⟩
    · split at h
      · cases h
      · cases h
        exact ⟨fun _ hfault => (by cases hfault), label, offset, rfl, rfl⟩

/-- An error of a program is none of its lines, and starts at a statement or at a label of one. -/
theorem start_of_mem_build {program : List Statement} {e : AssemblyError}
    (h : e ∈ (build program).2) :
    (∀ fault, e.fault ≠ .grammar fault) ∧
      ∃ s ∈ program, e.first.start = s.span.start ∨
        ∃ label offset, (label, offset) ∈ s.body.labels ∧ e.first.start = label.start := by
  rw [(build_errors_perm program).mem_iff, List.mem_append, List.mem_append] at h
  rcases h with (hduplicate | hsize) | hoperand
  · obtain ⟨first, second, hredefines, rfl⟩ := redefines_of_mem_duplicates hduplicate
    obtain ⟨s, hs, hlabel⟩ := List.mem_filterMap.mp hredefines.mem_defined?.1
    exact ⟨fun _ => nofun, s, hs, .inr ⟨first, 0, mem_labels_of_defined? hlabel, rfl⟩⟩
  · obtain ⟨cells, s, hs, rfl⟩ := sizeFault?_eq_some (Option.mem_toList.mp hsize)
    exact ⟨fun _ => nofun, s, hs, .inl rfl⟩
  · obtain ⟨s, hs, hfault⟩ := List.mem_flatMap.mp hoperand
    obtain ⟨x, hx, hfault⟩ := List.mem_filterMap.mp hfault
    obtain ⟨hnone, label, offset, rfl, hfirst⟩ := label_of_operandFault? hfault
    refine ⟨hnone, s, hs, .inr ⟨label, offset, mem_labels_of_byteOperands hx, ?_⟩⟩
    rw [hfirst]
    rfl

/-- **Every error starts at an end of a token**, wherever it comes from; an error of a line at one
of this line. -/
theorem onLine_of_found {source : String} {e : AssemblyError} (h : e ∈ foundErrors source) :
    ∃ line ∈ grammarLines source, OnLine line e.first.start ∧
      ∀ fault, e.fault = .grammar fault → (parseLine line).error = some ⟨fault, e.first⟩ := by
  unfold foundErrors at h
  split at h
  · obtain ⟨hnone, s, hs, hstart⟩ := start_of_mem_build h
    obtain ⟨line, hline, hs⟩ := mem_parse_statements.mp hs
    refine ⟨line, hline, ?_, fun fault hfault => absurd hfault (hnone fault)⟩
    rcases hstart with hstart | ⟨label, offset, hlabel, hstart⟩
    · rw [hstart]
      exact (place_of_statement hs).1
    · rw [hstart]
      exact place_of_label hs hlabel
  · obtain ⟨⟨fault, span⟩, hmem, rfl⟩ := List.mem_map.mp h
    obtain ⟨line, hline, hparse⟩ := mem_parse_errors.mp hmem
    refine ⟨line, hline, (place_of_error hparse).1, ?_⟩
    rintro fault' hfault
    obtain rfl : fault = fault' := AssemblyFault.grammar.inj hfault
    exact hparse

/-- An error that is reported was found. -/
theorem mem_found_of_reported {source : String} {maxErrors : Nat} {d : Diagnostics}
    (h : assemble source maxErrors = .error d) {e : AssemblyError} (he : e ∈ d.errors) :
    d.source = ⟨source⟩ ∧ e ∈ foundErrors source := by
  obtain ⟨-, rfl⟩ := assemble_eq_error_iff.mp h
  exact ⟨rfl, List.mem_mergeSort.mp (List.mem_of_mem_take he)⟩

/-! ## What is shown -/

namespace Diagnostics

/-- The line that is shown is the one with the number that is shown. -/
theorem lineText_of_line {d : Diagnostics} {e : AssemblyError} {line : Text.Line}
    (h : d.source.lines[d.source.lineAt e.first.start]? = some line) :
    d.lineText e = line.text := by
  rw [lineText, Text.Source.line?, h]
  rfl

/-- What is shown begins with the number of the line, the line and what is wrong. -/
theorem entry_eq (d : Diagnostics) (e : AssemblyError) :
    ∃ help, d.entry e = "line " ++ Text.decimal (d.lineOf e) ++ ": " ++ d.lineText e ++ ": " ++
      e.fault.message ++ "\n" ++ help :=
  ⟨_, rfl⟩

/-- The errors are shown one after the other. -/
theorem render_of_mem {d : Diagnostics} {e : AssemblyError} (h : e ∈ d.errors) :
    ∃ front back, d.render = front ++ d.entry e ++ back := by
  obtain ⟨before, after, hsplit⟩ := List.append_of_mem h
  refine ⟨String.join (before.map d.entry), String.join (after.map d.entry), ?_⟩
  rw [render, hsplit, List.map_append, List.map_cons]
  simp [String.append_assoc]

end Diagnostics

/-- **Errors are shown with their lines.** Take any source that is not assembled, any number of
errors to report, and any error that is reported. It starts within the source. The number of its
line is one more than that of the newlines among the bytes before it, and what is shown is this
number and, without the white space around it, the line of the source that has so many newlines
before it and that the error starts on.

If the error is one of a line, then it is that of the tokens on this line, which is not in the
grammar: it stands at one of these tokens, or, where one is missing, at the empty place behind the
last of them. -/
theorem assemble_error_lines (source : String) (maxErrors : Nat) (d : Diagnostics)
    (h : assemble source maxErrors = .error d) (e : AssemblyError) (he : e ∈ d.errors) :
    e.first.start ≤ source.utf8ByteSize ∧
    d.lineOf e = 1 + ((Executable.utf8Bytes source).take e.first.start).count 10 ∧
    (∃ front back, d.render = front ++ d.entry e ++ back) ∧
    ∃ before line after shown, Text.IsLine source.toList before line after ∧
      d.lineOf e = 1 + before.count '\n' ∧
      Text.byteLength before ≤ e.first.start ∧
      e.first.start ≤ Text.byteLength before + Text.byteLength line ∧
      Text.Trimmed line shown ∧
      (∃ help, d.entry e = "line " ++ Text.decimal (d.lineOf e) ++ ": " ++ String.ofList shown ++
        ": " ++ e.fault.message ++ "\n" ++ help) ∧
      ∀ fault, e.fault = .grammar fault →
        ∃ tokens ∈ tokenLines (Token.scan source), ¬ InGrammar tokens ∧
          (parseLine tokens).error = some ⟨fault, e.first⟩ ∧
          (∀ l ∈ tokens, Text.byteLength before ≤ l.span.start ∧ l.span.start ≤ l.span.stop ∧
            l.span.stop ≤ Text.byteLength before + Text.byteLength line) ∧
          ((∃ l ∈ tokens, l.span = e.first) ∨
            ∃ last, tokens.getLast? = some last ∧ e.first = .empty last.span.stop) := by
  obtain ⟨hsource, hfound⟩ := mem_found_of_reported h he
  obtain ⟨tokens, hmem, honLine, hgrammar⟩ := onLine_of_found hfound
  obtain ⟨number, textLine, hline, rfl, -⟩ := mem_grammarLines.mp hmem
  -- the number that is shown is that of the line which the tokens are on
  have hnumber : d.source.lineAt e.first.start = number := by
    rw [hsource]
    exact lineAt_of_onLine hline honLine
  obtain ⟨before, after, hisLine, hstart, hcount⟩ := Text.isLine_of_line hline
  rw [Nat.zero_add] at hstart
  have hbounds : ∀ l ∈ textLine.tokens, Text.byteLength before ≤ l.span.start ∧
      l.span.start ≤ l.span.stop ∧
      l.span.stop ≤ Text.byteLength before + Text.byteLength textLine.chars := by
    intro l hl
    rw [← hstart]
    exact Token.bounds_of_mem_scanFrom (List.mem_of_mem_filter hl)
  have hplace : Text.byteLength before ≤ e.first.start ∧
      e.first.start ≤ Text.byteLength before + Text.byteLength textLine.chars := by
    obtain ⟨l, hl, hend⟩ := honLine
    have := hbounds l hl
    omega
  have hsize : Text.byteLength before + Text.byteLength textLine.chars ≤ source.utf8ByteSize := by
    rw [← Text.byteLength_toList, hisLine.split, Text.byteLength_append, Text.byteLength_append]
    omega
  have hentry := d.entry_eq e
  have htext : d.lineText e = String.ofList (Text.trim textLine.chars) := by
    apply Diagnostics.lineText_of_line
    rw [hnumber, hsource]
    exact hline
  rw [htext] at hentry
  refine ⟨by omega, ?_, Diagnostics.render_of_mem he, before, textLine.chars, after, _, hisLine, ?_,
    hplace.1, hplace.2, Text.trimmed_trim _, hentry, ?_⟩
  · rw [Diagnostics.lineOf, Text.Source.lineAt_eq_count, hsource, Nat.add_comm]
  · rw [Diagnostics.lineOf, hnumber, hcount, Nat.add_comm]
  · intro fault hfault
    have herror := hgrammar fault hfault
    refine ⟨textLine.tokens, ?_, ?_, herror, hbounds, span_of_error herror⟩
    · rw [tokenLines_scan]
      exact hmem
    · intro hin
      rw [parseLine_error_eq_none_iff.mpr hin] at herror
      cases herror

/-- An operand is missing at the end of the second line. The first line ends in white space of three
bytes, and the second one begins with a tab; the error stands right in front of its newline. -/
theorem assemble_error_lines_line_end :
    let source := "// ü\u3000\n\tload r1\n"
    let e : AssemblyError := .ofSpan (.grammar (.expected .byte)) ⟨17, 17⟩
    let d : Diagnostics := ⟨[e], ⟨source⟩⟩
    assemble source 1 = .error d ∧ d.lineOf e = 2 ∧
      ∃ before line after shown, Text.IsLine source.toList before line after ∧
        d.lineOf e = 1 + before.count '\n' ∧ Text.Trimmed line shown ∧
        (∃ help, d.entry e = "line " ++ Text.decimal (d.lineOf e) ++ ": " ++ String.ofList shown ++
          ": " ++ e.fault.message ++ "\n" ++ help) ∧
        ∃ tokens ∈ tokenLines (Token.scan source), ¬ InGrammar tokens ∧
          (parseLine tokens).error = some ⟨.expected .byte, ⟨17, 17⟩⟩ := by
  intro source e d
  have hfound : foundErrors source = [e] := by decide +kernel
  have hsort : AssemblyError.sort [e] = [e] := by simp [AssemblyError.sort]
  have hd : assemble source 1 = .error d := by
    rw [assemble_eq_error_iff, hfound, hsort]
    exact ⟨List.cons_ne_nil _ _, rfl⟩
  obtain ⟨-, -, -, before, line, after, shown, hline, hnumber, -, -, htrimmed, hentry, hgrammar⟩ :=
    assemble_error_lines source 1 d hd e List.mem_cons_self
  obtain ⟨tokens, htokens, hnot, herror, -⟩ := hgrammar (.expected .byte) rfl
  exact ⟨hd, by decide +kernel, before, line, after, shown, hline, hnumber, htrimmed, hentry,
    tokens, htokens, hnot, herror⟩

end Nic
