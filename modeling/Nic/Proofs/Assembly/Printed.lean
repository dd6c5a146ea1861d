/-
Printed programs are the programs they were printed from.

Printing and reading are written apart from each other: a byte is printed in hexadecimal whatever it
was written as, a displacement with its sign, and none if it is zero. Yet a statement that is
printed on a line of its own is read back as that statement, at its new place
(`parseLexemes_text`), as long as its names can be read back (`Statement.Printable`).

In a source that is assembled they can (`printable_of_assemble`). The one name that needs more than
its own token is that of `name+0`, which is printed without the displacement: since such a label is
defined, some name with the same capital form is neither reserved nor a register, and so this one is
not either.
-/
import Nic.Proofs.Assembly.Places
import Nic.Proofs.Statement.LineGrammar
import Nic.Proofs.Token.Spelling

set_option autoImplicit false

namespace Nic

open Token

/-- The statements of a program, one on each line. -/
def programText (program : List Statement) : String :=
  "\n".intercalate (program.map Statement.text)

/-! ## Names that can be printed -/

/-- A name with a displacement that is read back when it is printed: it looks like a name, and if
no displacement is printed after it, it is neither reserved nor a register. -/
structure PrintableName (name : String) (offset : Int) : Prop where
  word : isWord name.toList = true
  range : -32768 ≤ offset ∧ offset ≤ 32767
  plain : offset = 0 → ofName name.toList = .ok (.name name)

/-- A statement all of whose names can be printed. -/
structure Statement.Printable (s : Statement) : Prop where
  defined : ∀ label, s.defined? = some label → PrintableName label.name 0
  operands : ∀ label offset, .address label offset ∈ s.byteOperands →
    PrintableName label.name offset

/-! ## Operands -/

/-- A token at no place in particular. -/
def Token.bare (t : Token) : Located Token := ⟨t, ⟨0, 0⟩⟩

/-- An operand without the place of its label. -/
abbrev Operand.unplaced (x : Operand) : Operand := x.moved fun _ => 0

/-- **A printed operand is read back.** -/
theorem Operand.spells_text {x : Operand}
    (h : ∀ label offset, x = .address label offset → PrintableName label.name offset) :
    ∃ t, Spells x.text.toList t ∧ x.unplaced.Written t.bare := by
  cases x with
  | literal b => exact ⟨.unsigned b.toNat, spells_literal b, .byte b ⟨0, 0⟩⟩
  | address label offset =>
    have hname := h label offset rfl
    rw [Operand.text]
    split
    next hzero =>
      subst hzero
      exact ⟨.name label.name, spells_word hname.word (hname.plain rfl),
        @Operand.Written.name label.name ⟨0, 0⟩⟩
    next hne =>
      refine ⟨.displaced label.name offset, ?_, @Operand.Written.displaced label.name offset ⟨0, 0⟩⟩
      have hspells := spells_displaced hname.word hname.range
      rwa [String.ofList_toList, ← String.toList_append] at hspells

theorem Operand.spells_texts {values : List Operand}
    (h : ∀ label offset, .address label offset ∈ values → PrintableName label.name offset) :
    ∃ ts : List Token, List.Forall₂ (fun w t => Spells w.toList t) (values.map Operand.text) ts ∧
      List.Forall₂ Operand.Written (values.map Operand.unplaced) (ts.map Token.bare) := by
  induction values with
  | nil => exact ⟨[], .nil, .nil⟩
  | cons x values ih =>
    obtain ⟨t, hspells, hwritten⟩ := Operand.spells_text (x := x) fun label offset hx =>
      h label offset (hx ▸ List.mem_cons_self)
    obtain ⟨ts, hall, hrest⟩ := ih fun label offset hx => h label offset (List.mem_cons_of_mem _ hx)
    exact ⟨t :: ts, .cons hspells hall, .cons hwritten hrest⟩

/-! ## Statements -/

/-- Words with blanks between them, as a text. -/
theorem values_intercalate {ws : List String} {ts : List Token}
    (h : List.Forall₂ (fun w t => Spells w.toList t) ws ts) :
    values (" ".intercalate ws).toList = ts.map .ok := by
  rw [String.toList_intercalate]
  exact values_words (List.forall₂_map_left_iff.mpr h)

theorem SourceInstr.written_text {i : SourceInstr}
    (h : ∀ label offset, i.operand? = some (.address label offset) →
      PrintableName label.name offset) :
    ∃ ts : List Token,
      List.Forall₂ (fun w t => Spells w.toList t) (i.mnemonic :: i.operands) ts ∧
      Statement.Body.Written (.instr (i.moved fun _ => 0)) (ts.map Token.bare) := by
  have hx : ∀ {x}, i.operand? = some x → ∃ t, Spells x.text.toList t ∧ x.unplaced.Written t.bare :=
    fun hoperand => Operand.spells_text fun label offset heq => h label offset (heq ▸ hoperand)
  cases i with
  | halt => exact ⟨[.mnemonic .halt], .cons (spells_mnemonic .halt) .nil, .halt⟩
  | noop => exact ⟨[.mnemonic .noop], .cons (spells_mnemonic .noop) .nil, .noop⟩
  | imm op a x =>
    obtain ⟨t, hspells, hwritten⟩ := hx rfl
    exact ⟨[.mnemonic (.imm op), .register a, t],
      .cons (spells_mnemonic (.imm op)) (.cons (spells_register a) (.cons hspells .nil)),
      .imm hwritten⟩
  | pair op a b =>
    exact ⟨[.mnemonic (.pair op), .register a, .register b],
      .cons (spells_mnemonic (.pair op)) (.cons (spells_register a)
        (.cons (spells_register b) .nil)),
      .pair⟩
  | alu op a b c =>
    exact ⟨[.mnemonic (.alu op), .register a, .register b, .register c],
      .cons (spells_mnemonic (.alu op)) (.cons (spells_register a)
        (.cons (spells_register b) (.cons (spells_register c) .nil))),
      .alu⟩
  | jump x =>
    obtain ⟨t, hspells, hwritten⟩ := hx rfl
    exact ⟨[.mnemonic .jump, t], .cons (spells_mnemonic .jump) (.cons hspells .nil), .jump hwritten⟩
  | jumpIf cond a x =>
    obtain ⟨t, hspells, hwritten⟩ := hx rfl
    exact ⟨[.mnemonic (.jumpIf cond), .register a, t],
      .cons (spells_mnemonic (.jumpIf cond)) (.cons (spells_register a) (.cons hspells .nil)),
      .jumpIf hwritten⟩

theorem spanOf_bare (ts : List Token) : spanOf (ts.map Token.bare) = ⟨0, 0⟩ := by
  apply spanOf_eq_zero
  intro t ht
  obtain ⟨token, -, rfl⟩ := List.mem_map.mp ht
  rfl

theorem LineWritten.statement_bare {b : Statement.Body} {ts : List Token}
    (h : b.Written (ts.map Token.bare)) : LineWritten [⟨b, ⟨0, 0⟩⟩] (ts.map Token.bare) := by
  have hwritten := LineWritten.statement h
  rwa [spanOf_bare] at hwritten

/-- **A printed statement is written on its line.** -/
theorem Statement.written_text {s : Statement} (h : s.Printable) :
    ∃ ts : List Token, values s.text.toList = ts.map .ok ∧
      LineWritten [s.moved fun _ => 0] (ts.map Token.bare) := by
  obtain ⟨body, span⟩ := s
  cases body with
  | instr i =>
    obtain ⟨ts, hspells, hwritten⟩ := SourceInstr.written_text fun label offset hoperand =>
      h.operands label offset (Option.mem_toList.mpr hoperand)
    exact ⟨ts, values_intercalate hspells, .statement_bare hwritten⟩
  | label label =>
    have hname := h.defined label rfl
    refine ⟨[.name label.name, .colon], ?_, @LineWritten.label label.name ⟨0, 0⟩ ⟨0, 0⟩ _ _ .blank⟩
    have hcolon : Breaks [':'] := by
      intro c hc
      cases hc
      decide
    have htext : (Statement.text ⟨.label label, span⟩).toList = label.name.toList ++ [':'] :=
      String.toList_append
    rw [htext, spells_word hname.word (hname.plain rfl) _ hcolon, values_cons]
    simp [pieceAt]
  | word label values =>
    have hname := h.defined label rfl
    obtain ⟨ts, hspells, hwritten⟩ := @Operand.spells_texts values h.operands
    exact ⟨.mnemonic .word :: .name label.name :: ts,
      values_intercalate (.cons (spells_mnemonic .word)
        (.cons (spells_word hname.word (hname.plain rfl)) hspells)),
      .statement_bare (@Statement.Body.Written.word label.name _ ⟨0, 0⟩ ⟨0, 0⟩ _ hwritten)⟩

/-! ## Lines -/

/-- A printed statement is read back from its line. -/
theorem parseLexemes_text {s : Statement} (h : s.Printable) :
    parseLexemes (unplaced (values s.text.toList)) = ⟨[s.moved fun _ => 0], []⟩ := by
  obtain ⟨ts, hvalues, hwritten⟩ := s.written_text h
  have hline : unplaced (values s.text.toList) = (ts.map Token.bare).map Located.lexeme := by
    rw [hvalues, unplaced, List.map_map, List.map_map]
    rfl
  have hparsed := parseLine_eq_iff.mpr ⟨ts.map Token.bare, rfl, hwritten⟩
  rw [parseLexemes, hline, hwritten.tokenLines_eq, List.map_singleton, hparsed]
  rfl

/-- **A printed program is read back.** -/
theorem parse_programText {program : List Statement} (h : ∀ s ∈ program, s.Printable) :
    (parse (programText program)).moved (fun _ => 0) =
      ⟨program.map (Statement.moved fun _ => 0), []⟩ := by
  rw [parse_unplaced, programText]
  induction program with
  | nil =>
    rw [List.map_nil, String.intercalate_nil]
    exact congrArg (parseLexemes ∘ unplaced) values_nil
  | cons s program ih =>
    have hs := parseLexemes_text (h s List.mem_cons_self)
    have hrest := ih fun t ht => h t (List.mem_cons_of_mem _ ht)
    cases program with
    | nil =>
      rw [List.map_singleton, String.intercalate_singleton, hs]
      rfl
    | cons t program =>
      have htext : ("\n".intercalate ((s :: t :: program).map Statement.text)).toList =
          s.text.toList ++
            '\n' :: ("\n".intercalate ((t :: program).map Statement.text)).toList := by
        rw [List.map_cons, List.map_cons, String.intercalate_cons_cons, String.toList_append,
          String.toList_append, List.append_assoc]
        rfl
      rw [htext, unplaced_values_newline, parseLexemes_append_newline, hs, hrest]
      rfl

/-! ## Sources -/

/-- A name that is read from a source can be printed. -/
theorem printableName_of_mem_scan {source name : String} {span : Span}
    (h : ⟨.ok (.name name), span⟩ ∈ scan source) : PrintableName name 0 := by
  obtain ⟨before, c, rest, -, hread⟩ := readFrom_of_mem_scanFrom h
  cases hread with
  | name hc hname =>
    refine ⟨?_, by decide, fun _ => ?_⟩
    · rw [String.toList_ofList]
      exact isWord_wordRun hc rest
    · rw [String.toList_ofList]
      exact hname

/-- A name with a displacement that is read from a source has the characters of a name. -/
theorem displaced_of_mem_scan {source name : String} {offset : Int} {span : Span}
    (h : ⟨.ok (.displaced name offset), span⟩ ∈ scan source) :
    isWord name.toList = true ∧ -32768 ≤ offset ∧ offset ≤ 32767 := by
  obtain ⟨before, c, rest, -, hread⟩ := readFrom_of_mem_scanFrom h
  cases hread with
  | displaced hc hoffset =>
    refine ⟨?_, hoffset⟩
    rw [String.toList_ofList]
    exact isWord_wordRun hc rest

/-- The names in an assembled source can be printed. -/
theorem printable_of_assemble {source : String} {maxErrors : Nat} {e : Executable}
    (h : assemble source maxErrors = .ok e) : ∀ s ∈ (parse source).statements, s.Printable := by
  obtain ⟨hfree, -⟩ := assemble_ok h
  have hdefined : ∀ s ∈ (parse source).statements, ∀ label, s.defined? = some label →
      PrintableName label.name 0 := by
    intro s hs label hlabel
    have hbody : s.body = .label label ∨ ∃ values, s.body = .word label values := by
      rw [Statement.defined?] at hlabel
      split at hlabel
      · cases hlabel
      next hs =>
        cases hlabel
        exact .inl hs
      next values hs =>
        cases hlabel
        exact .inr ⟨values, hs⟩
    obtain ⟨span, hmem, -⟩ := name_of_mem_parse hs hbody
    exact printableName_of_mem_scan hmem
  intro s hs
  refine ⟨hdefined s hs, fun label offset hx => ?_⟩
  have hlabels := Statement.mem_labels_of_byteOperands hx
  obtain ⟨span, -, ⟨rfl, hmem⟩ | hmem⟩ := token_of_mem_labels hs hlabels
  · exact printableName_of_mem_scan hmem
  · obtain ⟨hword, hrange⟩ := displaced_of_mem_scan hmem
    refine ⟨hword, hrange, fun _ => ?_⟩
    -- the label is defined, by a name with the same capital form
    obtain ⟨t, ht, hkey⟩ := (Statement.operandFaults_eq_nil_iff.mp hfree.operands).1 s hs label _ hx
    obtain ⟨label', hlabel', hupper⟩ := Statement.key?_eq_some.mp hkey
    have hname := hdefined t ht label' hlabel'
    have hof := ofName_of_uppercase hword hname.word
      (by rw [String.ofList_toList, String.ofList_toList, hupper])
      (by rw [String.ofList_toList]; exact hname.plain rfl)
    rwa [String.ofList_toList] at hof

/-- **Printing and assembling again changes nothing.** -/
theorem assemble_programText {source : String} {maxErrors : Nat} {e : Executable}
    (h : assemble source maxErrors = .ok e) :
    ∃ e', assemble (programText (parse source).statements) maxErrors = .ok e' ∧
      e.SameProgram e' := by
  have hparse := parse_programText (printable_of_assemble h)
  have herrors : (parse (programText (parse source).statements)).errors = [] :=
    List.map_eq_nil_iff.mp (congrArg Parsed.errors hparse)
  exact assemble_of_unplaced h herrors (congrArg Parsed.statements hparse)

/-- A displacement of zero is left out, and the name is still that of the label. -/
theorem assemble_programText_zero_displacement :
    ∃ e e', assemble "aß: loadc r1 -1 // down\n jump ASS+0\nword d d-3" 1 = .ok e ∧
      assemble "aß:\nloadc r1 0xff\njump ASS\nword d d-3" 1 = .ok e' ∧ e.SameProgram e' := by
  obtain ⟨e, he⟩ := exists_of_isOk
    (by decide +kernel :
      (assemble "aß: loadc r1 -1 // down\n jump ASS+0\nword d d-3" 1).isOk = true)
  have htext : programText (parse "aß: loadc r1 -1 // down\n jump ASS+0\nword d d-3").statements =
      "aß:\nloadc r1 0xff\njump ASS\nword d d-3" := by
    decide +kernel
  obtain ⟨e', he', hsame⟩ := assemble_programText he
  rw [htext] at he'
  exact ⟨e, e', he, he', hsame⟩

end Nic
