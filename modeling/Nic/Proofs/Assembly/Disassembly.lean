/-
Words are assembled again from the text of their instructions.

The text of an instruction is that of a statement: `Instr.toSource` is the statement, and what it
is assembled to is the instruction again, whatever the symbols are (`toInstr_toSource`). The work is
in the jumps. All of them are one operation on words, but they are printed as `noop`, `jump` or a
jump with a condition, depending on register, condition and target together, and the assembler has
a rule of its own for each of the three.

The statements name no label, so nothing can be wrong with a list of them but its length
(`build_listing`), and the image is the words in order. That the text is read as these statements is
known from `parse_programText`, as for any program.
-/
import Nic.Proofs.Assembly.Printed

set_option autoImplicit false

namespace Nic

/-! ## Instructions as statements -/

namespace Instr

/-- The instruction of a program that an instruction is printed as. -/
def toSource : Instr → SourceInstr
  | halt => .halt
  | imm op a x => .imm op a (.literal x)
  | pair op a b => .pair op a b
  | alu op a b c => .alu op a b c
  | jump a cond target =>
    if a = Reg.zero ∧ cond = .notEqual ∧ target = 0 then .noop
    else if a = Reg.zero ∧ cond = .equal then .jump (.literal target)
    else .jumpIf cond a (.literal target)

/-- An instruction is printed as its statement is. -/
theorem text_toSource (i : Instr) : i.toSource.text = i.text := by
  cases i with
  | halt => rfl
  | imm op a x =>
    simp [text, toSource, SourceInstr.text, SourceInstr.mnemonic, SourceInstr.operands,
      Operand.text, toString, String.intercalate_cons_cons, ← String.toList_inj]
  | pair op a b =>
    simp [text, toSource, SourceInstr.text, SourceInstr.mnemonic, SourceInstr.operands, toString,
      String.intercalate_cons_cons, ← String.toList_inj]
  | alu op a b c =>
    simp [text, toSource, SourceInstr.text, SourceInstr.mnemonic, SourceInstr.operands, toString,
      String.intercalate_cons_cons, ← String.toList_inj]
  | jump a cond target =>
    -- both sides look at register, condition and target in the same order
    rw [text, toSource]
    split
    · rfl
    split <;>
      simp [SourceInstr.text, SourceInstr.mnemonic, SourceInstr.operands, Operand.text, toString,
        String.intercalate_cons_cons, ← String.toList_inj]

/-- **Each form of a jump is the jump that it was printed for.** -/
theorem toInstr_toSource {i : Instr} (h : i.IsAligned) (symbols : Symbols) :
    i.toSource.toInstr symbols = .ok i := by
  cases i with
  | jump a cond target =>
    have htarget : target.aligned = target := h
    rw [toSource]
    split
    next hnoop =>
      obtain ⟨rfl, rfl, rfl⟩ := hnoop
      rfl
    split
    next hjump =>
      -- `jump` takes its condition from the low bits of the target, which are zero
      obtain ⟨rfl, rfl⟩ := hjump
      change Except.ok (jumpTo Reg.zero target) = .ok (jump Reg.zero .equal target)
      rw [jumpTo, Cond.ofByte_of_aligned htarget, htarget]
    next =>
      change Except.ok (jump a cond target.aligned) = .ok (jump a cond target)
      rw [htarget]
  | _ => rfl

/-- No label is printed. -/
theorem literal_of_operand? {i : Instr} {x : Operand} (h : i.toSource.operand? = some x) :
    ∃ b, x = .literal b := by
  cases i with
  | imm op a b =>
    cases h
    exact ⟨b, rfl⟩
  | jump a cond target =>
    rw [toSource] at h
    split at h
    · cases h
    split at h <;> cases h <;> exact ⟨target, rfl⟩
  | _ => cases h

end Instr

/-! ## Lists of instructions -/

/-- Instructions as a program, at no place in particular. -/
def listing (instrs : List Instr) : List Statement :=
  instrs.map fun i => ⟨.instr i.toSource, ⟨0, 0⟩⟩

namespace Statement

variable (instrs : List Instr)

theorem programText_listing :
    programText (listing instrs) = "\n".intercalate (instrs.map Instr.text) := by
  rw [programText, listing, List.map_map]
  congr 1
  exact List.map_congr_left fun i _ => i.text_toSource

theorem instructions_listing : instructions (listing instrs) = instrs.map Instr.toSource := by
  rw [instructions, listing, List.filterMap_map]
  exact congrFun (List.filterMap_eq_map (f := Instr.toSource)) instrs

theorem filterMap_key?_listing : (listing instrs).filterMap key? = [] := by
  rw [listing, List.filterMap_map]
  exact List.filterMap_eq_nil_iff.mpr fun _ _ => rfl

theorem dataSizes_listing : dataSizes (listing instrs) = 0 := by
  rw [dataSizes, listing, List.map_map]
  exact List.sum_eq_zero_iff_forall_eq_nat.mpr fun n hn => by
    obtain ⟨i, -, rfl⟩ := List.mem_map.mp hn
    rfl

theorem programSize_listing : programSize (listing instrs) = 4 * (instrs.length + 2) := by
  rw [programSize, dataSizes_listing, dataStart_eq, ← length_instructions, instructions_listing,
    List.length_map]
  rfl

/-- Every operand is a number. -/
theorem literal_of_mem_listing {s : Statement} (hs : s ∈ listing instrs) {x : Operand}
    (hx : x ∈ s.byteOperands) : ∃ b, x = .literal b := by
  obtain ⟨i, -, rfl⟩ := List.mem_map.mp hs
  exact Instr.literal_of_operand? (Option.mem_toList.mp hx)

/-- There is no name that could not be read back. -/
theorem printable_of_mem_listing {s : Statement} (hs : s ∈ listing instrs) : s.Printable := by
  refine ⟨fun label hlabel => ?_, fun label offset hx => ?_⟩
  · obtain ⟨i, -, rfl⟩ := List.mem_map.mp hs
    cases hlabel
  · obtain ⟨b, hb⟩ := literal_of_mem_listing instrs hs hx
    cases hb

end Statement

open Statement

/-- **Nothing is wrong with a list of instructions** that is not too long. -/
theorem build_listing {instrs : List Instr} (h : instrs.length ≤ 62) :
    (build (listing instrs)).2 = [] := by
  rw [build_errors_eq_nil_iff, filterMap_key?_listing, programSize_listing, memoryCells]
  refine ⟨.nil, ?_, by omega⟩
  simp only [operandFaults, List.flatMap_eq_nil_iff, List.filterMap_eq_nil_iff]
  intro s hs x hx
  obtain ⟨b, rfl⟩ := literal_of_mem_listing instrs hs hx
  rfl

/-- The image of a list of instructions is their words, and the two instructions that end every
program. -/
theorem imageOf_listing {instrs : List Instr} (h : ∀ i ∈ instrs, i.IsAligned) (symbols : Symbols) :
    imageOf symbols (listing instrs) =
      (instrs.map Instr.encode).flatMap Word.digits ++ [0, 0, 0, 0, 0xf, 0, 0, 0] := by
  have hwords : (instrs.map Instr.toSource).map (fun i =>
      bitsOf (Instr.encode <$> i.toInstr symbols)) = instrs.map Instr.encode := by
    rw [List.map_map]
    refine List.map_congr_left fun i hi => ?_
    rw [Function.comp_apply, i.toInstr_toSource (h i hi)]
    rfl
  have hdata : dataCells symbols (listing instrs) = [] :=
    List.length_eq_zero_iff.mp ((length_dataCells _ _).trans (dataSizes_listing instrs))
  rw [imageOf, codeCells_eq, instructions_listing, hwords, hdata, List.append_nil]
  rfl

/-! ## Lists of words -/

/-- The instructions of words, in order. -/
def disassemble (words : List Word) : List Instr :=
  words.filterMap Instr.decode

/-- The text of the instructions of words, one on each line. -/
def disassembly (words : List Word) : String :=
  "\n".intercalate ((disassemble words).map Instr.text)

theorem isAligned_of_mem_disassemble {words : List Word} {i : Instr}
    (h : i ∈ disassemble words) : i.IsAligned := by
  obtain ⟨w, -, hw⟩ := List.mem_filterMap.mp h
  exact (Instr.decode_eq_some_iff.mp hw).2

/-- Words that are all instructions are the words of their instructions. -/
theorem map_encode_disassemble {words : List Word} (h : ∀ w ∈ words, (Instr.decode w).isSome) :
    (disassemble words).map Instr.encode = words := by
  induction words with
  | nil => rfl
  | cons w words ih =>
    obtain ⟨i, hi⟩ := Option.isSome_iff_exists.mp (h w List.mem_cons_self)
    have hrest := ih fun v hv => h v (List.mem_cons_of_mem _ hv)
    rw [disassemble] at hrest ⊢
    rw [List.filterMap_cons_some hi, List.map_cons, hrest, (Instr.decode_eq_some_iff.mp hi).1]

/-- **Words come back from the text of their instructions.** Take at most 62 words that are all
instructions, as many as there is room for. The text of the instructions is assembled, and the image
is the digits of the words in order, and those of the two instructions that end every program. -/
theorem assemble_disassembly {words : List Word} (maxErrors : Nat) (hlength : words.length ≤ 62)
    (hdecode : ∀ w ∈ words, (Instr.decode w).isSome) :
    ∃ e, assemble (disassembly words) maxErrors = .ok e ∧
      e.image = words.flatMap Word.digits ++ [0, 0, 0, 0, 0xf, 0, 0, 0] := by
  have hwords := map_encode_disassemble hdecode
  have hcount : (disassemble words).length = words.length := by
    rw [← List.length_map Instr.encode, hwords]
  have hparse := parse_programText fun s => printable_of_mem_listing (disassemble words)
  rw [programText_listing] at hparse
  have herrors : (parse (disassembly words)).errors = [] :=
    List.map_eq_nil_iff.mp (congrArg Parsed.errors hparse)
  obtain ⟨e, he, hsame⟩ : ∃ e, assemble (disassembly words) maxErrors = .ok e ∧
      (build (listing (disassemble words))).1.SameProgram e :=
    assemble_of_build (build_listing (hcount ▸ hlength)) herrors
      (congrArg Parsed.statements hparse)
  have haligned : ∀ i ∈ disassemble words, i.IsAligned := fun _ => isAligned_of_mem_disassemble
  have himage := imageOf_listing haligned (symbolsOf (listing (disassemble words))).1
  rw [hwords] at himage
  exact ⟨e, he, hsame.image.trans himage⟩

/-- The same operation in all its forms: `jump`, `noop` and jumps on register 0 that look like
these but for the condition or the target. -/
theorem assemble_disassembly_jumps :
    disassembly [0xf008, 0xf001, 0xf005, 0xf00a, 0xf308, 0x5012] =
        "jump 0x08\nnoop\njumpn r0 0x04\njumpl r0 0x08\njumpe r3 0x08\nstorer r1 r2" ∧
      ∃ e, assemble "jump 0x08\nnoop\njumpn r0 0x04\njumpl r0 0x08\njumpe r3 0x08\nstorer r1 r2" 1 =
          .ok e ∧
        e.image = [0xf, 0, 0, 8, 0xf, 0, 0, 1, 0xf, 0, 0, 5, 0xf, 0, 0, 0xa, 0xf, 3, 0, 8,
          5, 0, 1, 2, 0, 0, 0, 0, 0xf, 0, 0, 0] := by
  have htext : disassembly [0xf008, 0xf001, 0xf005, 0xf00a, 0xf308, 0x5012] =
      "jump 0x08\nnoop\njumpn r0 0x04\njumpl r0 0x08\njumpe r3 0x08\nstorer r1 r2" := by
    decide +kernel
  obtain ⟨e, he, himage⟩ := assemble_disassembly 1 (by decide) (List.all_eq_true.mp
    (by decide +kernel : [0xf008, 0xf001, 0xf005, 0xf00a, 0xf308, 0x5012].all
      (fun w => (Instr.decode w).isSome) = true))
  rw [htext] at he
  exact ⟨htext, e, he, himage.trans (by decide +kernel)⟩

end Nic
