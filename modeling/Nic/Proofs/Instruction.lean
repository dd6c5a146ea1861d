/-
Reading back the words of instructions.

A word keeps everything of an instruction but the two low bits of a jump's target, whose place
the condition takes. Targets are addresses of instructions, where these bits are zero, so nothing
is lost: `decode_encode`. Nor is anything lost the other way, since a word with a digit that no
instruction would give it is not read at all (`decode_eq_some_iff`). The assembler only makes
targets that are addresses of instructions, from whatever operand
(`SourceInstr.toInstr_isAligned`).
-/
import Nic.Assembly.Emit

set_option autoImplicit false

namespace Nic

/-! ## Addresses of instructions -/

theorem Byte.aligned_aligned (b : Byte) : b.aligned.aligned = b.aligned := by
  rw [Byte.aligned, Byte.aligned, BitVec.and_assoc, BitVec.and_self]

/-- Aligning rounds down to a multiple of four. -/
theorem Byte.toNat_aligned (b : Byte) : b.aligned.toNat = b.toNat / 4 * 4 := by
  revert b; decide

/-- A condition takes only bits that aligning drops. -/
theorem Cond.aligned_intoByte (c : Cond) (b : Byte) : (c.intoByte b).aligned = b.aligned := by
  revert b; cases c <;> decide

/-- The condition and the target of an address byte make up the byte. -/
theorem Cond.intoByte_ofByte (b : Byte) : (Cond.ofByte b).intoByte b.aligned = b := by
  revert b; decide

/-- The address of an instruction, as an address byte, has the first condition. -/
theorem Cond.ofByte_of_aligned {b : Byte} (h : b.aligned = b) : Cond.ofByte b = .equal := by
  revert b; decide

namespace Instr

/-- If the instruction is a jump, it goes to the address of an instruction. -/
def IsAligned : Instr → Prop
  | jump _ _ target => target.aligned = target
  | _ => True

theorem jumpTo_isAligned (a : Reg) (address : Byte) : (jumpTo a address).IsAligned :=
  Byte.aligned_aligned address

/-- **Reading undoes writing** for every instruction whose target has a place in the word. -/
theorem decode_encode {i : Instr} (h : i.IsAligned) : decode i.encode = some i := by
  cases i with
  | halt => rfl
  | imm op a x => simp [encode, decode, opcode]
  | pair op a b => simp [encode, decode, opcode]
  | alu op a b c => simp [encode, decode, opcode]
  | jump a cond target =>
    -- the condition comes back from the low bits, the target from the others
    have ht : target.aligned = target := h
    simp [encode, decode, opcode, jumpTo, Cond.aligned_intoByte, ht]

/-- **A word is read as the one instruction that it is the word of**, if there is one. -/
theorem decode_eq_some_iff {w : Word} {i : Instr} :
    decode w = some i ↔ i.encode = w ∧ i.IsAligned := by
  refine ⟨fun h => ?_, fun ⟨hw, hi⟩ => hw ▸ decode_encode hi⟩
  have hdigit : ∀ {o : Opcode}, Opcode.ofDigit w.highByte.high = o → o.digit = w.highByte.high := by
    rintro o rfl
    exact Opcode.digit_ofDigit _
  unfold decode at h
  dsimp only at h
  -- in the order of the operations; `halt` and those with two registers have digits to check
  split at h
  next ho =>
    split at h <;> cases h
    next hw => exact ⟨hw.symm, trivial⟩
  next op ho =>
    cases h
    exact ⟨by simp [encode, opcode, hdigit ho], trivial⟩
  next op ho =>
    split at h <;> cases h
    next ha => exact ⟨by simp [encode, opcode, hdigit ho, ← ha], trivial⟩
  next op ho =>
    cases h
    exact ⟨by simp [encode, opcode, hdigit ho], trivial⟩
  next ho =>
    cases h
    refine ⟨?_, jumpTo_isAligned _ _⟩
    simp [encode, opcode, hdigit ho, jumpTo, Cond.intoByte_ofByte]

end Instr

/-! ## Instructions of a program -/

/-- What comes out of a computation that is followed by a function. -/
theorem map_eq_ok_iff {ε α β : Type} {f : α → β} {r : Except ε α} {b : β} :
    f <$> r = .ok b ↔ ∃ a, r = .ok a ∧ f a = b := by
  cases r <;> simp [Functor.map, Except.map]

/-- The assembler makes no jump with a target that its word cannot hold. -/
theorem SourceInstr.toInstr_isAligned {symbols : Symbols} {i : SourceInstr} {instr : Instr}
    (h : i.toInstr symbols = .ok instr) : instr.IsAligned := by
  cases i with
  | halt =>
    cases h
    trivial
  | noop =>
    cases h
    exact Instr.jumpTo_isAligned _ _
  | imm op a x =>
    obtain ⟨b, -, rfl⟩ := map_eq_ok_iff.mp h
    trivial
  | pair op a b =>
    cases h
    trivial
  | alu op a b c =>
    cases h
    trivial
  | jump x =>
    obtain ⟨b, -, rfl⟩ := map_eq_ok_iff.mp h
    exact Instr.jumpTo_isAligned _ _
  | jumpIf cond a x =>
    obtain ⟨b, -, rfl⟩ := map_eq_ok_iff.mp h
    exact Byte.aligned_aligned b

end Nic
