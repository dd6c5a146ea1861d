/-
What an assembled instruction does.

The meaning of an instruction is given here on the numbers that a program sees: registers, cells,
program counter and status. Sums and products are taken modulo 256, comparisons are between signed
numbers, and no word is encoded or decoded. The machine does just that with the cells that the
assembler makes of the instruction.

The proof goes through the layers one at a time. An operand is resolved to its byte
(`resolve_eq_ok`), the instruction of the program becomes one of the machine, which is read back
from its word (`Instr.decode_encode`), and the machine performs it (`view_perform`,
`goesTo_eq_successor`). `stepIn_of_toInstr` puts the layers together for any word in memory, and
`readWord_of_image` says that the word is there if the cells of the image are.
-/
import Mathlib.Logic.Function.Basic
import Nic.Proofs.Assembly.Image
import Nic.Proofs.Machine.Step
import Nic.Proofs.Statement.Grammar

set_option autoImplicit false

namespace Nic

open Statement

/-! ## What a program sees -/

/-- The parts of the machine that instructions are about. -/
structure View where
  reg : Reg → Byte
  cell : Byte → Nibble
  pc : Byte
  status : Status

namespace View

/-- The byte at an address: its digits are there and at the next address. -/
def byteAt (v : View) (x : Byte) : Byte :=
  BitVec.ofNat 8 (16 * (v.cell x).toNat + (v.cell (x + 1)).toNat)

/-- Another value in one register. -/
def setReg (v : View) (a : Reg) (b : Byte) : View :=
  { v with reg := Function.update v.reg a b }

/-- Another byte at an address: the digits in two cells. -/
def setByteAt (v : View) (x b : Byte) : View :=
  { v with
    cell := Function.update (Function.update v.cell x (BitVec.ofNat 4 (b.toNat / 16)))
      (x + 1) (BitVec.ofNat 4 (b.toNat % 16)) }

end View

/-- What a program sees of a machine. -/
def Machine.view (m : Machine) : View := ⟨m.reg, m.mem.get, m.pc, m.status⟩

/-! ## What instructions mean -/

/-- The operations on numbers: modulo 256, bit by bit, or a shift by a signed amount, which leaves
nothing if it is eight or more in either direction. -/
def AluOp.meaning : AluOp → Byte → Byte → Byte
  | add, b, c => BitVec.ofNat 8 (b.toNat + c.toNat)
  | mul, b, c => BitVec.ofNat 8 (b.toNat * c.toNat)
  | sub, b, c => BitVec.ofInt 8 (b.toNat - c.toNat)
  | shift, b, c =>
    if 8 ≤ c.toInt.natAbs then 0
    else if 0 ≤ c.toInt then BitVec.ofNat 8 (b.toNat * 2 ^ c.toInt.natAbs)
    else BitVec.ofNat 8 (b.toNat / 2 ^ c.toInt.natAbs)
  | and, b, c => b &&& c
  | or, b, c => b ||| c
  | xor, b, c => b ^^^ c

/-- What a condition says of two numbers. -/
def Cond.Between : Cond → Int → Int → Prop
  | equal, l, r => l = r
  | notEqual, l, r => l ≠ r
  | less, l, r => l < r
  | lessOrEqual, l, r => l ≤ r

instance (c : Cond) (l r : Int) : Decidable (c.Between l r) :=
  match c with
  | .equal => inferInstanceAs (Decidable (l = r))
  | .notEqual => inferInstanceAs (Decidable (l ≠ r))
  | .less => inferInstanceAs (Decidable (l < r))
  | .lessOrEqual => inferInstanceAs (Decidable (l ≤ r))

/-- The byte of an operand: the literal, or the address of the label and the displacement, modulo
256. -/
def Operand.byte (symbols : Symbols) : Operand → Byte
  | literal value => value
  | address label offset =>
    BitVec.ofInt 8 (((symbols.address? label.name).elim 0 BitVec.toNat : Nat) + offset)

namespace SourceInstr

/-- What an instruction changes of registers and cells. -/
def change (value : Operand → Byte) (v : View) : SourceInstr → View
  | imm .load a x => v.setReg a (v.byteAt (value x))
  | imm .loadc a x => v.setReg a (value x)
  | imm .store a x => v.setByteAt (value x) (v.reg a)
  | imm .addc a x => v.setReg a (AluOp.meaning .add (v.reg a) (value x))
  | pair .loadr a b => v.setReg a (v.byteAt (v.reg b))
  | pair .storer a b => v.setByteAt (v.reg b) (v.reg a)
  | pair .move a b => v.setReg a (v.reg b)
  | alu op a b c => v.setReg a (op.meaning (v.reg b) (v.reg c))
  | halt | noop | jump _ | jumpIf _ _ _ => v

/-- The address of the instruction that follows. A jump without a condition takes the two low bits
of its operand for one that compares register 0 with itself, so it is taken if they are 0 or 3. -/
def goesTo (value : Operand → Byte) (next : Byte) (v : View) : SourceInstr → Byte
  | jump x => if (value x).toNat % 4 = 0 ∨ (value x).toNat % 4 = 3 then value x &&& 0xfc else next
  | jumpIf cond a x =>
    if cond.Between (v.reg a).toInt (v.reg Reg.zero).toInt then value x &&& 0xfc else next
  | _ => next

/-- The instruction is a jump with this operand, and its condition holds if it has one. -/
def JumpsTo (x : Operand) (v : View) : SourceInstr → Prop
  | jump y => y = x
  | jumpIf cond a y => y = x ∧ cond.Between (v.reg a).toInt (v.reg Reg.zero).toInt
  | _ => False

/-- The status that an instruction leaves. -/
def leaves : SourceInstr → Status
  | halt => .halted
  | _ => .ok

/-- **The meaning of an instruction**, given the bytes of its operands and the address of the
instruction after it. -/
def effect (value : Operand → Byte) (next : Byte) (v : View) (i : SourceInstr) : View :=
  { i.change value v with pc := i.goesTo value next v, status := i.leaves }

theorem effect_status (value : Operand → Byte) (next : Byte) (v : View) (status : Status)
    (i : SourceInstr) : effect value next { v with status } i = effect value next v i := by
  cases i with
  | imm op a x => cases op <;> rfl
  | pair op a b => cases op <;> rfl
  | _ => rfl

end SourceInstr

/-! ## Operations and conditions -/

theorem Byte.ofDigits_eq (h l : Nibble) :
    Byte.ofDigits h l = BitVec.ofNat 8 (16 * h.toNat + l.toNat) := by
  revert h l; decide

theorem Byte.high_eq (b : Byte) : Byte.high b = BitVec.ofNat 4 (b.toNat / 16) := by
  revert b; decide

theorem Byte.low_eq (b : Byte) : Byte.low b = BitVec.ofNat 4 (b.toNat % 16) := by
  revert b; decide

theorem Byte.shiftLeft_eq (b : Byte) (n : Nat) :
    b <<< n = if 8 ≤ n then 0 else BitVec.ofNat 8 (b.toNat * 2 ^ n) := by
  apply BitVec.eq_of_toNat_eq
  rw [BitVec.toNat_shiftLeft, Nat.shiftLeft_eq]
  split
  · -- the product is a multiple of 256
    rename_i h
    have hpow : 2 ^ n = 2 ^ 8 * 2 ^ (n - 8) := by rw [← Nat.pow_add, Nat.add_sub_cancel' h]
    rw [hpow, Nat.mul_left_comm, Nat.mul_mod_right]
    rfl
  · rw [BitVec.toNat_ofNat]

theorem Byte.shiftRight_eq (b : Byte) (n : Nat) :
    b >>> n = if 8 ≤ n then 0 else BitVec.ofNat 8 (b.toNat / 2 ^ n) := by
  have hb : b.toNat < 2 ^ 8 := b.isLt
  apply BitVec.eq_of_toNat_eq
  rw [BitVec.toNat_ushiftRight, Nat.shiftRight_eq_div_pow]
  split
  · rename_i h
    have hpow : 2 ^ 8 ≤ 2 ^ n := Nat.pow_le_pow_right (by omega) h
    exact Nat.div_eq_of_lt (by omega)
  · rw [BitVec.toNat_ofNat, Nat.mod_eq_of_lt (Nat.lt_of_le_of_lt (Nat.div_le_self _ _) hb)]

/-- The two directions of a shift are one function of the signed amount. -/
theorem Byte.shift_eq_meaning (b c : Byte) : Byte.shift b c = AluOp.meaning .shift b c := by
  have hc : c.toNat < 256 := c.isLt
  have hint := BitVec.toInt_eq_msb_cond c
  rw [Byte.shift, AluOp.meaning]
  -- the sign decides the direction on one side, and the sign of the amount on the other
  cases hmsb : c.msb with
  | true =>
    have hge : 2 ^ 7 ≤ c.toNat := BitVec.le_toNat_of_msb_true hmsb
    rw [hmsb, if_pos rfl] at hint
    have hamount : (-c).toNat = c.toInt.natAbs := by
      rw [BitVec.toNat_neg, hint]
      omega
    rw [if_pos rfl, if_neg (show ¬ 0 ≤ c.toInt by omega), hamount]
    exact Byte.shiftRight_eq b _
  | false =>
    rw [hmsb, if_neg Bool.false_ne_true] at hint
    have hamount : c.toNat = c.toInt.natAbs := by
      rw [hint]
      exact (Int.natAbs_natCast _).symm
    rw [if_neg Bool.false_ne_true, if_pos (show 0 ≤ c.toInt by omega)]
    nth_rewrite 1 [hamount]
    exact Byte.shiftLeft_eq b _

theorem AluOp.apply_eq_meaning (op : AluOp) (b c : Byte) : op.apply b c = op.meaning b c := by
  cases op with
  | add =>
    apply BitVec.eq_of_toNat_eq
    rw [apply, meaning, BitVec.toNat_add, BitVec.toNat_ofNat]
  | mul =>
    apply BitVec.eq_of_toNat_eq
    rw [apply, meaning, BitVec.toNat_mul, BitVec.toNat_ofNat]
  | sub =>
    -- the difference is a natural number on one side and an integer on the other
    apply BitVec.eq_of_toNat_eq
    rw [apply, meaning, BitVec.toNat_sub, BitVec.toNat_ofInt]
    omega
  | shift => exact Byte.shift_eq_meaning b c
  | _ => rfl

theorem Cond.holds_iff (c : Cond) (l r : Byte) :
    c.holds l r = true ↔ c.Between l.toInt r.toInt := by
  cases c with
  | equal => rw [holds, Between, beq_iff_eq, BitVec.toInt_inj]
  | notEqual => rw [holds, Between, bne_iff_ne, Ne, Ne, BitVec.toInt_inj]
  | less => rw [holds, Between, BitVec.slt_iff_toInt_lt]
  | lessOrEqual => rw [holds, Between, BitVec.sle_iff_toInt_le]

theorem Cond.holds_self (c : Cond) (b : Byte) :
    c.holds b b = true ↔ c = .equal ∨ c = .lessOrEqual := by
  rw [Cond.holds_iff]
  cases c <;> simp [Between]

/-- A jump that compares a register with itself is taken if its low bits are 0 or 3. -/
theorem Cond.ofByte_holds_self (address b : Byte) :
    (Cond.ofByte address).holds b b = true ↔ address.toNat % 4 = 0 ∨ address.toNat % 4 = 3 := by
  rw [Cond.holds_self]
  revert address; decide

/-! ## Operands -/

/-- A label with a value is in the table, and the value is a sum modulo 256. -/
theorem Symbols.resolve_address_eq_ok {symbols : Symbols} {label : Label} {offset : Int} {b : Byte}
    (h : symbols.resolve (.address label offset) = .ok b) :
    ∃ address, symbols.address? label.name = some address ∧
      b = BitVec.ofInt 8 (address.toNat + offset) := by
  rw [Symbols.resolve] at h
  cases hfind : symbols.address? label.name with
  | none =>
    rw [hfind] at h
    cases h
  | some address =>
    rw [hfind] at h
    dsimp only at h
    by_cases hv : -128 ≤ (address.toNat : Int) + offset ∧ (address.toNat : Int) + offset ≤ 255
    · rw [Byte.fit?_of_mem hv] at h
      exact ⟨address, rfl, (Except.ok.inj h).symm⟩
    · rw [Byte.fit?_of_not_mem hv] at h
      cases h

theorem Symbols.resolve_eq_ok {symbols : Symbols} {x : Operand} {b : Byte}
    (h : symbols.resolve x = .ok b) : x.byte symbols = b := by
  cases x with
  | literal value => exact Except.ok.inj h
  | address label offset =>
    obtain ⟨address, hfind, rfl⟩ := Symbols.resolve_address_eq_ok h
    rw [Operand.byte, hfind]
    rfl

/-! ## The machine -/

namespace Machine

theorem view_unobserved (m : Machine) : m.unobserved.view = m.view := rfl

theorem view_setReg (m : Machine) (a : Reg) (b : Byte) :
    (m.setReg a b).view = m.view.setReg a b := by
  -- registers are kept in a vector; a register is set at its number and nowhere else
  have hreg : reg { m with regs := m.regs.set a.number.toNat b a.number.isLt } =
      Function.update m.reg a b := by
    funext r
    by_cases hr : r = a
    · subst hr
      rw [Function.update_self]
      exact Vector.getElem_set_self _
    · have hnumber : a.number.toNat ≠ r.number.toNat := by
        intro heq
        cases a
        cases r
        exact hr (congrArg Reg.mk (BitVec.eq_of_toNat_eq heq).symm)
      rw [Function.update_of_ne hr]
      exact Vector.getElem_set_ne a.number.isLt r.number.isLt hnumber
  rw [← view_unobserved, unobserved_setReg]
  exact congrArg (fun reg => { m.view with reg }) hreg

theorem view_writeByte (m : Machine) (x b : Byte) :
    (m.writeByte x b).view = m.view.setByteAt x b := by
  have hcell : (m.mem.writeByte x b).get = (m.view.setByteAt x b).cell := by
    funext y
    rw [Memory.writeByte, Memory.get_set, Memory.get_set, Byte.high_eq, Byte.low_eq]
    simp only [View.setByteAt, Function.update_apply]
    rfl
  rw [← view_unobserved, unobserved_writeByte]
  exact congrArg (fun cell => { m.view with cell }) hcell

theorem readByte_eq (m : Machine) (x : Byte) : m.mem.readByte x = m.view.byteAt x :=
  Byte.ofDigits_eq _ _

/-- What an instruction of the program changes, its machine instruction changes. -/
theorem view_perform {symbols : Symbols} {instr : SourceInstr} {i : Instr}
    (h : instr.toInstr symbols = .ok i) (m : Machine) (hstatus : m.status = .ok) :
    (m.perform i).view =
      { instr.change (Operand.byte symbols) m.view with status := instr.leaves } := by
  -- every instruction but `halt` leaves the status that it finds
  have hok : ∀ v : View, v.status = .ok → v = { v with status := .ok } := by
    rintro v hv
    rw [← hv]
  cases instr with
  | halt =>
    cases h
    rw [perform, ← view_unobserved, unobserved_setStatus]
    rfl
  | noop =>
    cases h
    exact hok _ hstatus
  | imm op a x =>
    obtain ⟨b, hx, rfl⟩ := map_eq_ok_iff.mp h
    cases op with
    | load =>
      rw [perform, view_setReg, readByte_eq, SourceInstr.change, Symbols.resolve_eq_ok hx]
      exact hok _ hstatus
    | loadc =>
      rw [perform, view_setReg, SourceInstr.change, Symbols.resolve_eq_ok hx]
      exact hok _ hstatus
    | store =>
      rw [perform, view_writeByte, SourceInstr.change, Symbols.resolve_eq_ok hx]
      exact hok _ hstatus
    | addc =>
      rw [perform, view_setReg, SourceInstr.change, Symbols.resolve_eq_ok hx,
        ← AluOp.apply_eq_meaning]
      exact hok _ hstatus
  | pair op a b =>
    cases h
    cases op with
    | loadr =>
      rw [perform, view_setReg, readByte_eq, SourceInstr.change]
      exact hok _ hstatus
    | storer =>
      rw [perform, view_writeByte, SourceInstr.change]
      exact hok _ hstatus
    | move =>
      rw [perform, view_setReg, SourceInstr.change]
      exact hok _ hstatus
  | alu op a b c =>
    cases h
    rw [perform, view_setReg, SourceInstr.change, ← AluOp.apply_eq_meaning]
    exact hok _ hstatus
  | jump x =>
    obtain ⟨b, -, rfl⟩ := map_eq_ok_iff.mp h
    exact hok _ hstatus
  | jumpIf cond a x =>
    obtain ⟨b, -, rfl⟩ := map_eq_ok_iff.mp h
    exact hok _ hstatus

/-- An instruction of the program goes where its machine instruction goes. -/
theorem goesTo_eq_successor {symbols : Symbols} {instr : SourceInstr} {i : Instr}
    (h : instr.toInstr symbols = .ok i) (m : Machine) :
    instr.goesTo (Operand.byte symbols) m.nr m.view = m.successor i := by
  cases instr with
  | halt =>
    cases h
    rfl
  | noop =>
    cases h
    -- `noop` is the jump with 1 for its operand byte
    have hnever : ¬ (Cond.ofByte 1).holds (m.reg Reg.zero) (m.reg Reg.zero) = true := by
      rw [Cond.ofByte_holds_self]
      decide
    exact (if_neg hnever).symm
  | imm op a x =>
    obtain ⟨b, -, rfl⟩ := map_eq_ok_iff.mp h
    rfl
  | pair op a b =>
    cases h
    rfl
  | alu op a b c =>
    cases h
    rfl
  | jump x =>
    obtain ⟨b, hx, rfl⟩ := map_eq_ok_iff.mp h
    rw [SourceInstr.goesTo, Symbols.resolve_eq_ok hx]
    exact if_congr (Cond.ofByte_holds_self b _).symm rfl rfl
  | jumpIf cond a x =>
    obtain ⟨b, hx, rfl⟩ := map_eq_ok_iff.mp h
    rw [SourceInstr.goesTo, Symbols.resolve_eq_ok hx]
    exact if_congr (Cond.holds_iff cond _ _).symm rfl rfl

/-- **An instruction means the same to both.** -/
theorem view_after {symbols : Symbols} {instr : SourceInstr} {i : Instr}
    (h : instr.toInstr symbols = .ok i) (m : Machine) (hstatus : m.status = .ok) :
    (m.after i).view = instr.effect (Operand.byte symbols) m.nr m.view := by
  have hview : (m.after i).view = { (m.perform i).view with pc := m.successor i } := rfl
  rw [hview, view_perform h m hstatus, ← goesTo_eq_successor h]
  rfl

end Machine

/-! ## Fetching what was assembled -/

/-- Four cells that are the digits of a word are read as this word. -/
theorem Memory.readWord_eq {mem : Memory} {a : Byte} {w : Word}
    (h : [mem.get a, mem.get (a + 1), mem.get (a + 2), mem.get (a + 3)] = w.digits) :
    mem.readWord a = w := by
  simp only [Word.digits, Byte.digits, List.cons_append, List.nil_append, List.cons.injEq] at h
  obtain ⟨h₀, h₁, h₂, h₃, -⟩ := h
  -- addresses go round at the end of memory, on both sides alike
  have hnext : a + 2 + 1 = a + 3 := BitVec.add_assoc a 2 1
  rw [Memory.readWord, Memory.readByte, Memory.readByte, hnext, h₀, h₁, h₂, h₃]
  simp only [Byte.ofDigits_high_low, Word.ofBytes_highByte_lowByte]

/-- A memory that has four cells of an image has the word that they are in the image. -/
theorem readWord_of_image {image : List Nibble} {mem : Memory} {i : Nat} {w : Word}
    (himage : (image.drop (4 * i)).take 4 = w.digits)
    (hmem : ∀ k < 4, image[4 * i + k]? = some (mem.get (BitVec.ofNat 8 (4 * i + k)))) :
    mem.readWord (BitVec.ofNat 8 (4 * i)) = w := by
  have hdigit : ∀ k < 4, some (mem.get (BitVec.ofNat 8 (4 * i) + BitVec.ofNat 8 k)) =
      w.digits[k]? := by
    intro k hk
    rw [← himage, List.getElem?_take_of_lt hk, List.getElem?_drop, hmem k hk, BitVec.ofNat_add]
  have h₀ := hdigit 0 (by omega)
  rw [BitVec.add_zero] at h₀
  have h₁ := hdigit 1 (by omega)
  have h₂ := hdigit 2 (by omega)
  have h₃ := hdigit 3 (by omega)
  apply Memory.readWord_eq
  simp only [Word.digits, Byte.digits, List.cons_append, List.nil_append, List.cons.injEq]
  exact ⟨Option.some.inj h₀, Option.some.inj h₁, Option.some.inj h₂, Option.some.inj h₃, trivial⟩

theorem aligned_ofNat (i : Nat) :
    Byte.aligned (BitVec.ofNat 8 (4 * i)) = BitVec.ofNat 8 (4 * i) := by
  apply BitVec.eq_of_toNat_eq
  rw [Byte.toNat_aligned, BitVec.toNat_ofNat]
  omega

/-! ## Assembled instructions -/

/-- A label in the code stands for the address of an instruction, which is a byte. -/
theorem Statement.FaultFree.byte_label {program earlier later : List Statement}
    (h : FaultFree program) {label target : Label} {span : Span}
    (hp : program = earlier ++ ⟨.label label, span⟩ :: later)
    (hname : Text.uppercase target.name = Text.uppercase label.name) :
    (Operand.address target 0).byte (symbolsOf program).1 =
        BitVec.ofNat 8 (4 * instrCount earlier) ∧ 4 * instrCount earlier < 256 := by
  obtain ⟨address, hfind, haddress⟩ := h.address?_eq hp rfl
  have hcount : instrCount earlier ≤ instrCount program := by
    rw [hp, instrCount_append]
    exact Nat.le_add_right _ _
  have hsize := h.size
  rw [programSize, dataStart_eq] at hsize
  have hplace : address.toNat = 4 * instrCount earlier := haddress
  -- the case in which the label is written does not matter to the table
  have hsame : (symbolsOf program).1.address? target.name =
      (symbolsOf program).1.address? label.name := by
    rw [Symbols.address?, Symbols.find?, hname]
    rfl
  refine ⟨?_, by omega⟩
  rw [Operand.byte, hsame, hfind, Option.elim_some, hplace, Int.add_zero, BitVec.ofInt_natCast]

/-- A jump to the address of an instruction goes there: without a condition it is taken, since its
low bits are those of a multiple of four. -/
theorem SourceInstr.goesTo_of_jumpsTo {value : Operand → Byte} {x : Operand} {j : Nat}
    (hx : value x = BitVec.ofNat 8 (4 * j)) {v : View} {instr : SourceInstr}
    (hjump : instr.JumpsTo x v) (next : Byte) :
    instr.goesTo value next v = BitVec.ofNat 8 (4 * j) := by
  have haligned : value x &&& 0xfc = BitVec.ofNat 8 (4 * j) := by
    rw [hx]
    exact aligned_ofNat j
  cases instr with
  | jump y =>
    obtain rfl : y = x := hjump
    -- the low bits are 0, which is the code of being equal
    have hlow : (value y).toNat % 4 = 0 := by
      rw [hx, BitVec.toNat_ofNat]
      omega
    rw [goesTo, if_pos (Or.inl hlow), haligned]
  | jumpIf cond a y =>
    obtain ⟨rfl, hcond⟩ := hjump
    rw [goesTo, if_pos hcond, haligned]
  | _ => cases hjump

/-- The instruction after the last one of a program has an address. -/
theorem Statement.FaultFree.next_lt {program : List Statement} (h : FaultFree program) {i : Nat}
    {instr : SourceInstr} (hi : (instructions program)[i]? = some instr) : 4 * (i + 1) < 256 := by
  have hlt : i < instrCount program := by
    rw [← length_instructions]
    exact (List.getElem?_eq_some_iff.mp hi).1
  have hsize := h.size
  rw [programSize, dataStart_eq] at hsize
  omega

/-- Completing an instruction, if the word at the program counter was made of it. -/
theorem Machine.stepIn_of_toInstr {m : Machine} {symbols : Symbols} {instr : SourceInstr}
    {machineInstr : Instr} {i : Nat} (hm : instr.toInstr symbols = .ok machineInstr)
    (hphase : m.phase = .fetch) (hstatus : m.status.isTerminal = false)
    (hpc : m.pc = BitVec.ofNat 8 (4 * i))
    (hword : m.mem.readWord m.pc = machineInstr.encode) :
    ∃ m', m.stepIn = (.ok instr.leaves, m') ∧
      m'.view = instr.effect (Operand.byte symbols) (BitVec.ofNat 8 (4 * (i + 1))) m.view ∧
      m'.unobserved = { m.unobserved with
        mem := m'.mem, regs := m'.regs, pc := m'.pc, status := m'.status,
        ir := m.mem.readWord m.pc, nr := BitVec.ofNat 8 (4 * (i + 1)),
        executed := m.executed + 1 } := by
  have hdecode : Instr.decode (m.mem.readWord m.pc) = some machineInstr := by
    rw [hword]
    exact Instr.decode_encode (SourceInstr.toInstr_isAligned hm)
  have haligned : m.pc.aligned = m.pc := by
    rw [hpc, aligned_ofNat]
  have hnext : m.pc + 4 = BitVec.ofNat 8 (4 * (i + 1)) := by
    rw [hpc, Nat.mul_add, BitVec.ofNat_add]
    rfl
  obtain ⟨m', hstep, hm'⟩ := stepIn_of_decode hphase hstatus haligned hdecode
  let m₀ : Machine := { m.unobserved.fetched with phase := .fetch }
  have hview : m'.view = instr.effect (Operand.byte symbols) (m.pc + 4) m.view := by
    -- fetching sets the status, which no instruction reads
    calc m'.view = (m₀.after machineInstr).view := by rw [← view_unobserved, hm']
      _ = instr.effect (Operand.byte symbols) (m.pc + 4) m₀.view := view_after hm m₀ rfl
      _ = instr.effect (Operand.byte symbols) (m.pc + 4) m.view :=
        SourceInstr.effect_status _ _ m.view .ok instr
  refine ⟨m', ?_, hnext ▸ hview, ?_⟩
  · rw [hstep]
    exact congrArg (fun v : View => (Except.ok v.status, m')) hview
  · -- what changes is named first, and what is left is the machine before
    obtain ⟨mem, regs, status, hframe⟩ := perform_frame m₀ machineInstr
    rw [after, hframe] at hm'
    have hmem : m'.mem = mem := congrArg Machine.mem hm'
    have hregs : m'.regs = regs := congrArg Machine.regs hm'
    have hleft : m'.status = status := congrArg Machine.status hm'
    have hgoes : m'.pc = m₀.successor machineInstr := congrArg Machine.pc hm'
    rw [hm', hmem, hregs, hleft, hgoes, ← hnext]
    exact congrArg (fun phase => { m₀ with
      mem, regs, pc := m₀.successor machineInstr, status, phase,
      executed := m.executed + 1 }) hphase.symm

/-- **Assembled code means what the source says.** Let an instruction with number `i` be written
in a source that is assembled. It stands at the end of a line of the source, with numbers from
-128 to 255 or labels for operands, and each label that it names is in the table. A machine that
is about to fetch it, and still has the four cells of it, completes it without fault.

  - What a program sees of the machine is what the meaning of the instruction says, and nothing
    else of the machine changes but the instruction register, the address of the next instruction
    and the number of instructions.
  - A jump to a label in the code, if it is taken, goes to the instruction after the label. -/
theorem assemble_meaning (source : String) (maxErrors : Nat) (e : Executable)
    (h : assemble source maxErrors = .ok e) (i : Nat) (instr : SourceInstr)
    (hi : (instructions (parse source).statements)[i]? = some instr) :
    ∃ symbols, e.symbols = some symbols ∧
      (∃ line ∈ tokenLines (Token.scan source), ∃ tokens, tokensOf line = .ok tokens ∧
        ∃ written, written <:+ tokens ∧ (Statement.Body.instr instr).Written written) ∧
      (∀ label offset, instr.operand? = some (.address label offset) →
        ∃ address, symbols.address? label.name = some address) ∧
      4 * (i + 1) < 256 ∧
      ∀ m : Machine, m.phase = .fetch → m.status.isTerminal = false →
        m.pc = BitVec.ofNat 8 (4 * i) →
        (∀ k < 4, e.image[4 * i + k]? = some (m.mem.get (BitVec.ofNat 8 (4 * i + k)))) →
        ∃ m', m.stepIn = (.ok instr.leaves, m') ∧
          m'.view = instr.effect (Operand.byte symbols) (BitVec.ofNat 8 (4 * (i + 1))) m.view ∧
          m'.unobserved = { m.unobserved with
            mem := m'.mem, regs := m'.regs, pc := m'.pc, status := m'.status,
            ir := m.mem.readWord m.pc, nr := BitVec.ofNat 8 (4 * (i + 1)),
            executed := m.executed + 1 } ∧
          ∀ earlier label span later target,
            (parse source).statements = earlier ++ ⟨.label label, span⟩ :: later →
            Text.uppercase target.name = Text.uppercase label.name →
            instr.JumpsTo (.address target 0) m.view →
            m'.pc.toNat = 4 * instrCount earlier := by
  obtain ⟨hfree, rfl⟩ := assemble_ok h
  obtain ⟨machineInstr, hm⟩ := hfree.toInstr_ok (List.mem_of_getElem? hi)
  obtain ⟨s, hs, hbody⟩ := mem_instructions.mp (List.mem_of_getElem? hi)
  refine ⟨_, rfl, ?_, ?_, hfree.next_lt hi, ?_⟩
  · rw [← hbody]
    exact written_of_mem_parse hs fun label hlabel => by rw [hbody] at hlabel; cases hlabel
  · intro label offset hx
    have hmem : .address label offset ∈ s.byteOperands := by
      rw [byteOperands, hbody]
      exact Option.mem_toList.mpr hx
    obtain ⟨b, hb⟩ := hfree.resolve_ok hs hmem
    obtain ⟨address, hfind, -⟩ := Symbols.resolve_address_eq_ok hb
    exact ⟨address, hfind⟩
  · intro m hphase hstatus hpc hcells
    have himage := imageOf_word hi (symbolsOf (parse source).statements).1
    rw [hm] at himage
    have hword : m.mem.readWord m.pc = machineInstr.encode := by
      rw [hpc]
      exact readWord_of_image himage hcells
    obtain ⟨m', hstep, hview, hframe⟩ :=
      Machine.stepIn_of_toInstr hm hphase hstatus hpc hword
    refine ⟨m', hstep, hview, hframe, ?_⟩
    intro earlier label span later target hp hname hjump
    obtain ⟨hbyte, hlt⟩ := hfree.byte_label hp hname
    have hgoes : m'.pc = BitVec.ofNat 8 (4 * instrCount earlier) := by
      rw [show m'.pc = _ from congrArg View.pc hview]
      exact SourceInstr.goesTo_of_jumpsTo hbyte hjump _
    rw [hgoes, BitVec.toNat_ofNat, Nat.mod_eq_of_lt hlt]

/-- A jump over an instruction, from the start of a program. -/
theorem assemble_meaning_jump_over :
    let e := (build (parse "jump end\nnoop\nEnd: halt").statements).1
    assemble "jump end\nnoop\nEnd: halt" 1 = .ok e ∧
      ∃ m', ((Machine.new Flags.default).load e).stepIn = (.ok .ok, m') ∧ m'.pc.toNat = 8 := by
  intro e
  have he : assemble "jump end\nnoop\nEnd: halt" 1 = .ok e :=
    assemble_eq_ok_iff.mpr ⟨by decide +kernel, by decide +kernel, rfl⟩
  obtain ⟨symbols, -, -, -, -, hstep⟩ :=
    assemble_meaning _ _ _ he 0 (.jump (.address ⟨"end", 5⟩ 0)) (by decide +kernel)
  obtain ⟨m', hm', -, -, hland⟩ := hstep ((Machine.new Flags.default).load e) rfl rfl rfl
    (by decide +kernel)
  have hp : (parse "jump end\nnoop\nEnd: halt").statements =
      (parse "jump end\nnoop\nEnd: halt").statements.take 2 ++ ⟨.label ⟨"End", 14⟩, ⟨14, 18⟩⟩ ::
        (parse "jump end\nnoop\nEnd: halt").statements.drop 3 := by
    decide +kernel
  have hcount : instrCount ((parse "jump end\nnoop\nEnd: halt").statements.take 2) = 2 := by
    decide +kernel
  refine ⟨he, m', hm', ?_⟩
  rw [hland _ _ _ _ ⟨"end", 5⟩ hp (by decide +kernel) rfl, hcount]

end Nic
