/-
What an instruction does, but for what the observer is told.

Setting a part to the value that it has is not a change, so each setter has two branches that
differ in the observer alone. `unobserved` forgets the observer, and both branches become one
update of a record (`unobserved_setReg` and the others). So do the two phases (`fetch_eq` and
`execute_eq` say what each of them can do), and a whole instruction is one update as well:
`stepIn_of_decode`.
-/
import Nic.Machine.Step

set_option autoImplicit false

namespace Nic

theorem Memory.set_get (m : Memory) (a : Byte) : m.set a (m.get a) = m := by
  rw [Memory.get_eq_getElem m a a.isLt, Memory.set, Vector.set_getElem_self]

namespace Machine

/-- The machine without what others know of it. -/
def unobserved (m : Machine) : Machine := { m with observer := .new }

/-! ## Setters

`unobserved_ite` is what the setters have in common: if the branch that does nothing is taken, the
update would have done nothing either. -/

theorem unobserved_ite {p : Prop} [Decidable p] {m n : Machine}
    (h : p → m.unobserved = n.unobserved) :
    (if p then m else n).unobserved = n.unobserved := by
  by_cases hp : p
  · rw [if_pos hp, h hp]
  · rw [if_neg hp]

theorem set_reg (m : Machine) (r : Reg) :
    m.regs.set r.number.toNat (m.reg r) r.number.isLt = m.regs :=
  Vector.set_getElem_self r.number.isLt

theorem unobserved_setReg (m : Machine) (r : Reg) (b : Byte) :
    (m.setReg r b).unobserved =
      { m.unobserved with regs := m.regs.set r.number.toNat b r.number.isLt } := by
  refine (unobserved_ite ?_).trans rfl
  rintro rfl
  exact congrArg (fun regs => { m.unobserved with regs }) (set_reg m r).symm

theorem unobserved_setPc (m : Machine) (a : Byte) :
    (m.setPc a).unobserved = { m.unobserved with pc := a } := by
  refine (unobserved_ite ?_).trans rfl
  rintro rfl
  rfl

theorem unobserved_setIr (m : Machine) (w : Word) :
    (m.setIr w).unobserved = { m.unobserved with ir := w } := by
  refine (unobserved_ite ?_).trans rfl
  rintro rfl
  rfl

theorem unobserved_setNr (m : Machine) (a : Byte) :
    (m.setNr a).unobserved = { m.unobserved with nr := a } := by
  refine (unobserved_ite ?_).trans rfl
  rintro rfl
  rfl

theorem unobserved_setStatus (m : Machine) (s : Status) :
    (m.setStatus s).unobserved = { m.unobserved with status := s } := by
  refine (unobserved_ite ?_).trans rfl
  rintro rfl
  rfl

theorem unobserved_setCell (m : Machine) (a : Byte) (d : Nibble) :
    (m.setCell a d).unobserved = { m.unobserved with mem := m.mem.set a d } := by
  refine (unobserved_ite ?_).trans rfl
  rintro rfl
  exact congrArg (fun mem => { m.unobserved with mem }) (Memory.set_get m.mem a).symm

/-- A byte is written to its two cells one after the other. -/
theorem unobserved_writeByte (m : Machine) (a b : Byte) :
    (m.writeByte a b).unobserved = { m.unobserved with mem := m.mem.writeByte a b } := by
  -- the second cell is set in the memory that the first one left
  have hmem : (m.setCell a (Byte.high b)).mem = m.mem.set a (Byte.high b) :=
    congrArg Machine.mem (unobserved_setCell m a (Byte.high b))
  rw [writeByte, unobserved_setCell, unobserved_setCell, hmem]
  rfl

/-! ## The two phases -/

/-- What an instruction does does not depend on the observer. -/
theorem unobserved_perform (m : Machine) (i : Instr) :
    (m.perform i).unobserved = (m.unobserved.perform i).unobserved := by
  cases i with
  | halt => rw [perform, perform, unobserved_setStatus, unobserved_setStatus]; rfl
  | imm op a x =>
    cases op with
    | store => rw [perform, perform, unobserved_writeByte, unobserved_writeByte]; rfl
    | _ => rw [perform, perform, unobserved_setReg, unobserved_setReg]; rfl
  | pair op a b =>
    cases op with
    | storer => rw [perform, perform, unobserved_writeByte, unobserved_writeByte]; rfl
    | _ => rw [perform, perform, unobserved_setReg, unobserved_setReg]; rfl
  | alu op a b c => rw [perform, perform, unobserved_setReg, unobserved_setReg]; rfl
  | jump a cond target => rfl

/-- The machine that has fetched: the word is in the instruction register, and the next address in
the register for it. -/
def fetched (m : Machine) : Machine :=
  { m with ir := m.mem.readWord m.pc, nr := m.pc + 4, status := .ok, phase := .execute }

/-- The machine after an instruction. -/
def after (m : Machine) (i : Instr) : Machine :=
  { (m.perform i).unobserved with
    pc := m.successor i, executed := (m.perform i).unobserved.executed + 1 }

/-- An instruction leaves everything but memory, registers and status as it is. -/
theorem perform_frame (m : Machine) (i : Instr) :
    ∃ mem regs status, (m.perform i).unobserved = { m.unobserved with mem, regs, status } := by
  cases i with
  | halt => exact ⟨_, _, _, unobserved_setStatus m _⟩
  | imm op a x =>
    cases op with
    | store => exact ⟨_, _, _, unobserved_writeByte m _ _⟩
    | _ => exact ⟨_, _, _, unobserved_setReg m _ _⟩
  | pair op a b =>
    cases op with
    | storer => exact ⟨_, _, _, unobserved_writeByte m _ _⟩
    | _ => exact ⟨_, _, _, unobserved_setReg m _ _⟩
  | alu op a b c => exact ⟨_, _, _, unobserved_setReg m _ _⟩
  | jump a cond target => exact ⟨_, _, _, rfl⟩

/-- The machine when it is time to fetch. -/
def toFetch (m : Machine) : Machine := { m with phase := .fetch }

/-- The machine after the word at the program counter was read. -/
def readInstr (m : Machine) : Machine :=
  { ((m.setIr (m.mem.readWord m.pc)).setNr (m.pc + 4)).setStatus .ok with phase := .execute }

/-- The machine after an instruction was carried out. -/
def carryOut (m : Machine) (i : Instr) : Machine :=
  let m' := (m.perform i).setPc (m.successor i)
  { m' with executed := m'.executed + 1 }

theorem fetch_eq (m : Machine) :
    m.fetch = if m.status.isTerminal then m.outcome
      else if m.phase = .execute then (.error .wrongPhase, m)
      else if m.pc.aligned = m.pc then m.readInstr.outcome
      else (m.setStatus .badAlignment).outcome := rfl

theorem execute_eq (m : Machine) :
    m.execute = if m.status.isTerminal then m.outcome
      else if m.phase = .fetch then (.error .wrongPhase, m)
      else match Instr.decode m.ir with
        | none => (m.toFetch.setStatus .badInstruction).outcome
        | some i => (m.toFetch.carryOut i).outcome := rfl

theorem unobserved_readInstr (m : Machine) : m.readInstr.unobserved = m.unobserved.fetched := by
  -- the phase is set beside the three setters, so it is left out at first
  have hset : (((m.setIr (m.mem.readWord m.pc)).setNr (m.pc + 4)).setStatus .ok).unobserved =
      { m.unobserved with ir := m.mem.readWord m.pc, nr := m.pc + 4, status := .ok } := by
    rw [unobserved_setStatus, unobserved_setNr, unobserved_setIr]
  exact congrArg (fun m : Machine => { m with phase := .execute }) hset

theorem unobserved_carryOut (m : Machine) (i : Instr) :
    (m.carryOut i).unobserved = m.unobserved.after i := by
  -- the successor is found before the instruction is performed, which may change the registers
  have hset : ((m.perform i).setPc (m.successor i)).unobserved =
      { (m.unobserved.perform i).unobserved with pc := m.unobserved.successor i } := by
    rw [unobserved_setPc, unobserved_perform]
    rfl
  exact congrArg (fun m : Machine => { m with executed := m.executed + 1 }) hset

/-- Fetching from the address of an instruction, when it is time to. -/
theorem fetch_of_aligned {m : Machine} (hphase : m.phase = .fetch)
    (hstatus : m.status.isTerminal = false) (hpc : m.pc.aligned = m.pc) :
    ∃ m', m.fetch = (.ok .ok, m') ∧ m'.unobserved = m.unobserved.fetched := by
  have hok : m.readInstr.status = .ok := congrArg Machine.status (unobserved_readInstr m)
  refine ⟨m.readInstr, ?_, unobserved_readInstr m⟩
  rw [fetch_eq, if_neg (by simp [hstatus]), if_neg (by simp [hphase]), if_pos hpc, outcome, hok]

/-- Executing a word that is an instruction, when it is time to. -/
theorem execute_of_decode {m : Machine} {i : Instr} (hphase : m.phase = .execute)
    (hstatus : m.status.isTerminal = false) (hi : Instr.decode m.ir = some i) :
    ∃ m', m.execute = (.ok m'.status, m') ∧
      m'.unobserved = { m.unobserved with phase := .fetch }.after i := by
  refine ⟨m.toFetch.carryOut i, ?_, unobserved_carryOut m.toFetch i⟩
  rw [execute_eq, if_neg (by simp [hstatus]), if_neg (by simp [hphase]), hi]
  rfl

/-- **One instruction.** At the address of a word that is an instruction, completing one
instruction does what this one says. -/
theorem stepIn_of_decode {m : Machine} {i : Instr} (hphase : m.phase = .fetch)
    (hstatus : m.status.isTerminal = false) (hpc : m.pc.aligned = m.pc)
    (hi : Instr.decode (m.mem.readWord m.pc) = some i) :
    ∃ m', m.stepIn = (.ok m'.status, m') ∧
      m'.unobserved = { m.unobserved.fetched with phase := .fetch }.after i := by
  obtain ⟨m₁, hfetch, hm₁⟩ := fetch_of_aligned hphase hstatus hpc
  -- what `execute` asks about is not the observer's, so it is read off the fetched machine
  have hphase₁ : m₁.phase = .execute := congrArg Machine.phase hm₁
  have hstatus₁ : m₁.status = .ok := congrArg Machine.status hm₁
  have hir₁ : m₁.ir = m.mem.readWord m.pc := congrArg Machine.ir hm₁
  obtain ⟨m₂, hexecute, hm₂⟩ := execute_of_decode hphase₁ (by rw [hstatus₁]; rfl) (hir₁ ▸ hi)
  refine ⟨m₂, ?_, ?_⟩
  · simp only [stepIn, hphase, hfetch]
    exact hexecute
  · rw [hm₂, hm₁]

end Machine

end Nic
