/-
What instructions depend on.

The snapshot of a machine is its memory, its registers, its status and phase, and the number of
instructions: neither the image, nor the observer, nor the settings. Two machines with the same
snapshot answer every request for instructions in the same way and have the same snapshot afterwards
(`stepIn_congr`, `runWithLimit_congr`), and phases change neither the image nor the settings
(`Reaches.kept_eq`).

A machine that is about to fetch and whose status is ok does one of three things: it executes an
instruction and is ready for the next one, it halts, or it stops (`Ready.stepped`). How long it may
run therefore does not matter once it has come to an end (`Ready.runWithLimit_of_le`).
-/
import Nic.Proofs.Machine.Requests
import Nic.Proofs.Machine.Step

set_option autoImplicit false

namespace Nic

/-- The state of a program that runs (`MachineState`). -/
structure Snapshot where
  mem : Memory
  regs : Vector Byte 16
  pc : Byte
  ir : Word
  nr : Byte
  status : Status
  phase : Phase
  executed : Nat
deriving DecidableEq

namespace Machine

/-- The state of the program in a machine (`Machine::snapshot`). -/
def snapshot (m : Machine) : Snapshot :=
  ⟨m.mem, m.regs, m.pc, m.ir, m.nr, m.status, m.phase, m.executed⟩

/-! ## Setters -/

theorem snapshot_unobserved (m : Machine) : m.unobserved.snapshot = m.snapshot := rfl

theorem snapshot_setReg (m : Machine) (r : Reg) (b : Byte) :
    (m.setReg r b).snapshot =
      { m.snapshot with regs := m.snapshot.regs.set r.number.toNat b r.number.isLt } := by
  rw [← snapshot_unobserved, unobserved_setReg]
  rfl

theorem snapshot_setPc (m : Machine) (a : Byte) :
    (m.setPc a).snapshot = { m.snapshot with pc := a } := by
  rw [← snapshot_unobserved, unobserved_setPc]
  rfl

theorem snapshot_setStatus (m : Machine) (s : Status) :
    (m.setStatus s).snapshot = { m.snapshot with status := s } := by
  rw [← snapshot_unobserved, unobserved_setStatus]
  rfl

theorem snapshot_setCell (m : Machine) (a : Byte) (d : Nibble) :
    (m.setCell a d).snapshot = { m.snapshot with mem := m.snapshot.mem.set a d } := by
  rw [← snapshot_unobserved, unobserved_setCell]
  rfl

theorem snapshot_writeByte (m : Machine) (a b : Byte) :
    (m.writeByte a b).snapshot = { m.snapshot with mem := m.snapshot.mem.writeByte a b } := by
  rw [← snapshot_unobserved, unobserved_writeByte]
  rfl

theorem snapshot_readInstr (m : Machine) :
    m.readInstr.snapshot =
      { m.snapshot with
        ir := m.mem.readWord m.pc, nr := m.pc + 4, status := .ok, phase := .execute } := by
  rw [← snapshot_unobserved, unobserved_readInstr]
  rfl

/-! ## Two machines with the same snapshot -/

section Congr

variable {m n : Machine} (h : m.snapshot = n.snapshot)

include h

theorem reg_congr (r : Reg) : m.reg r = n.reg r :=
  congrArg (fun s : Snapshot => s.regs.get r.number.toFin) h

theorem perform_congr (i : Instr) : (m.perform i).snapshot = (n.perform i).snapshot := by
  have hmem : m.mem = n.mem := congrArg Snapshot.mem h
  have hreg : m.reg = n.reg := funext (reg_congr h)
  cases i with
  | halt => rw [perform, perform, snapshot_setStatus, snapshot_setStatus, h]
  | imm op a x =>
    cases op with
    | load => rw [perform, perform, snapshot_setReg, snapshot_setReg, h, hmem]
    | loadc => rw [perform, perform, snapshot_setReg, snapshot_setReg, h]
    | store => rw [perform, perform, snapshot_writeByte, snapshot_writeByte, h, hreg]
    | addc => rw [perform, perform, snapshot_setReg, snapshot_setReg, h, hreg]
  | pair op a b =>
    cases op with
    | loadr => rw [perform, perform, snapshot_setReg, snapshot_setReg, h, hmem, hreg]
    | storer => rw [perform, perform, snapshot_writeByte, snapshot_writeByte, h, hreg]
    | move => rw [perform, perform, snapshot_setReg, snapshot_setReg, h, hreg]
  | alu op a b c => rw [perform, perform, snapshot_setReg, snapshot_setReg, h, hreg]
  | jump a cond target => exact h

theorem successor_congr (i : Instr) : m.successor i = n.successor i := by
  have hreg : m.reg = n.reg := funext (reg_congr h)
  have hnr : m.nr = n.nr := congrArg Snapshot.nr h
  cases i with
  | jump a cond target => rw [successor, successor, hreg, hnr]
  | _ => exact hnr

omit h in
/-- The same answer, and the same snapshot after it. -/
def Outcome.Same (o o' : Outcome) : Prop := o.1 = o'.1 ∧ o.2.snapshot = o'.2.snapshot

theorem outcome_congr : Outcome.Same m.outcome n.outcome :=
  ⟨congrArg (fun s : Snapshot => Except.ok s.status) h, h⟩

theorem readInstr_congr : m.readInstr.snapshot = n.readInstr.snapshot := by
  have hmem : m.mem = n.mem := congrArg Snapshot.mem h
  have hpc : m.pc = n.pc := congrArg Snapshot.pc h
  rw [snapshot_readInstr, snapshot_readInstr, h, hmem, hpc]

theorem toFetch_congr : m.toFetch.snapshot = n.toFetch.snapshot :=
  congrArg (fun s : Snapshot => { s with phase := .fetch }) h

theorem carryOut_congr (i : Instr) : (m.carryOut i).snapshot = (n.carryOut i).snapshot := by
  have hset : ((m.perform i).setPc (m.successor i)).snapshot =
      ((n.perform i).setPc (n.successor i)).snapshot := by
    rw [snapshot_setPc, snapshot_setPc, perform_congr h, successor_congr h]
  exact congrArg (fun s : Snapshot => { s with executed := s.executed + 1 }) hset

theorem setStatus_congr (s : Status) : (m.setStatus s).snapshot = (n.setStatus s).snapshot := by
  rw [snapshot_setStatus, snapshot_setStatus, h]

theorem fetch_congr : Outcome.Same m.fetch n.fetch := by
  have hpc : m.pc = n.pc := congrArg Snapshot.pc h
  have hstatus : m.status = n.status := congrArg Snapshot.status h
  have hphase : m.phase = n.phase := congrArg Snapshot.phase h
  rw [fetch_eq, fetch_eq, hstatus, hphase, hpc]
  split
  · exact outcome_congr h
  split
  · exact ⟨rfl, h⟩
  split
  · exact outcome_congr (readInstr_congr h)
  · exact outcome_congr (setStatus_congr h _)

theorem execute_congr : Outcome.Same m.execute n.execute := by
  have hir : m.ir = n.ir := congrArg Snapshot.ir h
  have hstatus : m.status = n.status := congrArg Snapshot.status h
  have hphase : m.phase = n.phase := congrArg Snapshot.phase h
  rw [execute_eq, execute_eq, hstatus, hphase, hir]
  split
  · exact outcome_congr h
  split
  · exact ⟨rfl, h⟩
  split
  · exact outcome_congr (setStatus_congr (toFetch_congr h) _)
  next i _ => exact outcome_congr (carryOut_congr (toFetch_congr h) i)

theorem step_congr : Outcome.Same m.step n.step := by
  have hphase : m.phase = n.phase := congrArg Snapshot.phase h
  rw [step, step, hphase]
  cases n.phase with
  | fetch => exact fetch_congr h
  | execute => exact execute_congr h

theorem stepIn_congr : Outcome.Same m.stepIn n.stepIn := by
  have hphase : m.phase = n.phase := congrArg Snapshot.phase h
  rw [stepIn, stepIn, hphase]
  cases n.phase with
  | execute => exact execute_congr h
  | fetch =>
    obtain ⟨hresult, hsnapshot⟩ := fetch_congr h
    rcases hm : m.fetch with ⟨result, m₁⟩
    rcases hn : n.fetch with ⟨result', n₁⟩
    rw [hm, hn] at hresult hsnapshot
    obtain rfl : result = result' := hresult
    cases result with
    | error fault => exact ⟨rfl, hsnapshot⟩
    | ok status =>
      cases status with
      | ok => exact execute_congr hsnapshot
      | _ => exact ⟨rfl, hsnapshot⟩

omit h in
/-- **A run depends on the snapshot only.** -/
theorem runWithLimit_congr (limit : Nat) {m n : Machine} (h : m.snapshot = n.snapshot) :
    Outcome.Same (m.runWithLimit limit) (n.runWithLimit limit) := by
  induction limit generalizing m n with
  | zero => exact outcome_congr h
  | succ limit ih =>
    obtain ⟨hresult, hsnapshot⟩ := stepIn_congr h
    rw [runWithLimit, runWithLimit]
    rcases hm : m.stepIn with ⟨result, m₁⟩
    rcases hn : n.stepIn with ⟨result', n₁⟩
    rw [hm, hn] at hresult hsnapshot
    obtain rfl : result = result' := hresult
    cases result with
    | error fault => exact ⟨rfl, hsnapshot⟩
    | ok status =>
      cases status with
      | ok => exact ih hsnapshot
      | _ => exact ⟨rfl, hsnapshot⟩

end Congr

/-! ## What stays -/

/-- What a machine keeps when it starts over, but for its observer: the image and the settings. -/
def kept (m : Machine) : List Nibble × Flags := (m.image, m.flags)

/-- The snapshot and what is kept are all of a machine but its observer. -/
theorem unobserved_eq_iff {m n : Machine} :
    m.unobserved = n.unobserved ↔ m.snapshot = n.snapshot ∧ m.kept = n.kept := by
  constructor
  · intro h
    have hsnapshot := congrArg snapshot h
    have hkept := congrArg kept h
    exact ⟨hsnapshot, hkept⟩
  · rintro ⟨hsnapshot, hkept⟩
    simp only [snapshot, Snapshot.mk.injEq, kept, Prod.mk.injEq] at hsnapshot hkept
    simp only [unobserved, hsnapshot, hkept]

theorem kept_reset (m : Machine) : m.reset.kept = m.kept := by
  simp only [kept, reset]

theorem mem_reset (m : Machine) : m.reset.mem = Memory.zero.copy m.image := by
  rw [reset]

theorem kept_setStatus (m : Machine) (s : Status) : (m.setStatus s).kept = m.kept := by
  have hset := congrArg kept (unobserved_setStatus m s)
  exact hset

theorem kept_readInstr (m : Machine) : m.readInstr.kept = m.kept := by
  have hread := congrArg kept (unobserved_readInstr m)
  exact hread

theorem kept_carryOut (m : Machine) (i : Instr) : (m.carryOut i).kept = m.kept := by
  obtain ⟨mem, regs, status, hframe⟩ := perform_frame m i
  have hperform := congrArg kept hframe
  have hset := congrArg kept (unobserved_setPc (m.perform i) (m.successor i))
  exact hset.trans hperform

theorem kept_fetch (m : Machine) : m.fetch.2.kept = m.kept := by
  rw [fetch_eq]
  split
  · rfl
  split
  · rfl
  split
  · exact kept_readInstr m
  · exact kept_setStatus m _

theorem kept_execute (m : Machine) : m.execute.2.kept = m.kept := by
  rw [execute_eq]
  split
  · rfl
  split
  · rfl
  split
  · exact kept_setStatus m.toFetch _
  next i _ => exact kept_carryOut m.toFetch i

/-- Phases change neither the image nor the settings, however many are carried out. -/
theorem Reaches.kept_eq {m m' : Machine}
    (h : Reaches (fun a => a = .fetch ∨ a = .execute) m m') : m'.kept = m.kept := by
  refine h.invariant (P := fun n => n.kept = m.kept) ?_ rfl
  rintro n a (rfl | rfl) hn
  · exact (kept_fetch n).trans hn
  · exact (kept_execute n).trans hn

/-- A run does not change the settings. -/
theorem flags_runWithLimit (m : Machine) (limit : Nat) :
    (m.runWithLimit limit).2.flags = m.flags := by
  have hreaches : Reaches (fun a => a = .fetch ∨ a = .execute) m (m.runWithLimit limit).2 :=
    reaches_runWithLimit (.inl rfl) (.inr rfl) limit m
  exact congrArg Prod.snd hreaches.kept_eq

/-! ## One instruction after the other -/

/-- The instruction at the program counter, if there is one. -/
def instr? (m : Machine) : Option Instr :=
  if m.pc.aligned = m.pc then Instr.decode (m.mem.readWord m.pc) else none

/-- The machine is about to fetch, and nothing stands in the way. -/
structure Ready (m : Machine) : Prop where
  phase : m.phase = .fetch
  status : m.status = .ok

theorem status_perform {i : Instr} (hi : i ≠ .halt) (m : Machine) :
    (m.perform i).status = m.status := by
  cases i with
  | halt => exact absurd rfl hi
  | imm op a x =>
    cases op with
    | store => exact congrArg Snapshot.status (snapshot_writeByte m x (m.reg a))
    | load => exact congrArg Snapshot.status (snapshot_setReg m a (m.mem.readByte x))
    | loadc => exact congrArg Snapshot.status (snapshot_setReg m a x)
    | addc => exact congrArg Snapshot.status (snapshot_setReg m a (m.reg a + x))
  | pair op a b =>
    cases op with
    | storer => exact congrArg Snapshot.status (snapshot_writeByte m (m.reg b) (m.reg a))
    | loadr => exact congrArg Snapshot.status (snapshot_setReg m a (m.mem.readByte (m.reg b)))
    | move => exact congrArg Snapshot.status (snapshot_setReg m a (m.reg b))
  | alu op a b c =>
    exact congrArg Snapshot.status (snapshot_setReg m a (op.apply (m.reg b) (m.reg c)))
  | jump a cond target => rfl

/-- What completing one instruction can come to in a machine that is ready. -/
inductive Stepped (m : Machine) : Outcome → Prop where
  /-- The instruction is executed, and the machine is ready for the next one. -/
  | next {i : Instr} {m' : Machine} (hi : m.instr? = some i) (hne : i ≠ .halt) (h : Ready m') :
    Stepped m (.ok .ok, m')
  /-- The program says that it is done. -/
  | halt {m' : Machine} (hi : m.instr? = some .halt) : Stepped m (.ok .halted, m')
  /-- There is no instruction. -/
  | stop {s : Status} {m' : Machine} (hi : m.instr? = none) (hs : s.isTerminal = true) :
    Stepped m (.ok s, m')

theorem phase_after (m : Machine) (i : Instr) : (m.after i).phase = m.phase := by
  obtain ⟨mem, regs, status, hframe⟩ := perform_frame m i
  have hphase := congrArg Machine.phase hframe
  exact hphase

theorem status_after_halt (m : Machine) : (m.after .halt).status = .halted :=
  congrArg Snapshot.status (snapshot_setStatus m .halted)

theorem status_after {i : Instr} (hi : i ≠ .halt) (m : Machine) : (m.after i).status = m.status :=
  status_perform hi m

theorem Ready.stepped_of_instr {m : Machine} (h : Ready m) {i : Instr} (hi : m.instr? = some i) :
    Stepped m m.stepIn := by
  have hterminal : m.status.isTerminal = false := by rw [h.status]; rfl
  have ⟨hpc, hdecode⟩ : m.pc.aligned = m.pc ∧ Instr.decode (m.mem.readWord m.pc) = some i := by
    simpa [instr?] using hi
  obtain ⟨m', hstep, hm'⟩ := stepIn_of_decode h.phase hterminal hpc hdecode
  have hstatus := congrArg Machine.status hm'
  have hphase := congrArg Machine.phase hm'
  rw [phase_after] at hphase
  rw [hstep]
  by_cases hne : i = .halt
  · subst hne
    rw [status_after_halt] at hstatus
    rw [show m'.status = .halted from hstatus]
    exact .halt hi
  · rw [status_after hne] at hstatus
    rw [show m'.status = .ok from hstatus]
    exact .next hi hne ⟨hphase, hstatus⟩

theorem Ready.stepped_of_none {m : Machine} (h : Ready m) (hi : m.instr? = none) :
    Stepped m m.stepIn := by
  have hterminal : m.status.isTerminal = false := by rw [h.status]; rfl
  by_cases hpc : m.pc.aligned = m.pc
  · -- the word is fetched, and found to be no instruction
    have hdecode : Instr.decode (m.mem.readWord m.pc) = none := by
      simpa [instr?, hpc] using hi
    obtain ⟨m₁, hfetch, hm₁⟩ := fetch_of_aligned h.phase hterminal hpc
    have hphase₁ : m₁.phase = .execute := congrArg Machine.phase hm₁
    have hstatus₁ : m₁.status = .ok := congrArg Machine.status hm₁
    have hir₁ : m₁.ir = m.mem.readWord m.pc := congrArg Machine.ir hm₁
    have hbad : (m₁.toFetch.setStatus .badInstruction).status = .badInstruction :=
      congrArg Snapshot.status (snapshot_setStatus m₁.toFetch .badInstruction)
    simp only [stepIn, h.phase, hfetch]
    rw [execute_eq, hstatus₁, hphase₁, hir₁, hdecode, if_neg (by decide), if_neg (by decide),
      outcome, hbad]
    exact .stop hi rfl
  · have hbad : (m.setStatus .badAlignment).status = .badAlignment :=
      congrArg Snapshot.status (snapshot_setStatus m .badAlignment)
    have hfetch : m.fetch = (.ok .badAlignment, m.setStatus .badAlignment) := by
      rw [fetch_eq, hterminal, h.phase, if_neg (by decide), if_neg (by decide), if_neg hpc,
        outcome, hbad]
    simp only [stepIn, h.phase, hfetch]
    exact .stop hi rfl

/-- **What completing one instruction can come to.** -/
theorem Ready.stepped {m : Machine} (h : Ready m) : Stepped m m.stepIn := by
  cases hi : m.instr? with
  | none => exact h.stepped_of_none hi
  | some i => exact h.stepped_of_instr hi

/-- A run that has come to an end is not changed by a higher limit. -/
theorem Ready.runWithLimit_of_le {m : Machine} (h : Ready m) {limit limit' : Nat}
    (hle : limit ≤ limit') (hend : (m.runWithLimit limit).1 ≠ .ok .ok) :
    m.runWithLimit limit' = m.runWithLimit limit := by
  induction limit generalizing m limit' with
  | zero =>
    refine absurd ?_ hend
    rw [runWithLimit, outcome, h.status]
  | succ limit ih =>
    obtain ⟨limit', rfl⟩ : ∃ n, limit' = n + 1 := ⟨limit' - 1, by omega⟩
    have hstepped := h.stepped
    rw [runWithLimit] at hend
    rw [runWithLimit, runWithLimit]
    rcases hm : m.stepIn with ⟨result, m₁⟩
    rw [hm] at hend hstepped
    cases hstepped with
    | next hi hne h₁ => exact ih h₁ (Nat.le_of_succ_le_succ hle) hend
    | halt hi => rfl
    | @stop s _ hi hs =>
      cases s with
      | ok => cases hs
      | _ => rfl

end Machine

end Nic
