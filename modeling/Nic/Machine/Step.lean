/-
One instruction, in its two phases.
-/
import Nic.Machine.Basic

set_option autoImplicit false

namespace Nic.Machine

/-! ## What an instruction does -/

/-- The address of the instruction after this one. -/
def successor (m : Machine) : Instr → Byte
  | .jump a cond target => if cond.holds (m.reg a) (m.reg Reg.zero) then target else m.nr
  | _ => m.nr

/-- What an instruction does, but for the program counter (the cases of `Machine::execute`). -/
def perform (m : Machine) : Instr → Machine
  | .halt => m.setStatus .halted
  | .imm .load a x => m.setReg a (m.mem.readByte x)
  | .imm .loadc a x => m.setReg a x
  | .imm .store a x => m.writeByte x (m.reg a)
  | .imm .addc a x => m.setReg a (m.reg a + x)
  | .pair .loadr a b => m.setReg a (m.mem.readByte (m.reg b))
  | .pair .storer a b => m.writeByte (m.reg b) (m.reg a)
  | .pair .move a b => m.setReg a (m.reg b)
  | .alu op a b c => m.setReg a (op.apply (m.reg b) (m.reg c))
  | .jump .. => m

/-! ## Phases -/

/-- The status that a request ends with, or why the request cannot be met; and the machine. -/
abbrev Outcome := Except MachineFault Status × Machine

/-- The status of a machine, as the outcome of a request. -/
def outcome (m : Machine) : Outcome := (.ok m.status, m)

/-- Reads the word at the program counter into the instruction register (`Machine::fetch`). A
program counter that is no multiple of four stops the machine. -/
def fetch (m : Machine) : Outcome :=
  if m.status.isTerminal then m.outcome
  else if m.phase = .execute then (.error .wrongPhase, m)
  else if m.pc.aligned = m.pc then
    { ((m.setIr (m.mem.readWord m.pc)).setNr (m.pc + 4)).setStatus .ok with
      phase := .execute }.outcome
  else (m.setStatus .badAlignment).outcome

/-- Executes the instruction register (`Machine::execute`). A word that is no instruction stops the
machine. -/
def execute (m : Machine) : Outcome :=
  if m.status.isTerminal then m.outcome
  else if m.phase = .fetch then (.error .wrongPhase, m)
  else
    -- whatever comes of it, the next phase is a fetch
    let m := { m with phase := .fetch }
    match Instr.decode m.ir with
    | none => (m.setStatus .badInstruction).outcome
    | some i =>
      let next := m.successor i
      let m := (m.perform i).setPc next
      { m with executed := m.executed + 1 }.outcome

/-- The next phase (`Machine::step`). -/
def step (m : Machine) : Outcome :=
  match m.phase with
  | .fetch => m.fetch
  | .execute => m.execute

/-- Completes one instruction (`Machine::step_in`): what is left of its phases. -/
def stepIn (m : Machine) : Outcome :=
  match m.phase with
  | .execute => m.execute
  | .fetch =>
    match m.fetch with
    | (.ok .ok, m) => m.execute
    | stopped => stopped

end Nic.Machine
