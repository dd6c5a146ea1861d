/-
The state of the machine, and how each part of it is changed.

A part that is set to the value that it has already does not change, and nobody is told.
-/
import Nic.Executable.Text
import Nic.Machine.Flags
import Nic.Machine.Observer
import Nic.Machine.Status
import Nic.Memory

set_option autoImplicit false

namespace Nic

/-- The machine: its memory, registers, program counter, instruction register, address of the next
instruction, status and phase, the number of instructions since it was reset; and, kept when it is
reset, the image it was given, its observer and its settings. -/
structure Machine where
  mem : Memory
  regs : Vector Byte 16
  pc : Byte
  ir : Word
  nr : Byte
  status : Status
  phase : Phase
  executed : Nat
  image : List Nibble
  observer : Observer
  flags : Flags

namespace Machine

/-- A machine without a program (`Machine::new`). -/
def new (flags : Flags) : Machine where
  mem := .zero
  regs := Vector.replicate 16 0
  pc := 0
  ir := 0
  nr := 0
  status := .ok
  phase := .fetch
  executed := 0
  image := []
  observer := .new
  flags := flags

/-! ## Reading -/

/-- The value of a register (`Machine::reg`). -/
def reg (m : Machine) (r : Reg) : Byte :=
  m.regs.get r.number.toFin

/-- The addresses of the instruction at the program counter (`Machine::active_range`). -/
def activeCells (m : Machine) : List Byte :=
  [m.pc, m.pc + 1, m.pc + 2, m.pc + 3]

/-! ## Changing one part -/

/-- Tells the observer about a change. -/
def notify (m : Machine) (c : Change) : Machine :=
  { m with observer := m.observer.notify c }

/-- Sets a register (`Machine::set_reg`). -/
def setReg (m : Machine) (r : Reg) (b : Byte) : Machine :=
  if m.reg r = b then m
  else { m with regs := m.regs.set r.number.toNat b r.number.isLt }.notify (.reg r)

/-- Sets the program counter (`Machine::set_pc`). -/
def setPc (m : Machine) (a : Byte) : Machine :=
  if m.pc = a then m else { m with pc := a }.notify .pc

/-- Sets the instruction register (`Machine::set_ir`). -/
def setIr (m : Machine) (w : Word) : Machine :=
  if m.ir = w then m else { m with ir := w }.notify .ir

/-- Sets the address of the next instruction (`Machine::set_nr`). -/
def setNr (m : Machine) (a : Byte) : Machine :=
  if m.nr = a then m else { m with nr := a }.notify .nr

/-- Sets the status (`Machine::set_status`). -/
def setStatus (m : Machine) (s : Status) : Machine :=
  if m.status = s then m else { m with status := s }.notify .sr

/-- Sets a memory cell. -/
def setCell (m : Machine) (a : Byte) (d : Nibble) : Machine :=
  if m.mem.get a = d then m else { m with mem := m.mem.set a d }.notify (.mem a)

/-- Sets a memory cell to the low digit of a byte (`Machine::write_mem`). -/
def writeCell (m : Machine) (a b : Byte) : Machine := m.setCell a b.low

/-- Sets the two memory cells of a byte (`Machine::write_byte`). -/
def writeByte (m : Machine) (a b : Byte) : Machine :=
  (m.setCell a b.high).setCell (a + 1) b.low

/-- Changes the settings. -/
def setFlags (m : Machine) (flags : Flags) : Machine := { m with flags }

/-! ## Starting over -/

/-- What changes when the machine is reset: everything but whether it is running. -/
def resetChanges : List Change :=
  Reg.all.map .reg ++ [.pc, .ir, .nr, .sr] ++
    (List.range 256).map fun i => .mem (BitVec.ofNat 8 i)

/-- Puts the image back into an otherwise empty memory, and everything else to zero
(`Machine::reset`). Every part counts as changed, whatever its value was, and earlier changes are
forgotten. -/
def reset (m : Machine) : Machine where
  mem := Memory.zero.copy m.image
  regs := Vector.replicate 16 0
  pc := 0
  ir := 0
  nr := 0
  status := .ok
  phase := .fetch
  executed := 0
  image := m.image
  observer := m.observer.clear.notifyAll resetChanges
  flags := m.flags

/-- Takes the image of an executable, and starts over (`Machine::load`). -/
def load (m : Machine) (e : Executable) : Machine :=
  { m with image := e.image }.reset

/-- Takes an executable in text form, and starts over (`Machine::load_text`). -/
def loadText (m : Machine) (text : String) : Except MachineFault Unit × Machine :=
  match Executable.ofText text with
  | .ok e => (.ok (), m.load e)
  | .error fault => (.error (.badExecutable fault), m)

end Machine

end Nic
