/-
The memory: 256 cells of four bits. Addresses are bytes and go round at the end, so a byte at the
last address has its second digit at address 0.
-/
import Nic.Word

set_option autoImplicit false

namespace Nic

/-- The cells, by address (`Mem`). -/
structure Memory where
  cells : Vector Nibble 256
deriving DecidableEq

namespace Memory

/-- Every cell zero (`Mem::new`). -/
def zero : Memory := ⟨Vector.replicate 256 0⟩

/-- The cell at an address (`Mem::get_raw`). -/
def get (m : Memory) (a : Byte) : Nibble :=
  m.cells.get a.toFin

/-- The memory with another value in one cell. -/
def set (m : Memory) (a : Byte) (d : Nibble) : Memory :=
  ⟨m.cells.set a.toNat d a.isLt⟩

/-- The memory with the low digit of a byte in one cell (`Mem::set_raw`). -/
def setLow (m : Memory) (a b : Byte) : Memory := m.set a b.low

/-- The byte at an address (`Mem::read_byte`): the digits there and at the next address. -/
def readByte (m : Memory) (a : Byte) : Byte :=
  Byte.ofDigits (m.get a) (m.get (a + 1))

/-- The memory with a byte at an address (`Mem::write_byte`). -/
def writeByte (m : Memory) (a b : Byte) : Memory :=
  (m.set a b.high).set (a + 1) b.low

/-- The word at an address (`Mem::read_word`): the four digits from there on. -/
def readWord (m : Memory) (a : Byte) : Word :=
  Word.ofBytes (m.readByte a) (m.readByte (a + 2))

/-- The memory with cells from address 0 on replaced (`Mem::copy_image`); what is past the end is
left out. -/
def copy (m : Memory) (image : List Nibble) : Memory :=
  ⟨Vector.ofFn fun i => image[i.val]?.getD (m.cells.get i)⟩

/-- The cells, from address 0 on (`Mem::as_slice`). -/
def toList (m : Memory) : List Nibble := m.cells.toList

theorem get_eq_getElem (m : Memory) (a : Byte) (h : a.toNat < 256) :
    m.get a = m.cells[a.toNat] := rfl

/-- Setting a cell changes that cell and no other. -/
theorem get_set (m : Memory) (a b : Byte) (d : Nibble) :
    (m.set a d).get b = if b = a then d else m.get b := by
  rw [get_eq_getElem _ _ b.isLt, get_eq_getElem _ _ b.isLt]
  simp only [set, Vector.getElem_set, ← BitVec.toNat_inj, eq_comm]

end Memory

end Nic
