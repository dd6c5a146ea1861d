/-
The sixteen registers.
-/
import Nic.Text.Decimal
import Nic.Word

set_option autoImplicit false

namespace Nic

/-- A register, by its number. -/
structure Reg where
  number : Nibble
deriving DecidableEq, Repr

namespace Reg

/-- The register that conditional jumps compare with (`Reg::R0`). -/
def zero : Reg := ⟨0⟩

/-- The register with this number, if there is one (`Reg::try_from`). -/
def ofNat? (n : Nat) : Option Reg :=
  if n < 16 then some ⟨BitVec.ofNat 4 n⟩ else none

/-- The number of a register (`Reg::reg_no`). -/
def toNat (r : Reg) : Nat := r.number.toNat

/-- Every register, in order (`Reg::all`). -/
def all : List Reg :=
  (List.range 16).map fun n => ⟨BitVec.ofNat 4 n⟩

/-- A register as it is written in a program (`Reg::fmt`). -/
def text (r : Reg) : String := "r" ++ Text.decimal r.toNat

end Reg

end Nic
