/-
Settings of the machine.
-/
import Nic.Word

set_option autoImplicit false

namespace Nic

/-- A length of time. -/
structure Duration where
  seconds : Nat
  nanoseconds : Nat
deriving DecidableEq, Repr

/-- The longest time that is told apart, in microseconds. -/
def Duration.maxMicroseconds : Nat := 18446744073709551615

/-- A length of time in microseconds, rounded down, and at least one of them (`duration_to_us`). -/
def Duration.microseconds (d : Duration) : Nat :=
  max 1 (min maxMicroseconds (d.seconds * 1000000 + d.nanoseconds / 1000))

/-- Cells for input or output: how many, and the address of the first. -/
structure IoRegion where
  start : Byte
  cells : Nat
deriving DecidableEq, Repr

/-- The addresses of a region (`IoRegion::addrs`), which goes round at the end of memory; none comes
twice. -/
def IoRegion.addresses (r : IoRegion) : List Byte :=
  (List.range (min r.cells 256)).map fun i => r.start + BitVec.ofNat 8 i

/-- The settings (`SimFlags`): how many instructions a program may take to turn an input into an
output, where the input and the output are, and the time from one instruction to the next when the
machine runs by itself. -/
structure Flags where
  maxSteps : Nat
  input : IoRegion
  output : IoRegion
  interval : Duration
deriving DecidableEq, Repr

/-- The settings unless others are given (`SimFlags::default`): 32 cells each for input and output,
ten instructions in a second. -/
def Flags.default : Flags where
  maxSteps := 100000
  input := ⟨0xc0, 32⟩
  output := ⟨0xe0, 32⟩
  interval := ⟨0, 100000000⟩

end Nic
