/-
Many instructions.

A run goes on as long as the status is ok. It need not end; if it goes on for more instructions
than the machine has configurations, then it has been in one of them twice, and it never ends.
-/
import Nic.Machine.Step
import Nic.Text.Hex

set_option autoImplicit false

namespace Nic.Machine

/-! ## Runs -/

/-- Runs for at most so many instructions (`Machine::run_with_limit`). -/
def runWithLimit (m : Machine) : Nat → Outcome
  | 0 => m.outcome
  | limit + 1 =>
    match m.stepIn with
    | (.ok .ok, m) => m.runWithLimit limit
    | stopped => stopped

/-- Runs as long as a condition holds before each instruction (`Machine::run_while`). There is no
outcome if the run has not ended after `fuel` instructions. -/
def runWhile (m : Machine) (goOn : Machine → Bool) : Nat → Option Outcome
  | 0 => none
  | fuel + 1 =>
    if goOn m then
      match m.stepIn with
      | (.ok .ok, m) => m.runWhile goOn fuel
      | stopped => some stopped
    else some m.outcome

/-- The number of configurations, from the bits of each part: memory, registers, program counter,
instruction register, address of the next instruction, status, phase. It is large, so it is not to
be unfolded by accident. -/
@[irreducible] def configurations : Nat :=
  Nat.pow 2 (4 * 256 + 8 * 16 + 8 + 16 + 8 + 2 + 1)

/-- Runs to the end, if there is one (`Machine::run`). -/
def run (m : Machine) : Option Outcome :=
  m.runWhile (fun _ => true) configurations

/-- Runs until the program counter has a value, if it ever has. -/
def runUntil (m : Machine) (pc : Byte) : Option Outcome :=
  m.runWhile (fun m => m.pc ≠ pc) configurations

/-! ## From input to output -/

/-- The digits of an input. -/
def inputDigits? (input : String) : Option (List Nibble) :=
  (Text.trim input.toList).mapM Text.hexValue?

/-- Puts digits into cells. -/
def setCells (m : Machine) (cells : List (Byte × Nibble)) : Machine :=
  cells.foldl (fun m (a, d) => m.setCell a d) m

/-- The machine at the start of its program, with an input in the cells for it; or why the input
cannot be there. The machine is reset in any case. -/
def takeInput (m : Machine) (input : String) : Except MachineFault Unit × Machine :=
  let m := m.reset
  match inputDigits? input with
  | none => (.error .badInput, m)
  | some digits =>
    let addresses := m.flags.input.addresses
    if addresses.length < digits.length then (.error .inputTooLarge, m)
    else (.ok (), m.setCells (addresses.zip digits))

/-- The digits in the cells for the output. -/
def output (m : Machine) : String :=
  String.ofList (Text.hexDigits (m.flags.output.addresses.map m.mem.get))

/-- Runs the program on an input, and gives its output (`Machine::execute_io`). -/
def executeIo (m : Machine) (input : String) : Except MachineFault String × Machine :=
  match m.takeInput input with
  | (.error fault, m) => (.error fault, m)
  | (.ok (), m) =>
    match m.runWithLimit m.flags.maxSteps with
    | (.ok .halted, m) => (.ok m.output, m)
    | (.ok .ok, m) => (.error .stepLimit, m)
    | (.ok status, m) => (.error (.notHalted status), m)
    | (.error fault, m) => (.error fault, m)

end Nic.Machine
