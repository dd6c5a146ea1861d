/-
The status of the machine, its phase, and what can be wrong with a request to it.

What a program does wrong is a status, not a fault: a fault is a request that cannot be met.
-/
import Nic.Executable

set_option autoImplicit false

namespace Nic

/-- The status of the machine. -/
inductive Status where
  /-- Nothing stands in the way of the next instruction. -/
  | ok
  /-- The program said that it is done. -/
  | halted
  /-- The word that was fetched is no instruction. -/
  | badInstruction
  /-- The program counter is not the address of an instruction. -/
  | badAlignment
deriving DecidableEq, Repr

namespace Status

/-- Every status, in the order of their codes. -/
def all : List Status := [ok, halted, badInstruction, badAlignment]

/-- The number of a status (`Status::code`). -/
def code : Status → Nat
  | ok => 0
  | halted => 1
  | badInstruction => 2
  | badAlignment => 3

/-- Whether the machine stops until it is reset (`Status::is_terminal`). A halted machine goes on
when it is asked to. -/
def isTerminal : Status → Bool
  | badInstruction | badAlignment => true
  | ok | halted => false

/-- A status in words (`Status::fmt`). -/
def text : Status → String
  | ok => "ok"
  | halted => "halt"
  | badInstruction => "bad instruction"
  | badAlignment => "bad alignment"

end Status

/-- What the machine does next: fetch an instruction, or execute the one that was fetched. -/
inductive Phase where
  | fetch
  | execute
deriving DecidableEq, Repr

/-- Why a request cannot be met (`SimErr`). -/
inductive MachineFault where
  /-- It is the other phase's turn. -/
  | wrongPhase
  /-- The machine is running by itself. -/
  | running
  /-- The program was not done after the steps it was given. -/
  | stepLimit
  /-- What should be loaded is no executable. -/
  | badExecutable (fault : ExecutableFault)
  /-- The input has a character that is no digit. -/
  | badInput
  /-- The input has more digits than there are cells for it. -/
  | inputTooLarge
  /-- The program stopped with this status. -/
  | notHalted (status : Status)
deriving DecidableEq, Repr

namespace MachineFault

/-- What is wrong, in words (`SimErr::fmt`). -/
def message : MachineFault → String
  | wrongPhase => "phase called out of order"
  | running => "machine is running"
  | stepLimit => "program did not halt within the step limit"
  | badExecutable fault => "invalid executable: " ++ fault.message
  | badInput => "input is not a hex string"
  | inputTooLarge => "input does not fit in the input region"
  | notHalted status => "program stopped with status " ++ status.text

/-- What would be right, in words (`SimErr::help`). -/
def help : MachineFault → Option String
  | wrongPhase =>
    some "fetch and execute must alternate, use `Machine::phase` to check which is next"
  | running => some "stop the machine before stepping it"
  | stepLimit => some "the program may be in an infinite loop, or the step limit may be too low"
  | badExecutable fault => fault.help
  | badInput => some "input is written as hex digits, one per memory cell"
  | inputTooLarge => none
  | notHalted .badAlignment => some "the program counter was not a multiple of 4"
  | notHalted .badInstruction =>
    some "the program tried to run a word that is not an instruction (e.g., data)"
  | notHalted _ => none

/-- The words of the fault that this one comes from (`SimErr::source`). -/
def cause : MachineFault → Option String
  | badExecutable fault => some fault.message
  | _ => none

end MachineFault

end Nic
