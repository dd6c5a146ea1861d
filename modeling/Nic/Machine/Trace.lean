/-
The events of what the machine does. They follow from its state alone.
-/
import Nic.Event
import Nic.Machine.Run

set_option autoImplicit false

namespace Nic.Machine

/-- The events of a reset. -/
def resetEvents : List Event := [.reset]

/-- The events of loading an executable. -/
def loadEvents (e : Executable) : List Event := .loaded e.size :: resetEvents

/-- The events of loading an executable in text form. -/
def loadTextEvents (text : String) : List Event :=
  match Executable.ofText text with
  | .ok e => loadEvents e
  | .error _ => []

/-- The events of fetching an instruction. -/
def fetchEvents (m : Machine) : List Event :=
  if m.status.isTerminal ∨ m.phase = .execute then []
  else if m.pc.aligned = m.pc then [.fetched m.pc (m.mem.readWord m.pc)]
  else [.unalignedCounter m.pc]

/-- The events of executing an instruction. -/
def executeEvents (m : Machine) : List Event :=
  if m.status.isTerminal ∨ m.phase = .fetch then []
  else match Instr.decode m.ir with
    | none => [.badInstruction m.pc m.ir]
    | some i => [.executing m.pc i]

/-- The events of the next phase. -/
def stepEvents (m : Machine) : List Event :=
  match m.phase with
  | .fetch => m.fetchEvents
  | .execute => m.executeEvents

/-- The events of completing an instruction. -/
def stepInEvents (m : Machine) : List Event :=
  match m.phase with
  | .execute => m.executeEvents
  | .fetch =>
    m.fetchEvents ++ match m.fetch with
      | (.ok .ok, m) => m.executeEvents
      | _ => []

/-- The events of a run for at most so many instructions, as long as a condition holds. -/
def runWhileEvents (m : Machine) (goOn : Machine → Bool) : Nat → List Event
  | 0 => []
  | limit + 1 =>
    if goOn m then
      m.stepInEvents ++ match m.stepIn with
        | (.ok .ok, m) => m.runWhileEvents goOn limit
        | _ => []
    else []

/-- The events of a run for at most so many instructions. -/
def runWithLimitEvents (m : Machine) (limit : Nat) : List Event :=
  m.runWhileEvents (fun _ => true) limit

/-- The events of a run to the end. -/
def runEvents (m : Machine) : List Event :=
  m.runWhileEvents (fun _ => true) configurations

/-- The events of a run until the program counter has a value. -/
def runUntilEvents (m : Machine) (pc : Byte) : List Event :=
  m.runWhileEvents (fun m => m.pc ≠ pc) configurations

/-- The events of running the program on an input. -/
def executeIoEvents (m : Machine) (input : String) : List Event :=
  resetEvents ++ match m.takeInput input with
    | (.ok (), m) => m.runWithLimitEvents m.flags.maxSteps
    | (.error _, _) => []

end Nic.Machine
