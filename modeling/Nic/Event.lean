/-
What is told about the work of the assembler and the machine while it goes on.
-/
import Nic.Statement
import Nic.Text.Decimal
import Nic.Text.Hex

set_option autoImplicit false

namespace Nic

/-- How much an event matters. -/
inductive Level where
  | trace
  | debug
  | warn
deriving DecidableEq, Repr

/-- Something that happened. -/
inductive Event where
  /-- The assembler starts to read the source. -/
  | parsing
  /-- The source was read. -/
  | parsed (statements errors : Nat)
  /-- The assembler starts to lay out the program. -/
  | layingOut
  /-- The program was laid out. -/
  | laidOut (instrs labels cells : Nat)
  /-- The assembler starts to make the image. -/
  | emitting
  /-- The target of a conditional jump is not the address of an instruction. -/
  | unalignedTarget (cond : Cond) (a : Reg) (target : Operand) (address : Byte)
  /-- The image was made. -/
  | emitted (cells errors : Nat)
  /-- The program has errors. -/
  | failed (errors : Nat)
  /-- The machine was given an image. -/
  | loaded (cells : Nat)
  /-- The machine was reset. -/
  | reset
  /-- The program counter is not the address of an instruction. -/
  | unalignedCounter (pc : Byte)
  /-- An instruction was fetched. -/
  | fetched (pc : Byte) (word : Word)
  /-- What was fetched is no instruction. -/
  | badInstruction (pc : Byte) (word : Word)
  /-- An instruction is executed. -/
  | executing (pc : Byte) (instr : Instr)
deriving DecidableEq, Repr

namespace Event

/-- How much an event matters. -/
def level : Event → Level
  | parsing | parsed .. | layingOut | emitting | fetched .. | executing .. => .trace
  | unalignedTarget .. => .warn
  | _ => .debug

/-- An event in words. -/
def message : Event → String
  | parsing => "starting parse"
  | parsed .. => "parsed source"
  | layingOut => "starting pass 1"
  | laidOut .. => "pass 1 complete"
  | emitting => "starting pass 2"
  | unalignedTarget cond a target address =>
    cond.text ++ " " ++ a.text ++ " " ++ target.text ++ ": target 0x" ++ Text.hexByte address ++
      " is not a multiple of 4, its low bits hold the condition"
  | emitted .. => "pass 2 complete"
  | failed _ => "assembly failed"
  | loaded _ => "loaded image"
  | reset => "reset machine"
  | unalignedCounter _ => "unaligned program counter"
  | fetched _ word => "fetched " ++ Text.hexWord word
  | badInstruction _ word => "bad instruction " ++ Text.hexWord word
  | executing _ instr => "executing " ++ instr.text

/-- The numbers that come with an event. -/
def numbers : Event → List (String × Nat)
  | parsed statements errors => [("stmts", statements), ("errors", errors)]
  | laidOut instrs labels cells => [("instrs", instrs), ("labels", labels), ("blocks", cells)]
  | emitted cells errors => [("blocks", cells), ("errors", errors)]
  | failed errors => [("errors", errors)]
  | loaded cells => [("blocks", cells)]
  | unalignedCounter pc => [("pc", pc.toNat)]
  | fetched pc _ => [("pc", pc.toNat)]
  | badInstruction pc _ => [("pc", pc.toNat)]
  | executing pc _ => [("pc", pc.toNat)]
  | _ => []

/-- The numbers that come with an event, in decimal. -/
def fields (e : Event) : List (String × String) :=
  e.numbers.map fun (name, n) => (name, Text.decimal n)

end Event

end Nic
