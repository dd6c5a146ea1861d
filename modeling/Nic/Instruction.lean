/-
Machine instructions and their sixteen-bit form.

The first digit of a word is the operation; the other three are its operands:

    halt                     0 0 0 0
    load loadc store addc    o a x x     register a, byte x
    loadr storer move        o 0 a b     registers a and b
    add mul sub shift
    and or xor               o a b c     registers a, b and c
    jumps                    f a t t     register a, target t with the condition in its low bits

Every first digit is an operation. A word is no instruction only if a digit that must be zero is
not, which concerns `halt` and the operations with two registers.
-/
import Nic.Condition
import Nic.Register
import Nic.Text.Hex

set_option autoImplicit false

namespace Nic

/-! ## Operations -/

/-- Operations on a register and a byte. -/
inductive ImmOp where
  | load
  | loadc
  | store
  | addc
deriving DecidableEq, Repr

/-- Operations on two registers. -/
inductive PairOp where
  | loadr
  | storer
  | move
deriving DecidableEq, Repr

/-- Operations that set a register from two others. -/
inductive AluOp where
  | add
  | mul
  | sub
  | shift
  | and
  | or
  | xor
deriving DecidableEq, Repr

/-- What the first digit of a word stands for. -/
inductive Opcode where
  | halt
  | imm (op : ImmOp)
  | pair (op : PairOp)
  | alu (op : AluOp)
  | jump
deriving DecidableEq, Repr

namespace Opcode

/-- The first digit of an instruction with this operation (`SimInstr::opcode`). -/
def digit : Opcode → Nibble
  | halt => 0x0
  | imm .load => 0x1
  | imm .loadc => 0x2
  | pair .loadr => 0x3
  | imm .store => 0x4
  | pair .storer => 0x5
  | pair .move => 0x6
  | alu .add => 0x7
  | imm .addc => 0x8
  | alu .mul => 0x9
  | alu .sub => 0xa
  | alu .shift => 0xb
  | alu .and => 0xc
  | alu .or => 0xd
  | alu .xor => 0xe
  | jump => 0xf

/-- The operation of a first digit. -/
def ofDigit (d : Nibble) : Opcode :=
  match d.toNat with
  | 0x0 => halt
  | 0x1 => imm .load
  | 0x2 => imm .loadc
  | 0x3 => pair .loadr
  | 0x4 => imm .store
  | 0x5 => pair .storer
  | 0x6 => pair .move
  | 0x7 => alu .add
  | 0x8 => imm .addc
  | 0x9 => alu .mul
  | 0xa => alu .sub
  | 0xb => alu .shift
  | 0xc => alu .and
  | 0xd => alu .or
  | 0xe => alu .xor
  | _ => jump

@[simp] theorem ofDigit_digit (o : Opcode) : ofDigit o.digit = o := by
  rcases o with _ | (_ | _ | _ | _) | (_ | _ | _) | (_ | _ | _ | _ | _ | _ | _) | _ <;> rfl

@[simp] theorem digit_ofDigit (d : Nibble) : (ofDigit d).digit = d := by
  revert d; decide

end Opcode

/-- The mnemonic of an operation on a register and a byte. -/
def ImmOp.text : ImmOp → String
  | load => "load"
  | loadc => "loadc"
  | store => "store"
  | addc => "addc"

/-- The mnemonic of an operation on two registers. -/
def PairOp.text : PairOp → String
  | loadr => "loadr"
  | storer => "storer"
  | move => "move"

/-- The mnemonic of an operation on three registers. -/
def AluOp.text : AluOp → String
  | add => "add"
  | mul => "mul"
  | sub => "sub"
  | shift => "shift"
  | and => "and"
  | or => "or"
  | xor => "xor"

/-- The value that an operation on three registers puts into the first, from those of the other two
(a part of `Machine::execute`). Sums, products and differences are modulo 256; a shift takes its
amount as a signed byte. -/
def AluOp.apply : AluOp → Byte → Byte → Byte
  | add, b, c => b + c
  | mul, b, c => b * c
  | sub, b, c => b - c
  | shift, b, c => b.shift c
  | and, b, c => b &&& c
  | or, b, c => b ||| c
  | xor, b, c => b ^^^ c

/-! ## Instructions -/

/-- An instruction (`SimInstr`). A jump's target is meant to be a multiple of four: its two low bits
have no place in the word. -/
inductive Instr where
  | halt
  | imm (op : ImmOp) (a : Reg) (x : Byte)
  | pair (op : PairOp) (a b : Reg)
  | alu (op : AluOp) (a b c : Reg)
  | jump (a : Reg) (cond : Cond) (target : Byte)
deriving DecidableEq, Repr

namespace Instr

/-- The jump with this address byte (`SimInstr::jump_raw`): the two low bits are the condition, the
others the target. -/
def jumpTo (a : Reg) (address : Byte) : Instr :=
  jump a (Cond.ofByte address) address.aligned

/-- The instruction that does nothing: a jump on register 0 being different from itself. -/
def noop : Instr := jumpTo Reg.zero 1

/-- The operation of an instruction. -/
def opcode : Instr → Opcode
  | halt => .halt
  | imm op .. => .imm op
  | pair op .. => .pair op
  | alu op .. => .alu op
  | jump .. => .jump

/-- The word of an instruction (`SimInstr::encode`). -/
def encode (i : Instr) : Word :=
  let o := i.opcode.digit
  match i with
  | halt => Word.ofBytes (.ofDigits o 0#4) 0#8
  | imm _ a x => Word.ofBytes (.ofDigits o a.number) x
  | pair _ a b => Word.ofBytes (.ofDigits o 0#4) (.ofDigits a.number b.number)
  | alu _ a b c => Word.ofBytes (.ofDigits o a.number) (.ofDigits b.number c.number)
  | jump a cond target => Word.ofBytes (.ofDigits o a.number) (cond.intoByte target)

/-- The instruction of a word, if it is one (`SimInstr::decode`). -/
def decode (w : Word) : Option Instr :=
  let a : Reg := ⟨w.highByte.low⟩
  let x := w.lowByte
  let b : Reg := ⟨x.high⟩
  let c : Reg := ⟨x.low⟩
  match Opcode.ofDigit w.highByte.high with
  | .halt => if w = 0#16 then some halt else none
  | .imm op => some (imm op a x)
  | .pair op => if a.number = 0#4 then some (pair op b c) else none
  | .alu op => some (alu op a b c)
  | .jump => some (jumpTo a x)

/-- An instruction as it is written in a program (`SimInstr::fmt`). A jump on register 0 has a short
form when it is always taken, and when it is never taken and goes to address 0. -/
def text : Instr → String
  | halt => "halt"
  | imm op a x => s!"{op.text} {a.text} 0x{Text.hexByte x}"
  | pair op a b => s!"{op.text} {a.text} {b.text}"
  | alu op a b c => s!"{op.text} {a.text} {b.text} {c.text}"
  | jump a cond target =>
    if a = Reg.zero ∧ cond = .notEqual ∧ target = 0 then "noop"
    else if a = Reg.zero ∧ cond = .equal then s!"jump 0x{Text.hexByte target}"
    else s!"{cond.text} {a.text} 0x{Text.hexByte target}"

end Instr

end Nic
