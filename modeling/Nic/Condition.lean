/-
The conditions of jumps. A jump compares a register with register 0, both as signed bytes, and
keeps its condition in the two low bits of the address byte: those of an instruction's address
are always zero.
-/
import Nic.Word

set_option autoImplicit false

namespace Nic

/-- When a jump is taken. -/
inductive Cond where
  | equal
  | notEqual
  | less
  | lessOrEqual
deriving DecidableEq, Repr

namespace Cond

/-- The code of a condition (`Cond::bits`). -/
def code : Cond → BitVec 2
  | equal => 0
  | notEqual => 1
  | less => 2
  | lessOrEqual => 3

/-- The condition with a code. -/
def ofCode (b : BitVec 2) : Cond :=
  match b.toNat with
  | 0 => equal
  | 1 => notEqual
  | 2 => less
  | _ => lessOrEqual

/-- The condition in the two low bits of an address byte (`Cond::from_bits`). -/
def ofByte (b : Byte) : Cond := ofCode (b.extractLsb' 0 2)

/-- An address byte with its two low bits replaced by the condition. -/
def intoByte (c : Cond) (b : Byte) : Byte := b.extractLsb' 2 6 ++ c.code

/-- Whether the condition holds between two bytes, read as signed numbers (`Cond::holds`). -/
def holds (c : Cond) (left right : Byte) : Bool :=
  match c with
  | equal => left == right
  | notEqual => left != right
  | less => left.slt right
  | lessOrEqual => left.sle right

/-- The mnemonic of a jump with this condition (`Cond::mnemonic`). -/
def text : Cond → String
  | equal => "jumpe"
  | notEqual => "jumpn"
  | less => "jumpl"
  | lessOrEqual => "jumple"

@[simp] theorem ofCode_code (c : Cond) : ofCode c.code = c := by
  cases c <;> rfl

@[simp] theorem code_ofCode (b : BitVec 2) : (ofCode b).code = b := by
  revert b; decide

@[simp] theorem ofByte_intoByte (c : Cond) (b : Byte) : ofByte (c.intoByte b) = c := by
  simp only [ofByte, intoByte, BitVec.extractLsb'_append_eq_right, ofCode_code]

end Cond

end Nic
