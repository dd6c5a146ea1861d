/-
The reserved words of the assembly language. They are reserved in every spelling whose capital
form is theirs.
-/
import Nic.Instruction
import Nic.Text.Uppercase

set_option autoImplicit false

namespace Nic

/-- A reserved word (`Ident`): what a line with a statement starts with. -/
inductive Mnemonic where
  | halt
  | noop
  | imm (op : ImmOp)
  | pair (op : PairOp)
  | alu (op : AluOp)
  | jump
  | jumpIf (cond : Cond)
  | word
deriving DecidableEq, Repr

namespace Mnemonic

/-- Every mnemonic. -/
def all : List Mnemonic :=
  [halt, noop, imm .load, imm .loadc, pair .loadr, imm .store, pair .storer, pair .move,
   alu .add, imm .addc, alu .mul, alu .sub, alu .shift, alu .and, alu .or, alu .xor,
   jump, jumpIf .equal, jumpIf .notEqual, jumpIf .less, jumpIf .lessOrEqual, word]

/-- A mnemonic in small letters (`Ident::fmt`). -/
def text : Mnemonic → String
  | halt => "halt"
  | noop => "noop"
  | imm op => op.text
  | pair op => op.text
  | alu op => op.text
  | jump => "jump"
  | jumpIf cond => cond.text
  | word => "word"

/-- The mnemonic that a name spells, if it is reserved (`Ident::from_str`). -/
def ofName? (name : String) : Option Mnemonic :=
  let capitals := Text.uppercase name
  all.find? fun m => Text.uppercase m.text == capitals

theorem mem_all (m : Mnemonic) : m ∈ all := by
  rcases m with _ | _ | (_ | _ | _ | _) | (_ | _ | _) | (_ | _ | _ | _ | _ | _ | _) | _ |
    (_ | _ | _ | _) | _ <;> simp [all]

end Mnemonic

end Nic
