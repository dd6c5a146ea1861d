/-
Statements of a program, as they are written: operands may still name labels.
-/
import Nic.Instruction
import Nic.Text.Decimal
import Nic.Text.Hex
import Nic.Text.Span

set_option autoImplicit false

namespace Nic

/-- A name in the source, as it was written, and the offset where it stands. -/
structure Label where
  name : String
  start : Nat
deriving DecidableEq, Repr

/-- The place of a label (`Label::span`). -/
def Label.span (l : Label) : Span :=
  ⟨l.start, l.start + l.name.utf8ByteSize⟩

/-- A byte operand (`ByteOperand`): a value, or the address of a label and a displacement. -/
inductive Operand where
  | literal (value : Byte)
  | address (label : Label) (offset : Int)
deriving DecidableEq, Repr

namespace Operand

/-- An operand as it is written in a program (`ByteOperand::fmt`). -/
def text : Operand → String
  | literal value => "0x" ++ Text.hexByte value
  | address label offset =>
    if offset = 0 then label.name else label.name ++ Text.decimalSigned offset

/-- The label that an operand names, with its displacement. -/
def label? : Operand → Option (Label × Int)
  | literal _ => none
  | address label offset => some (label, offset)

end Operand

/-- An instruction of a program (`AsmInstr`). `noop` and `jump` are kept apart here, as they have
spellings of their own. -/
inductive SourceInstr where
  | halt
  | noop
  | imm (op : ImmOp) (a : Reg) (x : Operand)
  | pair (op : PairOp) (a b : Reg)
  | alu (op : AluOp) (a b c : Reg)
  | jump (target : Operand)
  | jumpIf (cond : Cond) (a : Reg) (target : Operand)
deriving DecidableEq, Repr

namespace SourceInstr

/-- The mnemonic (`AsmInstr::mnemonic`). -/
def mnemonic : SourceInstr → String
  | halt => "halt"
  | noop => "noop"
  | imm op .. => op.text
  | pair op .. => op.text
  | alu op .. => op.text
  | jump _ => "jump"
  | jumpIf cond .. => cond.text

/-- The operands, as they are written. -/
def operands : SourceInstr → List String
  | halt => []
  | noop => []
  | imm _ a x => [a.text, x.text]
  | pair _ a b => [a.text, b.text]
  | alu _ a b c => [a.text, b.text, c.text]
  | jump target => [target.text]
  | jumpIf _ a target => [a.text, target.text]

/-- An instruction as it is written in a program (`AsmInstr::fmt`). -/
def text (i : SourceInstr) : String :=
  " ".intercalate (i.mnemonic :: i.operands)

/-- The byte operand, if there is one. -/
def operand? : SourceInstr → Option Operand
  | imm _ _ x => some x
  | jump target => some target
  | jumpIf _ _ target => some target
  | _ => none

end SourceInstr

/-- What a statement says (`StmtKind`): an instruction, a label for the next instruction, or bytes
of data under a name. A `word` without values is one byte of zero. -/
inductive Statement.Body where
  | instr (i : SourceInstr)
  | label (name : Label)
  | word (name : Label) (values : List Operand)
deriving DecidableEq, Repr

namespace Statement.Body

/-- A statement as it is written in a program. -/
def text : Body → String
  | instr i => i.text
  | label name => name.name ++ ":"
  | word name values => " ".intercalate ("word" :: name.name :: values.map Operand.text)

/-- The labels in a statement, in order, with their displacements; a name that is defined has none.
-/
def labels : Body → List (Label × Int)
  | instr i => (i.operand?.bind Operand.label?).toList
  | label name => [(name, 0)]
  | word name values => (name, 0) :: values.filterMap Operand.label?

/-- Whether the statement is an instruction. -/
def isInstr : Body → Bool
  | instr _ => true
  | _ => false

end Statement.Body

/-- A statement and its place in the source (`Stmt`). -/
structure Statement where
  body : Statement.Body
  span : Span
deriving DecidableEq, Repr

/-- A statement as it is written in a program (`Stmt::fmt`). -/
def Statement.text (s : Statement) : String := s.body.text

end Nic
