/-
The layout of a program: where each statement comes to stand.

An image is the code, four cells to an instruction, then two instructions that end every program,
then the data, two cells to a value. A label stands for the address of the instruction after it,
and the name of a `word` for the address of its first value. The code of the whole program comes
before the data, so data addresses depend on all instructions, also on later ones.
-/
import Nic.Assembly.Fault
import Nic.Statement

set_option autoImplicit false

namespace Nic

/-- The cells of an instruction (`INSTR_BLOCKS`). -/
def instrCells : Nat := 4

/-- The cells of a value of data (`WORD_BLOCKS`). -/
def valueCells : Nat := 2

/-- The instructions that follow the code of every program (`TAIL`): stop, and start again from
address 0 if the machine is told to go on. -/
def programTail : List Instr := [.halt, .jump Reg.zero .equal 0]

namespace Statement

/-- The number of instructions. -/
def instrCount (statements : List Statement) : Nat :=
  statements.countP (·.body.isInstr)

/-- The address of the data of a program with this many instructions. -/
def dataStart (instrs : Nat) : Nat :=
  instrCells * (instrs + programTail.length)

/-- The values of a `word`; one without any still takes the room of one. -/
def valueCount (values : List Operand) : Nat :=
  max values.length 1

end Statement

/-- A program laid out up to some statement: the labels so far, the cells of code so far, the
address up to which there is data, whether the memory was exceeded, and the errors. -/
structure Layout where
  labels : Std.ExtTreeMap String Symbol
  code : Nat
  data : Nat
  exceeded : Bool
  errors : Array AssemblyError

namespace Layout

/-- Nothing laid out yet. -/
def start (dataStart : Nat) : Layout := ⟨∅, 0, dataStart, false, #[]⟩

/-- Gives a label an address, unless it has one (`add_label` in `SymbolTable::build`). Addresses are
kept up to 65535. -/
def define (l : Layout) (label : Label) (address : Nat) : Layout :=
  let key := Text.uppercase label.name
  match l.labels[key]? with
  | some earlier =>
    { l with errors := l.errors.push ⟨.duplicateLabel, earlier.span key, some label.span⟩ }
  | none =>
    let symbol := ⟨BitVec.ofNat 16 (min address 65535), label.start⟩
    { l with labels := l.labels.insert key symbol }

/-- Notes that a program of so many cells is too large, if this is so and was not noted before. -/
def checkSize (l : Layout) (reached needed : Nat) (span : Span) : Layout :=
  if !l.exceeded && memoryCells < reached then
    { l with exceeded := true, errors := l.errors.push (.ofSpan (.programTooLarge needed) span) }
  else l

/-- Lays out one more statement, in a program whose data starts at an address (one turn of the loop
of `SymbolTable::build`). -/
def place (dataStart : Nat) (l : Layout) (s : Statement) : Layout :=
  match s.body with
  | .instr _ =>
    -- the size named in the error is that of the whole code, not of what was reached
    let code := l.code + instrCells
    { l with code }.checkSize (code + instrCells * programTail.length) dataStart s.span
  | .label name => l.define name l.code
  | .word name values =>
    let data := l.data + valueCells * Statement.valueCount values
    { l.define name l.data with data }.checkSize data data s.span

/-- Lays out a program. -/
def ofStatements (statements : List Statement) : Layout :=
  let dataStart := Statement.dataStart (Statement.instrCount statements)
  statements.foldl (place dataStart) (start dataStart)

end Layout

/-- The symbols of a program, and the errors in its definitions (`SymbolTable::build`). -/
def symbolsOf (statements : List Statement) : Symbols × List AssemblyError :=
  let layout := Layout.ofStatements statements
  (⟨layout.labels, Statement.instrCount statements, layout.data⟩, layout.errors.toList)

namespace Symbols

/-- The address where the data of the program starts (`SymbolTable::data_start`). -/
def dataStart (s : Symbols) : Nat := Statement.dataStart s.instrCount

/-- The symbols of a program, or the first error in its definitions (`SymbolTable::new`). -/
def ofStatements (statements : List Statement) : Except AssemblyError Symbols :=
  match symbolsOf statements with
  | (symbols, []) => .ok symbols
  | (_, e :: _) => .error e

end Symbols

end Nic
