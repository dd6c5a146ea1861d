/-
The image of a program, given its symbols.

Every operand that has no value is an error, and is zero in the image, as is the instruction it
belongs to.
-/
import Nic.Assembly.Layout

set_option autoImplicit false

namespace Nic

/-! ## Operands and instructions -/

/-- The value of an operand (`SymbolTable::resolve`): a label stands for its address, to which the
displacement is added. -/
def Symbols.resolve (s : Symbols) : Operand → Except AssemblyError Byte
  | .literal value => .ok value
  | .address label offset =>
    match s.address? label.name with
    | none => .error (.ofSpan .undefinedLabel label.span)
    | some address =>
      let value := address.toNat + offset
      match Byte.fit? value with
      | some b => .ok b
      | none => .error (.ofSpan (.exceedsByte value) label.span)

/-- The machine instruction of an instruction of the program (`AsmInstr::into_sim_instr`). A jump
without a condition takes its operand byte as it is; one with a condition replaces the two low
bits. -/
def SourceInstr.toInstr (s : Symbols) : SourceInstr → Except AssemblyError Instr
  | .halt => .ok .halt
  | .noop => .ok .noop
  | .imm op a x => .imm op a <$> s.resolve x
  | .pair op a b => .ok (.pair op a b)
  | .alu op a b c => .ok (.alu op a b c)
  | .jump target => .jumpTo Reg.zero <$> s.resolve target
  | .jumpIf cond a target => (.jump a cond ·.aligned) <$> s.resolve target

/-! ## Statements -/

namespace Statement

/-- The instruction words of a statement. -/
def words (s : Symbols) (statement : Statement) : List (Except AssemblyError Word) :=
  match statement.body with
  | .instr i => [Instr.encode <$> i.toInstr s]
  | _ => []

/-- The data bytes of a statement. -/
def bytes (s : Symbols) (statement : Statement) : List (Except AssemblyError Byte) :=
  match statement.body with
  | .word _ [] => [.ok 0]
  | .word _ values => values.map s.resolve
  | _ => []

end Statement

/-- The error of a result. -/
def errorOf? {ε α : Type} : Except ε α → Option ε
  | .ok _ => none
  | .error e => some e

/-- The bits of a result, zero if there is an error. -/
def bitsOf {ε : Type} {w : Nat} : Except ε (BitVec w) → BitVec w
  | .ok b => b
  | .error _ => 0

/-- The errors in the operands of a statement. -/
def Statement.errors (s : Symbols) (statement : Statement) : List AssemblyError :=
  (statement.words s).filterMap errorOf? ++ (statement.bytes s).filterMap errorOf?

/-! ## Programs -/

/-- The cells of instructions that follow each other (`push_word`). -/
def cellsOfWords (words : List Word) : List Nibble :=
  words.flatMap Word.digits

/-- The cells of bytes that follow each other (`push_byte`). -/
def cellsOfBytes (bytes : List Byte) : List Nibble :=
  bytes.flatMap Byte.digits

/-- The code of a program. -/
def codeCells (s : Symbols) (statements : List Statement) : List Nibble :=
  cellsOfWords (statements.flatMap fun st => (st.words s).map bitsOf)

/-- The cells of the two instructions after the code. -/
def tailCells : List Nibble :=
  cellsOfWords (programTail.map Instr.encode)

/-- The data of a program. -/
def dataCells (s : Symbols) (statements : List Statement) : List Nibble :=
  cellsOfBytes (statements.flatMap fun st => (st.bytes s).map bitsOf)

/-- The image of a program (`Executable::build`). -/
def imageOf (s : Symbols) (statements : List Statement) : List Nibble :=
  codeCells s statements ++ tailCells ++ dataCells s statements

/-- The errors in the operands of a program (`Executable::build`). -/
def operandErrors (s : Symbols) (statements : List Statement) : List AssemblyError :=
  statements.flatMap (·.errors s)

end Nic
