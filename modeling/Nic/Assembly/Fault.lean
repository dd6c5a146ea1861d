/-
What can be wrong with a program.
-/
import Nic.Executable
import Nic.Statement.Fault

set_option autoImplicit false

namespace Nic

/-- What is wrong with a program (`AsmErrKind`). -/
inductive AssemblyFault where
  /-- A line is not well formed. -/
  | grammar (fault : SyntaxFault)
  /-- A label was defined before. -/
  | duplicateLabel
  /-- The program has more cells than the memory. -/
  | programTooLarge (cells : Nat)
  /-- A label is used and not defined. -/
  | undefinedLabel
  /-- A label and its displacement give a number that is not the value of a byte. -/
  | exceedsByte (value : Int)
deriving DecidableEq, Repr

/-- Kinds of faults, by what would mend them (`ErrClass`). -/
inductive FaultClass where
  | grammar
  | undefined
  | range
  | duplicate
deriving DecidableEq, Repr

namespace AssemblyFault

/-- What is wrong, in words (`AsmErrKind::fmt`). -/
def message : AssemblyFault → String
  | grammar fault => fault.message
  | duplicateLabel => "label was defined multiple times"
  | programTooLarge cells =>
    "program needs " ++ Text.decimal cells ++ " memory cells, but there are only " ++
      Text.decimal memoryCells
  | undefinedLabel => "label could not be found"
  | exceedsByte value => "value " ++ Text.decimalInt value ++ " does not fit in a byte"

/-- What would be right, in words (`AsmErr::help`). -/
def help : AssemblyFault → Option String
  | grammar fault => fault.help
  | duplicateLabel =>
    some "labels must be unique within a file, try renaming one of the labels"
  | programTooLarge _ => some "try removing instructions or word values"
  | undefinedLabel =>
    some "try adding this label before an instruction, or as the name of a word directive"
  | exceedsByte _ => some "the range for a byte operand is [-128, 255]"

/-- The class of a fault (`AsmErr::class`). A number that is too large is out of range wherever it
is found. -/
def faultClass : AssemblyFault → FaultClass
  | grammar (.exceedsByte _) => .range
  | grammar (.lexical fault) => if fault.isRange then .range else .grammar
  | grammar _ => .grammar
  | duplicateLabel => .duplicate
  | programTooLarge _ => .range
  | undefinedLabel => .undefined
  | exceedsByte _ => .range

end AssemblyFault

/-- A fault and its place (`AsmErr`); a label that is defined twice has two places, the earlier one
first. -/
structure AssemblyError where
  fault : AssemblyFault
  first : Span
  second : Option Span
deriving DecidableEq, Repr

namespace AssemblyError

/-- A fault at one place (`AsmErr::new`). -/
def ofSpan (fault : AssemblyFault) (span : Span) : AssemblyError := ⟨fault, span, none⟩

/-- An error of a line (`AsmErr::from`). -/
def ofSyntax (e : SyntaxError) : AssemblyError := ⟨.grammar e.fault, e.span, none⟩

/-- All places of an error (`ErrSpan::iter`). -/
def spans (e : AssemblyError) : List Span := e.first :: e.second.toList

/-- Errors in the order of their first places; those at one offset stay in their order. -/
def sort (errors : List AssemblyError) : List AssemblyError :=
  errors.mergeSort fun e f => e.first.start ≤ f.first.start

end AssemblyError

end Nic
