/-
What can be wrong with a line of a program.
-/
import Nic.Text.Decimal
import Nic.Token

set_option autoImplicit false

namespace Nic

/-- What a mnemonic can be followed by. -/
inductive OperandKind where
  | register
  | byte
  | name
deriving DecidableEq, Repr

/-- An operand in words (`OperandKind::fmt`). -/
def OperandKind.noun : OperandKind → String
  | register => "register"
  | byte => "value or label"
  | name => "name"

/-- What is wrong with a line (`ParseErrKind`). -/
inductive SyntaxFault where
  /-- The line has a piece that is no token. -/
  | lexical (fault : LexicalFault)
  /-- The statement does not start with a mnemonic. -/
  | unknownMnemonic
  /-- A register stands where a label is defined. -/
  | registerLabel
  /-- An operand is missing, or another kind of token stands in its place. -/
  | expected (kind : OperandKind)
  /-- The line goes on after its statement. -/
  | unexpected
  /-- A number is not the value of a byte. -/
  | exceedsByte (value : Int)
deriving DecidableEq, Repr

namespace SyntaxFault

/-- What is wrong, in words (`ParseErrKind::fmt`). -/
def message : SyntaxFault → String
  | lexical fault => fault.message
  | unknownMnemonic => "unknown mnemonic"
  | registerLabel => "cannot define a register as a label"
  | expected kind => "expected " ++ kind.noun
  | unexpected => "unexpected token"
  | exceedsByte value => "value " ++ Text.decimalInt value ++ " does not fit in a byte"

/-- What would be right, in words (`ParseErr::help`). -/
def help : SyntaxFault → Option String
  | lexical fault => fault.help
  | unknownMnemonic => some "a label definition must be followed by ':'"
  | registerLabel => some "register names (r0-r15) cannot be used as labels"
  | expected .register => some "registers are written r0-r15"
  | expected .byte =>
    some "expected a number (e.g., 12, -3, 0x1f) or a label (e.g., loop, data+1)"
  | expected .name => some "a word directive is written `word name value...`"
  | unexpected => some "each line holds at most one instruction"
  | exceedsByte _ => some "the range for a byte operand is [-128, 255]"

/-- The words of the fault that this one comes from (`ParseErr::source`). -/
def cause : SyntaxFault → Option String
  | lexical fault => some fault.message
  | _ => none

end SyntaxFault

/-- A fault and its place (`ParseErr`). -/
structure SyntaxError where
  fault : SyntaxFault
  span : Span
deriving DecidableEq, Repr

end Nic
