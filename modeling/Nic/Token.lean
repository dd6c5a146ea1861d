/-
Tokens of the assembly language, and what can be wrong with a piece of text that should be one.
-/
import Nic.Mnemonic
import Nic.Text.Span

set_option autoImplicit false

namespace Nic

/-- A token. -/
inductive Token where
  /-- A number without a sign, below 65536. -/
  | unsigned (value : Nat)
  /-- A number after a minus sign, from -32768 to 0. -/
  | signed (value : Int)
  /-- A register. -/
  | register (r : Reg)
  /-- A name that is not reserved, as it was written. -/
  | name (text : String)
  /-- A reserved word. -/
  | mnemonic (m : Mnemonic)
  /-- A name with a displacement from -32768 to 32767. -/
  | displaced (name : String) (offset : Int)
  /-- The colon after a label. -/
  | colon
  /-- A comma, which means nothing. -/
  | comma
  /-- The rest of a line from `//` on. -/
  | comment
  /-- The end of a line. -/
  | newline
deriving DecidableEq, Repr

/-- What is wrong with a text that is no token (`LexErr`). -/
inductive LexicalFault where
  /-- A number without a sign is above 65535. -/
  | exceedsUnsigned
  /-- A number with a sign, or a displacement, is outside -32768 to 32767. -/
  | exceedsSigned
  /-- A hexadecimal number has another character in it. -/
  | badHex
  /-- A decimal number has another character in it. -/
  | badDecimal
  /-- There is nothing after `0x`. -/
  | emptyHex
  /-- There is nothing after the minus sign. -/
  | emptyDecimal
  /-- A number that cannot be read for another reason. -/
  | badNumber
  /-- A register number above 15. -/
  | badRegister
  /-- A character that starts no token. -/
  | badSymbol
deriving DecidableEq, Repr

namespace LexicalFault

/-- The faults, in the order in which they are listed above. -/
def all : List LexicalFault :=
  [exceedsUnsigned, exceedsSigned, badHex, badDecimal, emptyHex, emptyDecimal, badNumber,
   badRegister, badSymbol]

/-- What is wrong, in words (`LexErr::fmt`). -/
def message : LexicalFault → String
  | exceedsUnsigned => "numeric token does not fit 16-bit unsigned integer"
  | exceedsSigned => "numeric token does not fit 16-bit signed integer"
  | badHex => "invalid hex literal"
  | badDecimal => "invalid decimal literal"
  | emptyHex => "invalid hex literal"
  | emptyDecimal => "invalid decimal literal"
  | badNumber => "could not parse integer"
  | badRegister => "invalid register"
  | badSymbol => "unrecognized symbol"

/-- What would be right, in words (`LexErr::help`). -/
def help : LexicalFault → Option String
  | exceedsUnsigned => some "the range for a 16-bit unsigned integer is [0, 65535]"
  | exceedsSigned => some "the range for a 16-bit signed integer is [-32768, 32767]"
  | badHex => some "a hex literal starts with '0x' and consists of 0-9, a-f"
  | badDecimal => some "a decimal literal only consists of digits 0-9"
  | emptyHex => some "there should be hex digits (0-9, a-f) here"
  | emptyDecimal => some "there should be digits (0-9) here"
  | badNumber => none
  | badRegister => some "this must be r0-r15"
  | badSymbol => some "this char does not occur in any token in NAS assembly"

/-- Whether the fault is that a number is too large (`is_range_lex_err`). -/
def isRange : LexicalFault → Bool
  | exceedsUnsigned | exceedsSigned | badRegister => true
  | _ => false

end LexicalFault

/-- A piece of the source (`SpannedToken`): a token or a fault, and its place. -/
abbrev Lexeme := Located (Except LexicalFault Token)

end Nic
