/-
Numbers in the source.

A number is decimal, or hexadecimal after `0x` or `0X`. It is read from the left, and the first
character that is no digit, or that takes the value past its limit, decides what is wrong with it.
-/
import Nic.Text.Hex
import Nic.Token

set_option autoImplicit false

namespace Nic.Token

/-! ## Digits -/

/-- Why a sequence of digits has no value. -/
inductive DigitsFault where
  | empty
  | badDigit
  | tooLarge
deriving DecidableEq, Repr

/-- The value of a digit in a radix of at most sixteen. -/
def digitValue? (radix : Nat) (c : Char) : Option Nat :=
  (Text.hexValue? c).map BitVec.toNat |>.filter (· < radix)

/-- Takes one more digit, as long as the value stays within the limit. -/
def addDigit (radix limit : Nat) (value : Nat) (c : Char) : Except DigitsFault Nat :=
  match digitValue? radix c with
  | none => .error .badDigit
  | some d => if value * radix + d ≤ limit then .ok (value * radix + d) else .error .tooLarge

/-- The value of a sequence of digits, which must not be empty nor go past the limit. -/
def readDigits (radix limit : Nat) (cs : List Char) : Except DigitsFault Nat :=
  if cs.isEmpty then .error .empty else cs.foldlM (addDigit radix limit) 0

/-! ## Magnitudes -/

/-- What follows `0x` or `0X` (`strip_hex_prefix`). -/
def afterHexMark? : List Char → Option (List Char)
  | '0' :: 'x' :: digits => some digits
  | '0' :: 'X' :: digits => some digits
  | _ => none

/-- The fault of a hexadecimal number (`convert_int_error`), given the one for a number that is too
large. -/
def hexFault (large : LexicalFault) : DigitsFault → LexicalFault
  | .empty => .emptyHex
  | .badDigit => .badHex
  | .tooLarge => large

/-- The fault of a decimal number (`convert_int_error`), given the one for a number that is too
large. -/
def decimalFault (large : LexicalFault) : DigitsFault → LexicalFault
  | .empty => .emptyDecimal
  | .badDigit => .badDecimal
  | .tooLarge => large

/-- Reads a number without its sign. The limit is for decimal digits; hexadecimal digits may go up
to 65535. -/
def readMagnitude (limit : Nat) (large : LexicalFault) (cs : List Char) :
    Except LexicalFault Nat :=
  match afterHexMark? cs with
  | some digits => (readDigits 16 65535 digits).mapError (hexFault large)
  | none => (readDigits 10 limit cs).mapError (decimalFault large)

/-! ## Literals -/

/-- Reads a number without a sign (`lex_unsigned`). -/
def readUnsigned (cs : List Char) : Except LexicalFault Token :=
  Token.unsigned <$> readMagnitude 65535 .exceedsUnsigned cs

/-- Reads what follows a minus sign (`lex_signed`). -/
def readNegative (cs : List Char) : Except LexicalFault Token := do
  let magnitude ← readMagnitude 32768 .exceedsSigned cs
  -- hexadecimal digits were read up to 65535
  if magnitude ≤ 32768 then return .signed (-magnitude) else throw .exceedsSigned

/-- Reads a name and the displacement after it (`lex_label_offset`). -/
def readDisplaced (name : List Char) (negative : Bool) (cs : List Char) :
    Except LexicalFault Token := do
  let magnitude ← readMagnitude 65535 .exceedsSigned cs
  if negative then
    if magnitude ≤ 32768 then return .displaced (String.ofList name) (-magnitude)
    else throw .exceedsSigned
  else
    if magnitude ≤ 32767 then return .displaced (String.ofList name) magnitude
    else throw .exceedsSigned

/-- Reads the number of a register (`lex_reg`). -/
def readRegister (cs : List Char) : Except LexicalFault Token :=
  match readDigits 10 255 cs with
  | .error _ => .error .badRegister
  | .ok n => match Reg.ofNat? n with
    | none => .error .badRegister
    | some r => .ok (.register r)

end Nic.Token
