/-
Hexadecimal digits: small letters when written, either case when read.
-/
import Nic.Word

set_option autoImplicit false

namespace Nic.Text

/-- The digit for four bits. -/
def hexDigit (n : Nibble) : Char :=
  if n.toNat < 10 then Char.ofNat (48 + n.toNat) else Char.ofNat (87 + n.toNat)

/-- The value of a digit, in either case. -/
def hexValue? (c : Char) : Option Nibble :=
  if '0' ≤ c ∧ c ≤ '9' then some (BitVec.ofNat 4 (c.toNat - 48))
  else if 'a' ≤ c ∧ c ≤ 'f' then some (BitVec.ofNat 4 (c.toNat - 87))
  else if 'A' ≤ c ∧ c ≤ 'F' then some (BitVec.ofNat 4 (c.toNat - 55))
  else none

/-- One digit for each four bits. -/
def hexDigits (ns : List Nibble) : List Char :=
  ns.map hexDigit

/-- A number in as few digits as it needs. -/
def hexNat (n : Nat) : List Char :=
  if n < 16 then [hexDigit (BitVec.ofNat 4 n)]
  else hexNat (n / 16) ++ [hexDigit (BitVec.ofNat 4 (n % 16))]
termination_by n

/-- A byte in two digits. -/
def hexByte (b : Byte) : String :=
  String.ofList (hexDigits b.digits)

/-- A word in four digits. -/
def hexWord (w : Word) : String :=
  String.ofList (hexDigits w.digits)

/-- Reading undoes writing. -/
@[simp] theorem hexValue?_hexDigit (n : Nibble) : hexValue? (hexDigit n) = some n := by
  revert n; decide

end Nic.Text
