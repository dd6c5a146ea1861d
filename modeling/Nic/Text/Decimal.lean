/-
Decimal numbers: as few digits as the number needs, a sign where one is asked for.
-/

set_option autoImplicit false

namespace Nic.Text

/-- The decimal digits of a number, the most significant one first. -/
def decimalDigits (n : Nat) : List Char :=
  if n < 10 then [Char.ofNat (48 + n)]
  else decimalDigits (n / 10) ++ [Char.ofNat (48 + n % 10)]
termination_by n

/-- A natural number in decimal. -/
def decimal (n : Nat) : String :=
  String.ofList (decimalDigits n)

/-- A number in decimal, with a sign if it is negative. -/
def decimalInt (v : Int) : String :=
  if v < 0 then "-" ++ decimal v.natAbs else decimal v.natAbs

/-- A number in decimal, always with a sign. -/
def decimalSigned (v : Int) : String :=
  if v < 0 then "-" ++ decimal v.natAbs else "+" ++ decimal v.natAbs

end Nic.Text
