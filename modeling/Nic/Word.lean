/-
The units of the machine: a memory cell holds four bits, a register eight, an instruction
sixteen.

Bytes and words are written over cells with the most significant digit first, so each of them
is read here as the sequence of its hexadecimal digits.

Here and in all other modules, a name such as `Machine::set_reg` in parentheses is that of the item
of the assembler or the simulator that a definition models.
-/

set_option autoImplicit false

namespace Nic

/-- Four bits: a memory cell, and one hexadecimal digit of an instruction. -/
abbrev Nibble := BitVec 4

/-- Eight bits: a register, an address, the operand of an instruction. -/
abbrev Byte := BitVec 8

/-- Sixteen bits: an instruction. -/
abbrev Word := BitVec 16

/-! ## Bytes -/

namespace Byte

/-- The byte with these two digits. -/
def ofDigits (high low : Nibble) : Byte := high ++ low

/-- The more significant digit. -/
def high (b : Byte) : Nibble := b.extractLsb' 4 4

/-- The less significant digit. -/
def low (b : Byte) : Nibble := b.extractLsb' 0 4

/-- Both digits, the more significant one first. -/
def digits (b : Byte) : List Nibble := [high b, low b]

/-- The largest multiple of four that is not above `b`: the place of an instruction. -/
def aligned (b : Byte) : Byte := b &&& 0xfc#8

/-- Moves the bits of `b` to the left by `amount`, read as a signed number (`shift`): to the right
if it is negative. Bits that leave the byte are lost and zeros follow. -/
def shift (b amount : Byte) : Byte :=
  if amount.msb then b >>> (-amount).toNat else b <<< amount.toNat

/-- The least value that a byte operand may be written as (`BYTE_MIN`). -/
def minValue : Int := -128

/-- The greatest value that a byte operand may be written as (`BYTE_MAX`). -/
def maxValue : Int := 255

/-- The byte that stands for a value (`fit_byte`), which is taken modulo 256: bytes may be written
as signed or as unsigned numbers, and nothing else fits. -/
def fit? (v : Int) : Option Byte :=
  if minValue ≤ v ∧ v ≤ maxValue then some (BitVec.ofInt 8 v) else none

@[simp] theorem high_ofDigits (h l : Nibble) : high (ofDigits h l) = h := by
  simp only [high, ofDigits]
  exact BitVec.extractLsb'_append_eq_left

@[simp] theorem low_ofDigits (h l : Nibble) : low (ofDigits h l) = l := by
  simp only [low, ofDigits]
  exact BitVec.extractLsb'_append_eq_right

@[simp] theorem ofDigits_high_low (b : Byte) : ofDigits (high b) (low b) = b := by
  simp only [high, low, ofDigits]
  ext i hi
  simp only [BitVec.getElem_append, BitVec.getElem_extractLsb']
  split
  · simp [BitVec.getLsbD_eq_getElem hi]
  · rw [show 4 + (i - 4) = i by omega, BitVec.getLsbD_eq_getElem hi]

end Byte

/-! ## Words -/

namespace Word

/-- The word with these two bytes. -/
def ofBytes (high low : Byte) : Word := high ++ low

/-- The more significant byte. -/
def highByte (w : Word) : Byte := w.extractLsb' 8 8

/-- The less significant byte. -/
def lowByte (w : Word) : Byte := w.extractLsb' 0 8

/-- The four digits, the most significant one first. -/
def digits (w : Word) : List Nibble := w.highByte.digits ++ w.lowByte.digits

@[simp] theorem highByte_ofBytes (h l : Byte) : highByte (ofBytes h l) = h := by
  simp only [highByte, ofBytes]
  exact BitVec.extractLsb'_append_eq_left

@[simp] theorem lowByte_ofBytes (h l : Byte) : lowByte (ofBytes h l) = l := by
  simp only [lowByte, ofBytes]
  exact BitVec.extractLsb'_append_eq_right

@[simp] theorem ofBytes_highByte_lowByte (w : Word) : ofBytes (highByte w) (lowByte w) = w := by
  simp only [highByte, lowByte, ofBytes]
  ext i hi
  simp only [BitVec.getElem_append, BitVec.getElem_extractLsb']
  split
  · simp [BitVec.getLsbD_eq_getElem hi]
  · rw [show 8 + (i - 8) = i by omega, BitVec.getLsbD_eq_getElem hi]

end Word

end Nic
