/-
Executables as text: a header, one hexadecimal digit for each cell, and a newline.

White space around the text and the case of its letters do not matter when it is read. The
symbols are not part of it.
-/
import Nic.Executable
import Nic.Text.Blank
import Nic.Text.Hex

set_option autoImplicit false

namespace Nic.Executable

/-- The start of every executable in text form (`TextFormat::HEADER`). -/
def textHeader : List Char := ['1', 'f', '1', 'f', '1', 'f', '1', 'f']

/-- An executable as text (`TextFormat::serialize`). -/
def toText (e : Executable) : String :=
  String.ofList (textHeader ++ Text.hexDigits e.image ++ ['\n'])

/-- Takes one more digit: the cells read so far, and the index of the next digit. Indices count
bytes. -/
def addCell (state : Array Nibble × Nat) (c : Char) :
    Except ExecutableFault (Array Nibble × Nat) :=
  match Text.hexValue? c with
  | some d => .ok (state.1.push d, state.2 + c.utf8Size)
  | none => .error (.badDigit state.2)

/-- Reads cells from their digits, given the index of the first. -/
def cellsOfText (index : Nat) (cs : List Char) : Except ExecutableFault (List Nibble) :=
  (·.1.toList) <$> cs.foldlM addCell (#[], index)

/-- Reads an executable from text (`TextFormat::deserialize`). -/
def ofText (text : String) : Except ExecutableFault Executable :=
  let cs := Text.trim text.toList
  if Text.byteLength cs < textHeader.length then .error .tooShort
  else if (cs.take textHeader.length).map Char.toLower ≠ textHeader then .error .badHeader
  else cellsOfText textHeader.length (cs.drop textHeader.length) >>= ofImage

end Nic.Executable
