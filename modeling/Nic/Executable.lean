/-
Executables: the cells that a program is loaded as, and the symbols it was made with.
-/
import Nic.Instruction
import Nic.Symbols

set_option autoImplicit false

namespace Nic

/-- The number of memory cells of the machine (`MEM_CELLS`). -/
def memoryCells : Nat := 256

/-- A program ready to be loaded: its image, which starts at address 0, and its symbols if they are
known. -/
structure Executable where
  image : List Nibble
  symbols : Option Symbols
deriving DecidableEq

/-- Why something is no executable (`ExeErr`). -/
inductive ExecutableFault where
  /-- It ends within its header or within a block. -/
  | tooShort
  /-- It has another header. -/
  | badHeader
  /-- What stands at this index is no hexadecimal digit. -/
  | badDigit (index : Nat)
  /-- The image has this many cells, more than the memory. -/
  | tooLarge (cells : Nat)
  /-- It has a block of an unknown kind, a name that is no text, or labels without their table. -/
  | malformed
deriving DecidableEq, Repr

namespace ExecutableFault

/-- What is wrong, in words (`ExeErr::fmt`). -/
def message : ExecutableFault → String
  | tooShort => "executable ended unexpectedly"
  | badHeader => "executable does not start with the expected header"
  | badDigit index => "invalid hex digit at index " ++ Text.decimal index
  | tooLarge cells =>
    "image has " ++ Text.decimal cells ++ " blocks, but memory only has " ++
      Text.decimal memoryCells
  | malformed => "executable is malformed"

/-- What would be right, in words (`ExeErr::help`). -/
def help : ExecutableFault → Option String
  | badHeader => some "text executables start with \"1f1f1f1f\""
  | tooLarge _ => some "this executable was not produced by the assembler"
  | _ => none

end ExecutableFault

namespace Executable

/-- The executable with an image and without symbols, if the image fits into memory. -/
def ofImage (image : List Nibble) : Except ExecutableFault Executable :=
  if image.length > memoryCells then .error (.tooLarge image.length) else .ok ⟨image, none⟩

/-- The executable with an image that is given by one byte for each cell
(`Executable::from_image`). -/
def ofBytes (bytes : List Byte) : Except ExecutableFault Executable :=
  if bytes.length > memoryCells then .error (.tooLarge bytes.length)
  else match bytes.findIdx? (fun b => b.high ≠ 0) with
    | some index => .error (.badDigit index)
    | none => ofImage (bytes.map Byte.low)

/-- The number of cells (`Executable::len`). -/
def size (e : Executable) : Nat := e.image.length

/-- Whether there are no cells (`Executable::is_empty`). -/
def isEmpty (e : Executable) : Bool := e.image.isEmpty

/-- The executable without its symbols (`Executable::strip_symbols`). -/
def strip (e : Executable) : Executable := { e with symbols := none }

end Executable

end Nic
