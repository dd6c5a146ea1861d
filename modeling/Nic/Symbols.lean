/-
Symbol tables: the address of each label of a program.

Names are kept in their capital form, and a name is looked up by its capital form, so the case of
a name does not matter.
-/
import Std.Data.ExtTreeMap
import Nic.Text.Decimal
import Nic.Text.Quoted
import Nic.Text.Span
import Nic.Text.Uppercase
import Nic.Word

set_option autoImplicit false

namespace Nic

/-- What is known of a label (`SymbolData`): its address, and the offset of its definition in the
source. -/
structure Symbol where
  address : Word
  start : Nat
deriving DecidableEq, Repr

/-- The place of a definition (`SymbolData::span`), taken to be as long as the name it is kept
under. -/
def Symbol.span (s : Symbol) (key : String) : Span :=
  ⟨s.start, s.start + key.utf8ByteSize⟩

/-- The symbols of a program (`SymbolTable`): its labels, the number of its instructions and the
number of cells of its image. -/
structure Symbols where
  labels : Std.ExtTreeMap String Symbol
  instrCount : Nat
  imageSize : Nat
deriving DecidableEq

namespace Symbols

/-- The symbol of a name in any case. -/
def find? (s : Symbols) (name : String) : Option Symbol :=
  s.labels[Text.uppercase name]?

/-- The address of a label (`SymbolTable::lookup_label`). -/
def address? (s : Symbols) (name : String) : Option Word :=
  (s.find? name).map (·.address)

/-- The place where a label is defined (`SymbolTable::get_label_source`). -/
def source? (s : Symbols) (name : String) : Option Span :=
  (s.find? name).map (·.span (Text.uppercase name))

/-- The labels at an address, by name. -/
def labelsAt (s : Symbols) (address : Word) : List (String × Symbol) :=
  s.labels.toList.filter (·.2.address == address)

/-- Of the labels at an address, the one that is defined first in the source
(`SymbolTable::rev_lookup_label`); of two that start at one offset, the one with the smaller
name. -/
def labelAt? (s : Symbols) (address : Word) : Option String :=
  ((s.labelsAt address).foldr (fun entry (first : Option (String × Symbol)) =>
    match first with
    | none => some entry
    | some other =>
      if entry.2.start ≤ other.2.start then some entry else some other) none).map (·.1)

/-- A summary of the table (`SymbolTable::fmt`), with addresses in at least two hexadecimal
digits. -/
def summary (s : Symbols) : String :=
  let entry := fun (name, symbol) =>
    let digits := Text.hexNat (Symbol.address symbol).toNat
    Text.quote name ++ ": 0x" ++ String.ofList (List.replicate (2 - digits.length) '0' ++ digits)
  "SymbolTable \x7b label_map: \x7b" ++ ", ".intercalate (s.labels.toList.map entry) ++
    "\x7d, instr_count: " ++ Text.decimal s.instrCount ++
    ", image_len: " ++ Text.decimal s.imageSize ++ " \x7d"

end Symbols

end Nic
