/-
Executables as bytes, with their symbols.

The form is a header and a sequence of blocks; numbers have their least significant byte first:

    header    6e 69 63 1f, then the version 00 01
    image     00, cells (2 bytes), the cells two to a byte, the first one in the high digit
    table     01, instructions (2 bytes), cells of the image (2 bytes)
    label     02, address (2 bytes), offset in the source (8 bytes),
              bytes of the name (8 bytes), the name in UTF-8

Blocks may come in any order when they are read; of several images or tables, and of several
labels with one name, the last one counts.
-/
import Nic.Executable

set_option autoImplicit false

namespace Nic.Executable

/-! ## Numbers and cells -/

/-- A number in a number of bytes, the least significant one first. -/
def leBytes : Nat → Nat → List Byte
  | 0, _ => []
  | width + 1, n => BitVec.ofNat 8 n :: leBytes width (n / 256)

/-- The number that bytes stand for, the least significant one first. -/
def leNat (bytes : List Byte) : Nat :=
  bytes.foldr (fun b n => b.toNat + 256 * n) 0

/-- Cells two to a byte; a last single cell is followed by a zero. -/
def packCells : List Nibble → List Byte
  | [] => []
  | [high] => [Byte.ofDigits high 0]
  | high :: low :: rest => Byte.ofDigits high low :: packCells rest

/-- The bytes of a text. -/
def utf8Bytes (s : String) : List Byte :=
  s.toUTF8.data.toList.map UInt8.toBitVec

/-- The text that bytes stand for, if they do. -/
def ofUtf8Bytes? (bytes : List Byte) : Option String :=
  String.fromUTF8? ⟨(bytes.map UInt8.ofBitVec).toArray⟩

/-! ## Blocks -/

/-- One block. -/
inductive Block where
  | image (cells : List Nibble)
  | table (instrCount imageSize : Nat)
  | label (name : String) (symbol : Symbol)
deriving DecidableEq, Repr

namespace Block

/-- The bytes of a block. -/
def bytes : Block → List Byte
  | image cells => 0x00 :: leBytes 2 cells.length ++ packCells cells
  | table instrCount imageSize => 0x01 :: leBytes 2 instrCount ++ leBytes 2 imageSize
  | label name symbol =>
    0x02 :: leBytes 2 symbol.address.toNat ++ leBytes 8 symbol.start ++
      leBytes 8 name.utf8ByteSize ++ utf8Bytes name

/-- Some of the bytes after a block's first (`take_slice`). -/
def slice (bytes : List Byte) (offset width : Nat) : Except ExecutableFault (List Byte) :=
  if bytes.length < offset + width then .error .tooShort
  else .ok ((bytes.drop offset).take width)

/-- Reads a block from its first byte and the bytes after it (one turn of the loop of
`BinaryFormat::deserialize`); gives also the number of these that belong to the block. -/
def read (kind : Byte) (bytes : List Byte) : Except ExecutableFault (Block × Nat) := do
  if kind = 0x00 then
    let cells := leNat (← slice bytes 0 2)
    let width := (cells + 1) / 2
    let packed ← slice bytes 2 width
    return (image ((packed.flatMap Byte.digits).take cells), 2 + width)
  else if kind = 0x01 then
    let instrCount := leNat (← slice bytes 0 2)
    let imageSize := leNat (← slice bytes 2 2)
    return (table instrCount imageSize, 4)
  else if kind = 0x02 then
    let address := leNat (← slice bytes 0 2)
    let start := leNat (← slice bytes 2 8)
    let width := leNat (← slice bytes 10 8)
    let utf8 ← slice bytes 18 width
    match ofUtf8Bytes? utf8 with
    | some name => return (label name ⟨BitVec.ofNat 16 address, start⟩, 18 + width)
    | none => throw .malformed
  else throw .malformed

/-- Reads every block. -/
def readAll : List Byte → Except ExecutableFault (List Block)
  | [] => .ok []
  | kind :: bytes => do
    let (block, more) ← read kind bytes
    return block :: (← readAll (bytes.drop more))
termination_by bytes => bytes.length

/-- The cells of an image. -/
def cells? : Block → Option (List Nibble)
  | image cells => some cells
  | _ => none

/-- The numbers of a table. -/
def counts? : Block → Option (Nat × Nat)
  | table instrCount imageSize => some (instrCount, imageSize)
  | _ => none

/-- The name and the symbol of a label. -/
def entry? : Block → Option (String × Symbol)
  | label name symbol => some (name, symbol)
  | _ => none

end Block

/-! ## Executables -/

/-- The start of every executable in binary form: a mark and the version (`BFMT_MAGIC` and
`BFMT_VER`). -/
def binaryHeader : List Byte := [0x6e, 0x69, 0x63, 0x1f, 0x00, 0x01]

/-- The blocks of an executable but for its labels. -/
def fixedBlocks (e : Executable) : List Block :=
  .image e.image :: match e.symbols with
    | none => []
    | some symbols => [.table symbols.instrCount symbols.imageSize]

/-- The blocks of an executable's labels. -/
def labelBlocks (e : Executable) : List Block :=
  match e.symbols with
  | none => []
  | some symbols => symbols.labels.toList.map fun (name, symbol) => .label name symbol

/-- The header and blocks, as bytes. -/
def bytesOfBlocks (blocks : List Block) : List Byte :=
  binaryHeader ++ blocks.flatMap Block.bytes

/-- An executable as bytes (`BinaryFormat::serialize`). -/
def toBinary (e : Executable) : List Byte :=
  bytesOfBlocks (e.fixedBlocks ++ e.labelBlocks)

/-- The labels among blocks; of those with one name, the last. -/
def labelsOfBlocks (blocks : List Block) : Std.ExtTreeMap String Symbol :=
  (blocks.filterMap Block.entry?).foldl (fun labels (name, symbol) => labels.insert name symbol) ∅

/-- The executable that blocks make up (the end of `BinaryFormat::deserialize`). -/
def ofBlocks (blocks : List Block) : Except ExecutableFault Executable :=
  match (blocks.filterMap Block.cells?).getLast? with
  | none => .error .tooShort
  | some image => do
    let e ← ofImage image
    match (blocks.filterMap Block.counts?).getLast? with
    | some (instrCount, imageSize) =>
      return { e with symbols := some ⟨labelsOfBlocks blocks, instrCount, imageSize⟩ }
    | none =>
      if (blocks.filterMap Block.entry?).isEmpty then return e else throw .malformed

/-- Reads an executable from bytes (`BinaryFormat::deserialize`). -/
def ofBinary (bytes : List Byte) : Except ExecutableFault Executable :=
  if bytes.take binaryHeader.length = binaryHeader then
    Block.readAll (bytes.drop binaryHeader.length) >>= ofBlocks
  else .error .badHeader

end Nic.Executable
