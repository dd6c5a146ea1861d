/-
The memory, and a memory that has a byte for each cell.

A cell has four bits, so there is nothing to be said about what it may hold. Where a cell is kept in
a byte, four of the bits have to stay zero: every change leaves out what it is given above the low
digit, and bytes and words are put together from cells without looking at these bits again.
`ByteMemory` is such a memory, with the same changes (`Memory.Edit`). It shows the cells of the
memory after any sequence of changes, if it did so before (`ByteMemory.Shows.editAll`), or if the
first change is to clear it (`ByteMemory.shows_clear`); then its cells are below 16, and bytes and
words are read from it as they are from the memory.

Bytes at neighbouring addresses have a digit in common, so a byte that is written changes three of
the bytes that can be read. `Overlaid` says which digits of them it changes. It is proved for the
memory, cell by cell, and holds of cells that are kept in bytes because they are read alike
(`overlapping_bytes`).
-/
import Nic.Memory

set_option autoImplicit false

namespace Nic

/-! ## Digits in bytes and words -/

/-- A digit in a byte of its own. -/
def Nibble.toByte (d : Nibble) : Byte := d.setWidth 8

theorem Nibble.toNat_toByte (d : Nibble) : d.toByte.toNat = d.toNat :=
  BitVec.toNat_setWidth_of_le (by decide)

namespace Byte

@[simp] theorem low_toByte (d : Nibble) : low d.toByte = d := by
  revert d; decide

/-- The low digit is what is left of a byte when the other bits are masked. -/
theorem and_eq_toByte_low (b : Byte) : b &&& 0x0f = (low b).toByte := by
  revert b; decide

theorem shiftRight_eq_toByte_high (b : Byte) : b >>> 4 = (high b).toByte := by
  revert b; decide

theorem toByte_low_of_high {b : Byte} (h : high b = 0) : (low b).toByte = b := by
  revert b; decide

theorem shiftLeft_or_toByte (h l : Nibble) : h.toByte <<< 4 ||| l.toByte = ofDigits h l := by
  revert h l; decide

theorem toNat_ofDigits (h l : Nibble) : (ofDigits h l).toNat = 16 * h.toNat + l.toNat := by
  revert h l; decide

theorem toNat_eq_digits (b : Byte) : b.toNat = 16 * (high b).toNat + (low b).toNat := by
  rw [← toNat_ofDigits, ofDigits_high_low]

theorem toNat_high (b : Byte) : (high b).toNat = b.toNat / 16 := by
  have hdigits := toNat_eq_digits b
  have hlow : (low b).toNat < 16 := (low b).isLt
  omega

theorem toNat_low (b : Byte) : (low b).toNat = b.toNat % 16 := by
  have hdigits := toNat_eq_digits b
  have hlow : (low b).toNat < 16 := (low b).isLt
  omega

end Byte

namespace Word

theorem toNat_ofBytes (h l : Byte) : (ofBytes h l).toNat = 256 * h.toNat + l.toNat := by
  rw [ofBytes, BitVec.toNat_append, Nat.shiftLeft_eq, Nat.mul_comm]
  exact (Nat.two_pow_add_eq_or_of_lt l.isLt h.toNat).symm

/-- Moves the digits of a word to the left and puts a byte behind them. -/
def push (w : Word) (b : Byte) : Word := w <<< 4 ||| b.setWidth 16

/-- A digit that is put behind those of a word, if there is room for it. -/
theorem toNat_push {w : Word} (hw : 16 * w.toNat < 65536) (d : Nibble) :
    (push w d.toByte).toNat = 16 * w.toNat + d.toNat := by
  have hd : (d.toByte.setWidth 16).toNat = d.toNat := by
    rw [BitVec.toNat_setWidth_of_le (by decide), Nibble.toNat_toByte]
  rw [push, BitVec.toNat_or, BitVec.toNat_shiftLeft, Nat.shiftLeft_eq, Nat.mul_comm,
    Nat.mod_eq_of_lt hw, hd]
  exact (Nat.two_pow_add_eq_or_of_lt d.isLt w.toNat).symm

/-- Four digits, one after the other, are the bytes that they are two by two. -/
theorem push_digits (d₀ d₁ d₂ d₃ : Nibble) :
    push (push (push (push 0 d₀.toByte) d₁.toByte) d₂.toByte) d₃.toByte =
      ofBytes (Byte.ofDigits d₀ d₁) (Byte.ofDigits d₂ d₃) := by
  have h₀ : (push 0 d₀.toByte).toNat = 16 * 0 + d₀.toNat := toNat_push (by decide) d₀
  have h₁ := toNat_push (w := push 0 d₀.toByte) (by omega) d₁
  have h₂ := toNat_push (w := push (push 0 d₀.toByte) d₁.toByte) (by omega) d₂
  apply BitVec.eq_of_toNat_eq
  rw [toNat_push (by omega), toNat_ofBytes, Byte.toNat_ofDigits, Byte.toNat_ofDigits]
  omega

end Word

/-! ## Cells -/

namespace Memory

theorem ext_get {m n : Memory} (h : ∀ a, m.get a = n.get a) : m = n := by
  obtain ⟨cells⟩ := m
  obtain ⟨cells'⟩ := n
  refine congrArg Memory.mk (Vector.ext fun i hi => ?_)
  have hindex : (BitVec.ofNat 8 i).toNat = i := by
    rw [BitVec.toNat_ofNat, Nat.mod_eq_of_lt hi]
  have hget := h (BitVec.ofNat 8 i)
  rw [get_eq_getElem _ _ (BitVec.isLt _), get_eq_getElem _ _ (BitVec.isLt _)] at hget
  simpa only [hindex] using hget

theorem get_ofFn (f : Fin 256 → Nibble) (a : Byte) :
    (Memory.mk (Vector.ofFn f)).get a = f a.toFin := by
  rw [get_eq_getElem _ _ a.isLt]
  exact Vector.getElem_ofFn _

theorem get_zero (a : Byte) : zero.get a = 0 := Vector.getElem_replicate _

theorem get_copy (m : Memory) (image : List Nibble) (a : Byte) :
    (m.copy image).get a = image[a.toNat]?.getD (m.get a) := by
  rw [copy, get_ofFn]
  rfl

theorem get_zero_copy (image : List Nibble) (a : Byte) :
    (zero.copy image).get a = image[a.toNat]?.getD 0 := by
  rw [get_copy, get_zero]

/-- The cells are those of an image from address 0 on, and zero after it. -/
def Holds (m : Memory) (image : List Nibble) : Prop :=
  ∀ a, m.get a = image[a.toNat]?.getD 0

/-! ## Changes -/

/-- A change to a memory. Whatever is to be in one cell is given as a byte. -/
inductive Edit where
  | clear
  | set (a b : Byte)
  | writeByte (a b : Byte)
  | copy (bytes : List Byte)

/-- The memory after a change. -/
def edit (m : Memory) : Edit → Memory
  | .clear => zero
  | .set a b => m.setLow a b
  | .writeByte a b => m.writeByte a b
  | .copy bytes => m.copy (bytes.map Byte.low)

/-- The memory after changes, one after the other. -/
def editAll (m : Memory) (edits : List Edit) : Memory := edits.foldl edit m

end Memory

/-! ## A byte for each cell -/

/-- A memory that has a byte for each cell (`Mem`). -/
structure ByteMemory where
  cells : Vector Byte 256

namespace ByteMemory

def zero : ByteMemory := ⟨Vector.replicate 256 0⟩

/-- All of the byte at an address (`Mem::get_raw`). -/
def get (w : ByteMemory) (a : Byte) : Byte := w.cells.get a.toFin

/-- Sets a cell (`Mem::set_raw`), with the upper four bits masked. -/
def set (w : ByteMemory) (a b : Byte) : ByteMemory :=
  ⟨w.cells.setIfInBounds a.toNat (b &&& 0x0f)⟩

/-- The byte at an address (`Mem::read_byte`). Nothing is masked, so this is right only if the cells
are below 16. -/
def readByte (w : ByteMemory) (a : Byte) : Byte := w.get a <<< 4 ||| w.get (a + 1)

def writeByte (w : ByteMemory) (a b : Byte) : ByteMemory :=
  (w.set a (b >>> 4)).set (a + 1) (b &&& 0x0f)

/-- The word at an address (`Mem::read_word`), cell by cell, without a mask either. -/
def readWord (w : ByteMemory) (a : Byte) : Word :=
  ([a, a + 1, a + 2, a + 3].map w.get).foldl Word.push 0

/-- Replaces the cells from address 0 on (`Mem::copy_image`), with the upper bits masked. -/
def copy (w : ByteMemory) (bytes : List Byte) : ByteMemory :=
  ⟨Vector.ofFn fun i => (bytes[i.val]?.map (· &&& 0x0f)).getD (w.cells.get i)⟩

/-- The memory after a change. -/
def edit (w : ByteMemory) : Memory.Edit → ByteMemory
  | .clear => zero
  | .set a b => w.set a b
  | .writeByte a b => w.writeByte a b
  | .copy bytes => w.copy bytes

/-- The memory after changes, one after the other. -/
def editAll (w : ByteMemory) (edits : List Memory.Edit) : ByteMemory := edits.foldl edit w

theorem get_set (w : ByteMemory) (a c b : Byte) :
    (w.set a b).get c = if c = a then (Byte.low b).toByte else w.get c := by
  have hget (v : ByteMemory) : v.get c = v.cells[c.toNat] := rfl
  rw [hget, hget]
  simp only [set, Vector.getElem_setIfInBounds, ← BitVec.toNat_inj, eq_comm, Byte.and_eq_toByte_low]

theorem get_copy (w : ByteMemory) (bytes : List Byte) (a : Byte) :
    (w.copy bytes).get a = ((bytes.map Byte.low)[a.toNat]?.map Nibble.toByte).getD (w.get a) := by
  have hget : (w.copy bytes).get a = (w.copy bytes).cells[a.toNat] := rfl
  rw [hget, copy, Vector.getElem_ofFn, List.getElem?_map, Option.map_map]
  simp only [Byte.and_eq_toByte_low]
  rfl

/-! ## The same cells -/

/-- The bytes are the cells of a memory. -/
def Shows (w : ByteMemory) (m : Memory) : Prop := ∀ a, w.get a = (m.get a).toByte

section Shows

variable {w : ByteMemory} {m : Memory}

theorem shows_zero : zero.Shows .zero := fun a => by
  have hget : zero.get a = 0 := Vector.getElem_replicate _
  rw [hget, Memory.get_zero]
  rfl

variable (h : w.Shows m)

include h

theorem Shows.toNat_get (a : Byte) : (w.get a).toNat = (m.get a).toNat := by
  rw [h a, Nibble.toNat_toByte]

/-- **Cells are below 16.** -/
theorem Shows.get_lt (a : Byte) : (w.get a).toNat < 16 := by
  rw [h.toNat_get]
  exact (m.get a).isLt

theorem Shows.readByte (a : Byte) : w.readByte a = m.readByte a := by
  rw [ByteMemory.readByte, h, h, Byte.shiftLeft_or_toByte]
  rfl

theorem Shows.readWord (a : Byte) : w.readWord a = m.readWord a := by
  have hnext : a + 2 + 1 = a + 3 := BitVec.add_assoc a 2 1
  rw [Memory.readWord, Memory.readByte, Memory.readByte, hnext, ← Word.push_digits,
    ByteMemory.readWord]
  simp only [List.map_cons, List.map_nil, List.foldl_cons, List.foldl_nil, h _]

theorem Shows.set (a b : Byte) : (w.set a b).Shows (m.setLow a b) := fun c => by
  rw [get_set, Memory.setLow, Memory.get_set, h c, apply_ite Nibble.toByte]

/-- **Every change does the same to both**, whatever bytes it is given. -/
theorem Shows.edit (e : Memory.Edit) : (w.edit e).Shows (m.edit e) := by
  cases e with
  | clear => exact shows_zero
  | set a b => exact h.set a b
  | writeByte a b =>
    -- both digits are below 16 before they are masked
    have hhigh : Byte.low (b >>> 4) = Byte.high b := by
      rw [Byte.shiftRight_eq_toByte_high, Byte.low_toByte]
    have hlow : Byte.low (b &&& 0x0f) = Byte.low b := by
      rw [Byte.and_eq_toByte_low, Byte.low_toByte]
    have hwrite := (h.set a (b >>> 4)).set (a + 1) (b &&& 0x0f)
    rw [Memory.setLow, Memory.setLow, hhigh, hlow] at hwrite
    exact hwrite
  | copy bytes =>
    intro a
    rw [ByteMemory.edit, Memory.edit, get_copy, Memory.get_copy, h a]
    cases (bytes.map Byte.low)[a.toNat]? <;> rfl

theorem Shows.editAll (edits : List Memory.Edit) : (w.editAll edits).Shows (m.editAll edits) := by
  induction edits generalizing w m with
  | nil => exact h
  | cons e edits ih => exact ih (h.edit e)

omit h in
/-- Nothing of what was there is left when the memory is cleared. -/
theorem shows_clear (w : ByteMemory) (m : Memory) (edits : List Memory.Edit) :
    (w.editAll (.clear :: edits)).Shows (m.editAll (.clear :: edits)) :=
  shows_zero.editAll edits

end Shows

end ByteMemory

/-! ## Bytes that overlap -/

/-- How the bytes that are read change when `v` is written at `a`: the next byte gets the low digit
of `v` in front of its own low digit, the previous one keeps its high digit and gets the high digit
of `v` behind it. Addresses go round. -/
structure Overlaid (a v : Byte) (before after : Byte → Byte) : Prop where
  here : after a = v
  next : (after (a + 1)).toNat = 16 * (v.toNat % 16) + (before (a + 1)).toNat % 16
  previous : (after (a - 1)).toNat = 16 * ((before (a - 1)).toNat / 16) + v.toNat / 16
  elsewhere : ∀ b, b ≠ a - 1 → b ≠ a → b ≠ a + 1 → after b = before b

namespace Memory

theorem get_writeByte (m : Memory) (a v c : Byte) :
    (m.writeByte a v).get c =
      if c = a + 1 then Byte.low v else if c = a then Byte.high v else m.get c := by
  unfold writeByte
  rw [get_set, get_set]

theorem toNat_readByte (m : Memory) (a : Byte) :
    (m.readByte a).toNat = 16 * (m.get a).toNat + (m.get (a + 1)).toNat :=
  Byte.toNat_ofDigits _ _

/-- **A byte that is written changes one digit of each of its neighbours.** -/
theorem overlaid_writeByte (m : Memory) (a v : Byte) :
    Overlaid a v m.readByte (m.writeByte a v).readByte := by
  have hfirst : (m.writeByte a v).get a = Byte.high v := by
    have hne : a ≠ a + 1 := by bv_omega
    rw [get_writeByte, if_neg hne, if_pos rfl]
  have hsecond : (m.writeByte a v).get (a + 1) = Byte.low v := by
    rw [get_writeByte, if_pos rfl]
  have hother : ∀ c, c ≠ a → c ≠ a + 1 → (m.writeByte a v).get c = m.get c := by
    intro c hc hc'
    rw [get_writeByte, if_neg hc', if_neg hc]
  refine ⟨?_, ?_, ?_, ?_⟩
  · unfold readByte
    rw [hfirst, hsecond, Byte.ofDigits_high_low]
  · -- the next byte shares its high digit with what was written
    have hlow : (m.get (a + 1 + 1)).toNat < 16 := (m.get (a + 1 + 1)).isLt
    rw [toNat_readByte, toNat_readByte, hsecond, hother _ (by bv_omega) (by bv_omega),
      Byte.toNat_low]
    omega
  · -- the previous byte its low digit
    have hnext : a - 1 + 1 = a := by bv_omega
    have hlow : (m.get a).toNat < 16 := (m.get a).isLt
    rw [toNat_readByte, toNat_readByte, hnext, hfirst, hother _ (by bv_omega) (by bv_omega),
      Byte.toNat_high]
    omega
  · intro b hprevious hb hnext
    unfold readByte
    rw [hother b hb hnext, hother (b + 1) (by bv_omega) (by bv_omega)]

/-- A word is two bytes that do not overlap. -/
theorem toNat_readWord (m : Memory) (b : Byte) :
    (m.readWord b).toNat = 256 * (m.readByte b).toNat + (m.readByte (b + 2)).toNat :=
  Word.toNat_ofBytes _ _

end Memory

/-- **Overlapping bytes.** After any sequence of changes, whatever bytes these were given for a
cell, take any byte `v` and any address `a`. When `v` is written at `a`, it is read there; the next
byte has the low digit of `v` and its own low digit, the previous byte its own high digit and the
high digit of `v`, and every other byte is as before. And the word at any address is the byte there
and the one two addresses further. All of this is so for cells of four bits, and for cells that are
kept in bytes. -/
theorem overlapping_bytes (edits : List Memory.Edit) :
    let m := Memory.zero.editAll edits
    let w := ByteMemory.zero.editAll edits
    (∀ a v, Overlaid a v m.readByte (m.writeByte a v).readByte ∧
      Overlaid a v w.readByte (w.writeByte a v).readByte) ∧
    ∀ b, (m.readWord b).toNat = 256 * (m.readByte b).toNat + (m.readByte (b + 2)).toNat ∧
      (w.readWord b).toNat = 256 * (w.readByte b).toNat + (w.readByte (b + 2)).toNat := by
  intro m w
  have hshows : w.Shows m := ByteMemory.shows_zero.editAll edits
  have hread : w.readByte = m.readByte := funext hshows.readByte
  refine ⟨?_, ?_⟩
  · intro a v
    have hwritten : (w.writeByte a v).Shows (m.writeByte a v) := hshows.edit (.writeByte a v)
    have hreread : (w.writeByte a v).readByte = (m.writeByte a v).readByte :=
      funext hwritten.readByte
    rw [hread, hreread]
    exact ⟨m.overlaid_writeByte a v, m.overlaid_writeByte a v⟩
  · intro b
    rw [hshows.readWord, hread]
    exact ⟨m.toNat_readWord b, m.toNat_readWord b⟩

end Nic
