/-
The binary form, said without the reader.

`Block.Encoding` says which bytes are a block, and `Block.Bad` which bytes do not begin with one and
why. Any bytes are a sequence of blocks, or such a sequence up to a bad one
(`Block.sequence_or_broken`). Of the blocks, the last image and the last table count, and of the
labels the last one with each name (`Block.Prevails`). `BinaryReading` puts this together to the
outcome for any bytes, and `ofBinary_outcomes` says that it is the outcome of the reader.

Only one direction needs the reader: bytes that have an outcome are read with this outcome. As any
bytes have one, the other direction follows.
-/
import Mathlib.Data.List.Induction
import Nic.Proofs.Executable.Binary

set_option autoImplicit false

namespace Nic.Executable

namespace Block

/-! ## Bad blocks -/

/-- Bytes that do not begin with a block, and what is wrong with them: they end before a field or
before the end of what a field announces, the name of a label is no text, or there is no such kind
of block. -/
inductive Bad : List Byte → ExecutableFault → Prop where
  | imageCount {bytes : List Byte} (h : bytes.length < 2) : Bad (0x00 :: bytes) .tooShort
  | imageCells {count bytes : List Byte} (hcount : count.length = 2)
    (h : bytes.length < (leNat count + 1) / 2) : Bad (0x00 :: (count ++ bytes)) .tooShort
  | tableCounts {bytes : List Byte} (h : bytes.length < 4) : Bad (0x01 :: bytes) .tooShort
  | labelFields {bytes : List Byte} (h : bytes.length < 18) : Bad (0x02 :: bytes) .tooShort
  | labelName {address start size bytes : List Byte} (haddress : address.length = 2)
    (hstart : start.length = 8) (hsize : size.length = 8) (h : bytes.length < leNat size) :
    Bad (0x02 :: (address ++ start ++ size ++ bytes)) .tooShort
  | labelText {address start size text bytes : List Byte} (haddress : address.length = 2)
    (hstart : start.length = 8) (hsize : size.length = 8) (htext : text.length = leNat size)
    (h : ∀ name, utf8Bytes name ≠ text) :
    Bad (0x02 :: (address ++ start ++ size ++ text ++ bytes)) .malformed
  | unknown {kind : Byte} {bytes : List Byte} (h : kind ≠ 0x00 ∧ kind ≠ 0x01 ∧ kind ≠ 0x02) :
    Bad (kind :: bytes) .malformed

theorem exists_front (bytes : List Byte) {n : Nat} (h : n ≤ bytes.length) :
    ∃ front rest, bytes = front ++ rest ∧ front.length = n :=
  ⟨bytes.take n, bytes.drop n, (List.take_append_drop n bytes).symm, List.length_take_of_le h⟩

/-- **Bytes begin with a block or are bad.** -/
theorem encoding_or_bad (kind : Byte) (bytes : List Byte) :
    (∃ b front rest, kind :: bytes = front ++ rest ∧ Encoding b front) ∨
      ∃ fault, Bad (kind :: bytes) fault := by
  by_cases himage : kind = 0x00
  · subst himage
    by_cases hshort : bytes.length < 2
    · exact .inr ⟨_, .imageCount hshort⟩
    obtain ⟨count, bytes, rfl, hcount⟩ := exists_front bytes (Nat.le_of_not_lt hshort)
    by_cases hcells : bytes.length < (leNat count + 1) / 2
    · exact .inr ⟨_, .imageCells hcount hcells⟩
    obtain ⟨packed, rest, rfl, hpacked⟩ := exists_front bytes (Nat.le_of_not_lt hcells)
    have hdigits := length_flatMap_digits packed
    refine .inl ⟨_, 0x00 :: (count ++ packed), rest, ?_, .image hcount ?_
      (List.take_append_drop (leNat count) _).symm ?_⟩
    · simp only [List.cons_append, List.append_assoc]
    · rw [List.length_take]
      omega
    · rw [List.length_drop]
      omega
  by_cases htable : kind = 0x01
  · subst htable
    by_cases hshort : bytes.length < 4
    · exact .inr ⟨_, .tableCounts hshort⟩
    obtain ⟨first, bytes, rfl, hfirst⟩ := exists_front bytes (n := 2) (by omega)
    rw [List.length_append] at hshort
    obtain ⟨second, rest, rfl, hsecond⟩ := exists_front bytes (n := 2) (by omega)
    refine .inl ⟨_, 0x01 :: (first ++ second), rest, ?_, .table hfirst hsecond⟩
    simp only [List.cons_append, List.append_assoc]
  by_cases hlabel : kind = 0x02
  · subst hlabel
    by_cases hshort : bytes.length < 18
    · exact .inr ⟨_, .labelFields hshort⟩
    obtain ⟨address, bytes, rfl, haddress⟩ := exists_front bytes (n := 2) (by omega)
    rw [List.length_append] at hshort
    obtain ⟨start, bytes, rfl, hstart⟩ := exists_front bytes (n := 8) (by omega)
    rw [List.length_append] at hshort
    obtain ⟨size, bytes, rfl, hsize⟩ := exists_front bytes (n := 8) (by omega)
    rw [← List.append_assoc, ← List.append_assoc]
    by_cases hname : bytes.length < leNat size
    · exact .inr ⟨_, .labelName haddress hstart hsize hname⟩
    obtain ⟨text, rest, rfl, htext⟩ := exists_front bytes (Nat.le_of_not_lt hname)
    by_cases hutf8 : ∃ name, utf8Bytes name = text
    · obtain ⟨name, rfl⟩ := hutf8
      refine .inl ⟨_, 0x02 :: (address ++ start ++ size ++ utf8Bytes name), rest, ?_,
        .label haddress hstart hsize htext⟩
      simp only [List.cons_append, List.append_assoc]
    · rw [← List.append_assoc]
      exact .inr ⟨_, .labelText haddress hstart hsize htext (not_exists.mp hutf8)⟩
  · exact .inr ⟨_, .unknown ⟨himage, htable, hlabel⟩⟩

/-! ## Refusing bad blocks -/

theorem slice_of_short {bytes : List Byte} {offset width : Nat}
    (h : bytes.length < offset + width) : slice bytes offset width = .error .tooShort :=
  if_pos h

/-- Reading ends in `tooShort` if a field is cut off, or if what goes on after it ends so. -/
theorem bind_slice_of_short {α : Type} {bytes : List Byte} {offset width : Nat}
    {f : List Byte → Except ExecutableFault α}
    (h : offset + width ≤ bytes.length → ∀ cut, f cut = .error .tooShort) :
    slice bytes offset width >>= f = .error .tooShort := by
  rcases Nat.lt_or_ge bytes.length (offset + width) with hshort | hlong
  · rw [slice_of_short hshort]
    rfl
  · rw [slice, if_neg (Nat.not_lt.mpr hlong)]
    exact h hlong _

/-- **A bad block is refused with its fault.** -/
theorem read_of_bad {bytes : List Byte} {fault : ExecutableFault} (h : Bad bytes fault) :
    ∃ kind body, bytes = kind :: body ∧ read kind body = .error fault := by
  cases h with
  | imageCount h =>
    refine ⟨_, _, rfl, ?_⟩
    rw [read, if_pos rfl]
    exact bind_slice_of_short fun hlong => by omega
  | @imageCells count bytes hcount h =>
    refine ⟨_, _, rfl, ?_⟩
    have hslice : slice (count ++ bytes) 0 2 = .ok count := slice_append [] _ _ rfl hcount
    have hcells : slice (count ++ bytes) 2 ((leNat count + 1) / 2) = .error .tooShort := by
      apply slice_of_short
      rw [List.length_append]
      omega
    rw [read, if_pos rfl, hslice]
    simp only [bind, Except.bind, hcells]
  | tableCounts h =>
    refine ⟨_, _, rfl, ?_⟩
    rw [read, if_neg (by decide), if_pos rfl]
    refine bind_slice_of_short fun _ first => ?_
    exact bind_slice_of_short fun hlong => by omega
  | labelFields h =>
    refine ⟨_, _, rfl, ?_⟩
    rw [read, if_neg (by decide), if_neg (by decide), if_pos rfl]
    refine bind_slice_of_short fun _ address => bind_slice_of_short fun _ start => ?_
    exact bind_slice_of_short fun hlong => by omega
  | @labelName address start size bytes haddress hstart hsize h =>
    refine ⟨_, _, rfl, ?_⟩
    have hname : slice (address ++ start ++ size ++ bytes) 18 (leNat size) = .error .tooShort := by
      apply slice_of_short
      simp only [List.length_append]
      omega
    rw [read, if_neg (by decide), if_neg (by decide), if_pos rfl]
    simp only [slice_label haddress hstart hsize bytes, hname, bind, Except.bind]
  | @labelText address start size text bytes haddress hstart hsize htext h =>
    refine ⟨_, _, rfl, ?_⟩
    have hfields := slice_label haddress hstart hsize (text ++ bytes)
    rw [← List.append_assoc] at hfields
    have hname : ofUtf8Bytes? text = none := by
      rw [Option.eq_none_iff_forall_ne_some]
      exact fun name hname => h name (utf8Bytes_of_ofUtf8Bytes? hname)
    rw [read, if_neg (by decide), if_neg (by decide), if_pos rfl]
    simp only [hfields, slice_name haddress hstart hsize htext bytes, hname, bind, Except.bind]
    rfl
  | unknown h =>
    refine ⟨_, _, rfl, ?_⟩
    rw [read, if_neg h.1, if_neg h.2.1, if_neg h.2.2]
    rfl

/-! ## Sequences of blocks -/

/-- Bytes that are blocks, one after the other. -/
inductive Sequence : List Byte → List Block → Prop where
  | nil : Sequence [] []
  | cons {b : Block} {front rest : List Byte} {blocks : List Block} (hb : Encoding b front)
    (h : Sequence rest blocks) : Sequence (front ++ rest) (b :: blocks)

/-- Bytes that are blocks up to a bad one. -/
inductive Broken : List Byte → ExecutableFault → Prop where
  | here {bytes : List Byte} {fault : ExecutableFault} (h : Bad bytes fault) : Broken bytes fault
  | later {b : Block} {front rest : List Byte} {fault : ExecutableFault} (hb : Encoding b front)
    (h : Broken rest fault) : Broken (front ++ rest) fault

theorem Encoding.length_pos {b : Block} {bytes : List Byte} (h : Encoding b bytes) :
    0 < bytes.length := by
  cases h <;> exact Nat.succ_pos _

/-- **Bytes are blocks, or blocks up to a bad one.** -/
theorem sequence_or_broken (bytes : List Byte) :
    (∃ blocks, Sequence bytes blocks) ∨ ∃ fault, Broken bytes fault := by
  induction hn : bytes.length using Nat.strong_induction_on generalizing bytes with
  | _ n ih =>
    cases bytes with
    | nil => exact .inl ⟨[], .nil⟩
    | cons kind bytes =>
      rcases encoding_or_bad kind bytes with ⟨b, front, rest, hsplit, hb⟩ | ⟨fault, hbad⟩
      · have hpos := hb.length_pos
        rw [hsplit, List.length_append] at hn
        rw [hsplit]
        rcases ih rest.length (by omega) rest rfl with ⟨blocks, h⟩ | ⟨fault, h⟩
        · exact .inl ⟨b :: blocks, .cons hb h⟩
        · exact .inr ⟨fault, .later hb h⟩
      · exact .inr ⟨fault, .here hbad⟩

theorem readAll_of_sequence {bytes : List Byte} {blocks : List Block} (h : Sequence bytes blocks) :
    readAll bytes = .ok blocks := by
  induction h with
  | nil => rw [readAll]
  | cons hb h ih =>
    rw [readAll_of_encoding hb, ih]
    rfl

theorem readAll_of_broken {bytes : List Byte} {fault : ExecutableFault} (h : Broken bytes fault) :
    readAll bytes = .error fault := by
  induction h with
  | here h =>
    obtain ⟨kind, body, rfl, hread⟩ := read_of_bad h
    rw [readAll, hread]
    rfl
  | later hb h ih =>
    rw [readAll_of_encoding hb, ih]
    rfl

/-! ## The blocks that count -/

/-- A block takes the place of an earlier one: an image that of an image, a table that of a table,
and a label that of a label with the same name. -/
def Replaces : Block → Block → Prop
  | image _, image _ => True
  | table _ _, table _ _ => True
  | label name _, label name' _ => name = name'
  | _, _ => False

/-- A block is among others, and none of those after it takes its place. -/
def Prevails (blocks : List Block) (b : Block) : Prop :=
  ∃ before after, blocks = before ++ b :: after ∧ ∀ c ∈ after, ¬ c.Replaces b

theorem Prevails.mem {blocks : List Block} {b : Block} (h : Prevails blocks b) : b ∈ blocks := by
  obtain ⟨before, after, rfl, -⟩ := h
  exact List.mem_append_right _ List.mem_cons_self

theorem not_prevails_nil (b : Block) : ¬ Prevails [] b := by
  intro h
  cases h.mem

/-- With one more block at the end, this block counts, and all others whose place it does not
take. -/
theorem prevails_concat {blocks : List Block} {b c : Block} :
    Prevails (blocks ++ [c]) b ↔ c = b ∨ (Prevails blocks b ∧ ¬ c.Replaces b) := by
  constructor
  · rintro ⟨before, after, hsplit, hafter⟩
    induction after using List.reverseRecOn with
    | nil =>
      have hlast := List.append_inj_right' hsplit rfl
      exact .inl (List.head_eq_of_cons_eq hlast)
    | append_singleton after d _ =>
      rw [← List.cons_append, ← List.append_assoc] at hsplit
      obtain ⟨rfl, hlast⟩ := List.append_inj' hsplit rfl
      obtain rfl := List.head_eq_of_cons_eq hlast
      refine .inr ⟨⟨before, after, rfl, fun d hd => ?_⟩, ?_⟩
      · exact hafter d (List.mem_append_left _ hd)
      · exact hafter c (List.mem_append_right _ List.mem_cons_self)
  · rintro (rfl | ⟨⟨before, after, rfl, hafter⟩, hc⟩)
    · exact ⟨blocks, [], rfl, fun d hd => absurd hd List.not_mem_nil⟩
    · refine ⟨before, after ++ [c], by simp, fun d hd => ?_⟩
      rcases List.mem_append.mp hd with hd | hd
      · exact hafter d hd
      · rw [List.mem_singleton.mp hd]
        exact hc

theorem cells?_eq_some_iff {b : Block} {cells : List Nibble} :
    b.cells? = some cells ↔ b = .image cells := by
  cases b <;> simp [cells?]

section Kinds

/-! A kind of block is given by what its blocks hold, and by the block that holds it. -/

variable {α : Type} {content? : Block → Option α} {holding : α → Block}
  (hkind : ∀ {b a}, content? b = some a ↔ b = holding a)

include hkind

theorem filterMap_eq_nil_iff_not_mem {blocks : List Block} :
    blocks.filterMap content? = [] ↔ ∀ a, holding a ∉ blocks := by
  rw [List.filterMap_eq_nil_iff]
  constructor
  · intro h a ha
    have hsome : content? (holding a) = some a := hkind.mpr rfl
    rw [h _ ha] at hsome
    cases hsome
  · intro h b hb
    rw [Option.eq_none_iff_forall_ne_some]
    intro a ha
    rw [hkind.mp ha] at hb
    exact h a hb

/-- The last content of a kind is that of the block that counts, if each block of the kind takes the
place of all others. -/
theorem getLast?_filterMap_iff
    (hreplaces : ∀ c a, c.Replaces (holding a) ↔ (content? c).isSome = true)
    {blocks : List Block} {a : α} :
    (blocks.filterMap content?).getLast? = some a ↔ Prevails blocks (holding a) := by
  induction blocks using List.reverseRecOn with
  | nil => simp [not_prevails_nil]
  | append_singleton blocks c ih =>
    rw [prevails_concat, List.filterMap_append, ← ih, hreplaces, ← hkind]
    cases hc : content? c <;> simp [hc]

end Kinds

theorem getLast?_cells_iff {blocks : List Block} {cells : List Nibble} :
    (blocks.filterMap cells?).getLast? = some cells ↔ Prevails blocks (.image cells) :=
  getLast?_filterMap_iff cells?_eq_some_iff fun c _ => by cases c <;> simp [cells?, Replaces]

theorem getLast?_counts_iff {blocks : List Block} {counts : Nat × Nat} :
    (blocks.filterMap counts?).getLast? = some counts ↔
      Prevails blocks (.table counts.1 counts.2) :=
  getLast?_filterMap_iff counts?_eq_some_iff fun c _ => by cases c <;> simp [counts?, Replaces]

end Block

open Block

theorem labelsOfBlocks_concat (blocks : List Block) (c : Block) :
    labelsOfBlocks (blocks ++ [c]) =
      match c with
      | .label name symbol => (labelsOfBlocks blocks).insert name symbol
      | _ => labelsOfBlocks blocks := by
  rw [labelsOfBlocks, List.filterMap_append, List.foldl_append]
  cases c <;> rfl

theorem getElem?_labelsOfBlocks_iff {blocks : List Block} {name : String} {symbol : Symbol} :
    (labelsOfBlocks blocks)[name]? = some symbol ↔ Prevails blocks (.label name symbol) := by
  induction blocks using List.reverseRecOn with
  | nil => simp [not_prevails_nil, labelsOfBlocks]
  | append_singleton blocks c ih =>
    rw [prevails_concat, ← ih, labelsOfBlocks_concat]
    cases c with
    | label name' symbol' =>
      simp only [Std.ExtTreeMap.getElem?_insert, Std.LawfulEqCmp.compare_eq_iff_eq, Replaces,
        Block.label.injEq]
      by_cases hname : name' = name
      · simp [hname]
      · simp [hname]
    | _ => simp [Replaces]

/-! ## The executable of blocks -/

/-- What comes of blocks: there must be an image, which must fit into memory, and labels must have a
table. -/
inductive MadeOf (blocks : List Block) : Except ExecutableFault Executable → Prop where
  | noImage (h : ∀ cells, .image cells ∉ blocks) : MadeOf blocks (.error .tooShort)
  | tooLarge {cells : List Nibble} (himage : Prevails blocks (.image cells))
    (h : 256 < cells.length) : MadeOf blocks (.error (.tooLarge cells.length))
  | noTable {cells : List Nibble} (himage : Prevails blocks (.image cells))
    (hsize : cells.length ≤ 256)
    (htable : ∀ instrCount imageSize, .table instrCount imageSize ∉ blocks)
    (h : ∃ name symbol, .label name symbol ∈ blocks) : MadeOf blocks (.error .malformed)
  | image {cells : List Nibble} (himage : Prevails blocks (.image cells))
    (hsize : cells.length ≤ 256)
    (htable : ∀ instrCount imageSize, .table instrCount imageSize ∉ blocks)
    (h : ∀ name symbol, .label name symbol ∉ blocks) : MadeOf blocks (.ok ⟨cells, none⟩)
  | symbols {cells : List Nibble} {instrCount imageSize : Nat}
    {labels : Std.ExtTreeMap String Symbol} (himage : Prevails blocks (.image cells))
    (hsize : cells.length ≤ 256) (htable : Prevails blocks (.table instrCount imageSize))
    (h : ∀ name symbol, labels[name]? = some symbol ↔ Prevails blocks (.label name symbol)) :
    MadeOf blocks (.ok ⟨cells, some ⟨labels, instrCount, imageSize⟩⟩)

theorem counts_eq_nil_iff {blocks : List Block} :
    blocks.filterMap counts? = [] ↔
      ∀ instrCount imageSize, .table instrCount imageSize ∉ blocks := by
  rw [filterMap_eq_nil_iff_not_mem counts?_eq_some_iff, Prod.forall]

theorem entries_eq_nil_iff {blocks : List Block} :
    blocks.filterMap entry? = [] ↔ ∀ name symbol, .label name symbol ∉ blocks := by
  rw [filterMap_eq_nil_iff_not_mem entry?_eq_some_iff, Prod.forall]

/-- **What comes of blocks is what is made of them.** -/
theorem madeOf_ofBlocks (blocks : List Block) : MadeOf blocks (ofBlocks blocks) := by
  rw [ofBlocks]
  split
  next hnone =>
    rw [List.getLast?_eq_none_iff, filterMap_eq_nil_iff_not_mem cells?_eq_some_iff] at hnone
    exact .noImage hnone
  next cells hcells =>
    rw [getLast?_cells_iff] at hcells
    rw [ofImage]
    split
    next hlarge => exact .tooLarge hcells hlarge
    next hsize =>
      replace hsize : cells.length ≤ 256 := Nat.le_of_not_lt hsize
      simp only [bind, Except.bind]
      split
      next instrCount imageSize hcounts =>
        exact .symbols hcells hsize (getLast?_counts_iff.mp hcounts) fun _ _ =>
          getElem?_labelsOfBlocks_iff
      next hnone =>
        rw [List.getLast?_eq_none_iff, counts_eq_nil_iff] at hnone
        split
        next hempty =>
          rw [List.isEmpty_iff, entries_eq_nil_iff] at hempty
          exact .image hcells hsize hnone hempty
        next hlabels =>
          rw [List.isEmpty_iff, entries_eq_nil_iff] at hlabels
          exact .noTable hcells hsize hnone (by simpa using hlabels)

theorem ofBlocks_of_madeOf {blocks : List Block} {r : Except ExecutableFault Executable}
    (h : MadeOf blocks r) : ofBlocks blocks = r := by
  have himage {cells : List Nibble} (hsize : cells.length ≤ 256) :
      ofImage cells = .ok ⟨cells, none⟩ := ofImage_eq_ok_iff.mpr ⟨hsize, rfl⟩
  cases h with
  | noImage h =>
    rw [ofBlocks, (filterMap_eq_nil_iff_not_mem cells?_eq_some_iff).mpr h]
    rfl
  | @tooLarge cells hcells h =>
    have hlarge : ofImage cells = .error (.tooLarge cells.length) := if_pos h
    simp only [ofBlocks, getLast?_cells_iff.mpr hcells, hlarge]
    rfl
  | noTable hcells hsize htable h =>
    have hlabels : (blocks.filterMap entry?).isEmpty = false := by
      rw [Bool.eq_false_iff, Ne, List.isEmpty_iff, entries_eq_nil_iff]
      simpa using h
    simp only [ofBlocks, getLast?_cells_iff.mpr hcells, himage hsize, counts_eq_nil_iff.mpr htable,
      hlabels]
    rfl
  | image hcells hsize htable h =>
    simp only [ofBlocks, getLast?_cells_iff.mpr hcells, himage hsize, counts_eq_nil_iff.mpr htable,
      entries_eq_nil_iff.mpr h]
    rfl
  | @symbols cells instrCount imageSize labels hcells hsize htable h =>
    have hcounts : (blocks.filterMap counts?).getLast? = some (instrCount, imageSize) :=
      getLast?_counts_iff.mpr htable
    have hlabels : labelsOfBlocks blocks = labels := by
      ext1 name
      ext1 symbol
      exact getElem?_labelsOfBlocks_iff.trans (h name symbol).symm
    simp only [ofBlocks, getLast?_cells_iff.mpr hcells, himage hsize, hcounts, hlabels]
    rfl

/-- What is made of blocks depends on the blocks of each kind, not on how the kinds are mixed. -/
theorem ofBlocks_congr {blocks blocks' : List Block}
    (hcells : blocks.filterMap cells? = blocks'.filterMap cells?)
    (hcounts : blocks.filterMap counts? = blocks'.filterMap counts?)
    (hentries : blocks.filterMap entry? = blocks'.filterMap entry?) :
    ofBlocks blocks = ofBlocks blocks' := by
  rw [ofBlocks, ofBlocks, labelsOfBlocks, labelsOfBlocks, hcells, hcounts, hentries]

/-! ## Any bytes -/

/-- What any bytes are read as. -/
inductive BinaryReading : List Byte → Except ExecutableFault Executable → Prop where
  | badHeader {bytes : List Byte} (h : ¬ [0x6e, 0x69, 0x63, 0x1f, 0x00, 0x01] <+: bytes) :
    BinaryReading bytes (.error .badHeader)
  | broken {bytes : List Byte} {fault : ExecutableFault} (h : Broken bytes fault) :
    BinaryReading ([0x6e, 0x69, 0x63, 0x1f, 0x00, 0x01] ++ bytes) (.error fault)
  | blocks {bytes : List Byte} {blocks : List Block} {r : Except ExecutableFault Executable}
    (h : Sequence bytes blocks) (hr : MadeOf blocks r) :
    BinaryReading ([0x6e, 0x69, 0x63, 0x1f, 0x00, 0x01] ++ bytes) r

theorem ofBinary_of_reading {bytes : List Byte} {r : Except ExecutableFault Executable}
    (h : BinaryReading bytes r) : ofBinary bytes = r := by
  cases h with
  | badHeader h =>
    rw [ofBinary, if_neg]
    intro htake
    have hprefix := List.take_prefix binaryHeader.length bytes
    rw [htake] at hprefix
    exact h hprefix
  | broken h =>
    refine (ofBinary_of_header _).trans ?_
    rw [readAll_of_broken h]
    rfl
  | blocks h hr =>
    refine (ofBinary_of_header _).trans ?_
    rw [readAll_of_sequence h]
    exact ofBlocks_of_madeOf hr

theorem exists_reading (bytes : List Byte) : ∃ r, BinaryReading bytes r := by
  by_cases hheader : binaryHeader <+: bytes
  · obtain ⟨rest, rfl⟩ := hheader
    rcases sequence_or_broken rest with ⟨blocks, h⟩ | ⟨fault, h⟩
    · exact ⟨_, .blocks h (madeOf_ofBlocks blocks)⟩
    · exact ⟨_, .broken h⟩
  · exact ⟨_, .badHeader hheader⟩

/-- Nothing but a bad header is reported as such. -/
theorem BinaryReading.not_header {bytes : List Byte} (h : BinaryReading bytes (.error .badHeader)) :
    ¬ [0x6e, 0x69, 0x63, 0x1f, 0x00, 0x01] <+: bytes := by
  have hbroken : ∀ bytes, ¬ Broken bytes .badHeader := by
    intro bytes h
    generalize hfault : ExecutableFault.badHeader = fault at h
    induction h with
    | here h => cases h <;> cases hfault
    | later _ _ ih => exact ih hfault
  cases h with
  | badHeader h => exact h
  | broken h => exact absurd h (hbroken _)
  | blocks _ hr => cases hr

/-- **The reader accepts exactly the binary form.** Whatever the bytes are, they are read as
`BinaryReading` says: without the header they are refused; a bad block decides the fault if all
blocks before it are well formed; and if all are, an executable is made of those that count. The way
in which images, tables and labels are mixed is of no matter. -/
theorem ofBinary_outcomes :
    (∀ bytes r, ofBinary bytes = r ↔ BinaryReading bytes r) ∧
    (∀ bytes, ofBinary bytes = .error .badHeader ↔
      ¬ [0x6e, 0x69, 0x63, 0x1f, 0x00, 0x01] <+: bytes) ∧
    ∀ {bytes bytes' : List Byte} {blocks blocks' : List Block},
      Sequence bytes blocks → Sequence bytes' blocks' →
      blocks.filterMap cells? = blocks'.filterMap cells? →
      blocks.filterMap counts? = blocks'.filterMap counts? →
      blocks.filterMap entry? = blocks'.filterMap entry? →
      ofBinary (binaryHeader ++ bytes) = ofBinary (binaryHeader ++ bytes') := by
  have hiff : ∀ bytes r, ofBinary bytes = r ↔ BinaryReading bytes r := by
    intro bytes r
    constructor
    · intro hread
      obtain ⟨r', h⟩ := exists_reading bytes
      rwa [← hread, ofBinary_of_reading h]
    · exact ofBinary_of_reading
  refine ⟨hiff, fun bytes => ?_, fun h h' hcells hcounts hentries => ?_⟩
  · rw [hiff]
    exact ⟨BinaryReading.not_header, .badHeader⟩
  · rw [ofBinary_of_header, ofBinary_of_header, readAll_of_sequence h, readAll_of_sequence h']
    exact ofBlocks_congr hcells hcounts hentries

/-- A label before its table and after it, and an image with either digit left over. -/
theorem ofBinary_outcomes_mixed :
    let label : List Byte := [0x02, 4, 0, 0, 0, 0, 0, 0, 0, 0, 0, 1, 0, 0, 0, 0, 0, 0, 0, 0x41]
    let table : List Byte := [0x01, 1, 0, 12, 0]
    ofBinary (binaryHeader ++ (label ++ ([0x00, 1, 0, 0x5f] ++ (table ++ [])))) =
      ofBinary (binaryHeader ++ ([0x00, 1, 0, 0x50] ++ (table ++ (label ++ [])))) := by
  intro label table
  have hlabel : Encoding (.label "A" ⟨4, 0⟩) label :=
    @Encoding.label [4, 0] [0, 0, 0, 0, 0, 0, 0, 0] [1, 0, 0, 0, 0, 0, 0, 0] "A" rfl rfl rfl
      (by decide +kernel)
  have htable : Encoding (.table 1 12) table := @Encoding.table [1, 0] [12, 0] rfl rfl
  have himage : ∀ d : Nibble, Encoding (.image [5]) [0x00, 1, 0, Byte.ofDigits 5 d] := by
    intro d
    refine @Encoding.image [1, 0] [Byte.ofDigits 5 d] [5] [d] rfl rfl ?_ Nat.one_lt_two
    simp [Byte.digits]
  exact ofBinary_outcomes.2.2 (.cons hlabel (.cons (himage 15) (.cons htable .nil)))
    (.cons (himage 0) (.cons htable (.cons hlabel .nil))) rfl rfl rfl

end Nic.Executable
