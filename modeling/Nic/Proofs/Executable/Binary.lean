/-
Writing and reading executables as bytes.

`Block.Encoding` says which bytes are a block. They are read as this block, whatever bytes follow
(`Block.read_of_encoding`). A block is written as bytes that are this block if its numbers have room
in their fields: `Block.Fits`. So a sequence of blocks that fit is split where it was joined
(`Block.readAll_bytes`), and the reader gives no other blocks (`Block.fits_of_mem_readAll`). An
executable all of whose blocks fit is read back from them, with its labels in any order:
`ofBinary_of_perm`.
-/
import Mathlib.Algebra.Ring.Nat
import Nic.Executable.Binary

set_option autoImplicit false

namespace Nic

/-- What comes out of two computations, one after the other. -/
theorem bind_eq_ok_iff {ε α β : Type} {f : α → Except ε β} {r : Except ε α} {b : β} :
    r >>= f = .ok b ↔ ∃ a, r = .ok a ∧ f a = .ok b := by
  cases r <;> simp [bind, Except.bind]

namespace Executable

/-! ## Numbers -/

theorem length_leBytes (width n : Nat) : (leBytes width n).length = width := by
  induction width generalizing n with
  | zero => rfl
  | succ width ih => rw [leBytes, List.length_cons, ih]

/-- A number is read back from its bytes, if they are enough for it. -/
theorem leNat_leBytes {width n : Nat} (h : n < 256 ^ width) : leNat (leBytes width n) = n := by
  induction width generalizing n with
  | zero =>
    rw [Nat.pow_zero, Nat.lt_one_iff] at h
    exact h.symm
  | succ width ih =>
    -- the first byte is the remainder, the others are the quotient
    have hdiv : n / 256 < 256 ^ width := by
      rw [Nat.pow_succ] at h
      exact Nat.div_lt_of_lt_mul (Nat.mul_comm _ _ ▸ h)
    have hrest : leNat (leBytes width (n / 256)) = n / 256 := ih hdiv
    rw [leNat] at hrest ⊢
    rw [leBytes, List.foldr_cons, hrest, BitVec.toNat_ofNat]
    exact Nat.mod_add_div n 256

theorem leNat_lt (bytes : List Byte) : leNat bytes < 256 ^ bytes.length := by
  induction bytes with
  | nil => exact Nat.one_pos
  | cons b bytes ih =>
    have hb : b.toNat < 256 := b.isLt
    rw [leNat] at ih ⊢
    rw [List.foldr_cons, List.length_cons, Nat.pow_succ]
    omega

/-! ## Cells -/

theorem length_packCells (cells : List Nibble) :
    (packCells cells).length = (cells.length + 1) / 2 := by
  fun_induction packCells cells with
  | case1 => rfl
  | case2 high => simp
  | case3 high low rest ih =>
    rw [List.length_cons, ih, List.length_cons, List.length_cons]
    omega

theorem length_flatMap_digits (bytes : List Byte) :
    (bytes.flatMap Byte.digits).length = 2 * bytes.length := by
  induction bytes with
  | nil => rfl
  | cons b bytes ih =>
    rw [List.flatMap_cons, List.length_append, ih, List.length_cons, Byte.digits]
    simp only [List.length_cons, List.length_nil]
    omega

/-- Cells are read back from their bytes; the zero after a last single cell is cut off. -/
theorem take_packCells (cells : List Nibble) :
    ((packCells cells).flatMap Byte.digits).take cells.length = cells := by
  fun_induction packCells cells with
  | case1 => rfl
  | case2 high => simp [Byte.digits]
  | case3 high low rest ih => simp [Byte.digits, ih]

/-! ## Texts -/

theorem length_utf8Bytes (s : String) : (utf8Bytes s).length = s.utf8ByteSize := by
  rw [utf8Bytes, List.length_map]
  rfl

theorem ofBitVec_toBitVec (octets : List UInt8) :
    (octets.map UInt8.toBitVec).map UInt8.ofBitVec = octets := by
  rw [List.map_map]
  exact List.map_id octets

theorem ofUtf8Bytes?_utf8Bytes (s : String) : ofUtf8Bytes? (utf8Bytes s) = some s := by
  rw [ofUtf8Bytes?, utf8Bytes, ofBitVec_toBitVec, String.fromUTF8?]
  exact dif_pos s.isValidUTF8

theorem utf8Bytes_of_ofUtf8Bytes? {bytes : List Byte} {s : String}
    (h : ofUtf8Bytes? bytes = some s) : utf8Bytes s = bytes := by
  rw [ofUtf8Bytes?, String.fromUTF8?] at h
  split at h
  · cases h
    rw [utf8Bytes]
    exact (List.map_map ..).trans (List.map_id bytes)
  · cases h

theorem utf8ByteSize_of_ofUtf8Bytes? {bytes : List Byte} {s : String}
    (h : ofUtf8Bytes? bytes = some s) : s.utf8ByteSize = bytes.length := by
  rw [← utf8Bytes_of_ofUtf8Bytes? h, length_utf8Bytes]

/-! ## Blocks -/

namespace Block

/-- The numbers of a block have room in their fields. The address of a label is a word, and has. -/
def Fits : Block → Prop
  | image cells => cells.length < 256 ^ 2
  | table instrCount imageSize => instrCount < 256 ^ 2 ∧ imageSize < 256 ^ 2
  | label name symbol => symbol.start < 256 ^ 8 ∧ name.utf8ByteSize < 256 ^ 8

/-- Cutting out what was put between other bytes. -/
theorem slice_append (before field after : List Byte) {offset width : Nat}
    (hoffset : before.length = offset) (hwidth : field.length = width) :
    slice (before ++ field ++ after) offset width = .ok field := by
  subst hoffset hwidth
  rw [slice, if_neg, List.append_assoc, List.drop_left, List.take_left]
  simp only [List.length_append]
  omega

theorem length_of_slice {bytes cut : List Byte} {offset width : Nat}
    (h : slice bytes offset width = .ok cut) : cut.length = width := by
  unfold slice at h
  split at h
  · cases h
  · cases h
    rw [List.length_take, List.length_drop]
    omega

theorem leNat_lt_of_slice {bytes cut : List Byte} {offset width : Nat}
    (h : slice bytes offset width = .ok cut) : leNat cut < 256 ^ width := by
  rw [← length_of_slice h]
  exact leNat_lt cut

section Fields

/-! Each kind of block is read from fields of the right lengths, whatever is in them and whatever
follows. -/

variable {address start size text count first second packed : List Byte}

theorem read_image (hcount : count.length = 2) (hpacked : packed.length = (leNat count + 1) / 2)
    (rest : List Byte) :
    read 0x00 (count ++ packed ++ rest) =
      .ok (image ((packed.flatMap Byte.digits).take (leNat count)), 2 + (leNat count + 1) / 2) := by
  have hslice₀ : slice (count ++ packed ++ rest) 0 2 = .ok count := by
    rw [List.append_assoc]
    exact slice_append [] _ _ rfl hcount
  have hslice₁ := slice_append _ _ rest hcount hpacked
  rw [read, if_pos rfl]
  simp only [hslice₀, hslice₁, bind, Except.bind, pure, Except.pure]

theorem read_table (hfirst : first.length = 2) (hsecond : second.length = 2) (rest : List Byte) :
    read 0x01 (first ++ second ++ rest) = .ok (table (leNat first) (leNat second), 4) := by
  have hslice₀ : slice (first ++ second ++ rest) 0 2 = .ok first := by
    rw [List.append_assoc]
    exact slice_append [] _ _ rfl hfirst
  have hslice₁ := slice_append _ _ rest hfirst hsecond
  rw [read, if_neg (by decide), if_pos rfl]
  simp only [hslice₀, hslice₁, bind, Except.bind, pure, Except.pure]

/-- A field of a label is where the fields before it end. -/
theorem slice_label (haddress : address.length = 2) (hstart : start.length = 8)
    (hsize : size.length = 8) (rest : List Byte) :
    slice (address ++ start ++ size ++ rest) 0 2 = .ok address ∧
      slice (address ++ start ++ size ++ rest) 2 8 = .ok start ∧
      slice (address ++ start ++ size ++ rest) 10 8 = .ok size := by
  refine ⟨?_, ?_, ?_⟩
  · rw [List.append_assoc, List.append_assoc]
    exact slice_append [] _ _ rfl haddress
  · rw [List.append_assoc]
    exact slice_append _ _ _ haddress hstart
  · refine slice_append _ _ _ ?_ hsize
    rw [List.length_append, haddress, hstart]

/-- The name of a label is behind its other fields. -/
theorem slice_name (haddress : address.length = 2) (hstart : start.length = 8)
    (hsize : size.length = 8) (htext : text.length = leNat size) (rest : List Byte) :
    slice (address ++ start ++ size ++ text ++ rest) 18 (leNat size) = .ok text := by
  refine slice_append _ _ _ ?_ htext
  rw [List.length_append, List.length_append, haddress, hstart, hsize]

theorem read_label (haddress : address.length = 2) (hstart : start.length = 8)
    (hsize : size.length = 8) (htext : text.length = leNat size) {name : String}
    (hname : ofUtf8Bytes? text = some name) (rest : List Byte) :
    read 0x02 (address ++ start ++ size ++ text ++ rest) =
      .ok (label name ⟨BitVec.ofNat 16 (leNat address), leNat start⟩, 18 + leNat size) := by
  have hfields := slice_label haddress hstart hsize (text ++ rest)
  rw [← List.append_assoc] at hfields
  rw [read, if_neg (by decide), if_neg (by decide), if_pos rfl]
  simp only [hfields, slice_name haddress hstart hsize htext rest, hname, bind, Except.bind, pure,
    Except.pure]

end Fields

/-! ## The bytes of a block -/

/-- The bytes of a block. An image has its cells as digits of bytes; if their number is odd, one
digit is left over, and nothing is said about it. -/
inductive Encoding : Block → List Byte → Prop where
  | image {count packed : List Byte} {cells spare : List Nibble} (hcount : count.length = 2)
    (hcells : cells.length = leNat count) (hpacked : packed.flatMap Byte.digits = cells ++ spare)
    (hspare : spare.length < 2) : Encoding (.image cells) (0x00 :: (count ++ packed))
  | table {first second : List Byte} (hfirst : first.length = 2) (hsecond : second.length = 2) :
    Encoding (.table (leNat first) (leNat second)) (0x01 :: (first ++ second))
  | label {address start size : List Byte} {name : String} (haddress : address.length = 2)
    (hstart : start.length = 8) (hsize : size.length = 8)
    (hname : (utf8Bytes name).length = leNat size) :
    Encoding (.label name ⟨BitVec.ofNat 16 (leNat address), leNat start⟩)
      (0x02 :: (address ++ start ++ size ++ utf8Bytes name))

/-- The number of cells decides how many bytes they take. -/
theorem length_packed {count packed : List Byte} {cells spare : List Nibble}
    (hcells : cells.length = leNat count) (hpacked : packed.flatMap Byte.digits = cells ++ spare)
    (hspare : spare.length < 2) : packed.length = (leNat count + 1) / 2 := by
  have hdigits := length_flatMap_digits packed
  rw [hpacked, List.length_append] at hdigits
  omega

/-- **A block is read from its bytes**, whatever bytes follow. -/
theorem read_of_encoding {b : Block} {bytes : List Byte} (h : Encoding b bytes) :
    ∃ kind body, bytes = kind :: body ∧
      ∀ rest, read kind (body ++ rest) = .ok (b, body.length) := by
  cases h with
  | @image count packed cells spare hcount hcells hpacked hspare =>
    refine ⟨_, _, rfl, fun rest => ?_⟩
    have hlength := length_packed hcells hpacked hspare
    rw [read_image hcount hlength, hpacked, List.take_left' hcells, List.length_append, hcount,
      hlength]
  | table hfirst hsecond =>
    refine ⟨_, _, rfl, fun rest => ?_⟩
    rw [read_table hfirst hsecond, List.length_append, hfirst, hsecond]
  | @label address start size name haddress hstart hsize hname =>
    refine ⟨_, _, rfl, fun rest => ?_⟩
    rw [read_label haddress hstart hsize hname (ofUtf8Bytes?_utf8Bytes name)]
    simp only [List.length_append, haddress, hstart, hsize, hname]

/-- The bytes that a block is written as are bytes of it. -/
theorem encoding_bytes {b : Block} (hb : b.Fits) : Encoding b b.bytes := by
  cases b with
  | image cells =>
    have hcount : leNat (leBytes 2 cells.length) = cells.length := leNat_leBytes hb
    have hsplit := List.take_append_drop cells.length ((packCells cells).flatMap Byte.digits)
    rw [take_packCells] at hsplit
    refine .image (length_leBytes _ _) hcount.symm hsplit.symm ?_
    rw [List.length_drop, length_flatMap_digits, length_packCells]
    omega
  | table instrCount imageSize =>
    have htable := Encoding.table (length_leBytes 2 instrCount) (length_leBytes 2 imageSize)
    rwa [leNat_leBytes hb.1, leNat_leBytes hb.2] at htable
  | label name symbol =>
    have haddress : leNat (leBytes 2 symbol.address.toNat) = symbol.address.toNat :=
      leNat_leBytes symbol.address.isLt
    have hname : (utf8Bytes name).length = leNat (leBytes 8 name.utf8ByteSize) := by
      rw [length_utf8Bytes, leNat_leBytes hb.2]
    have hlabel := Encoding.label (length_leBytes 2 symbol.address.toNat)
      (length_leBytes 8 symbol.start) (length_leBytes 8 name.utf8ByteSize) hname
    rwa [haddress, leNat_leBytes hb.1, BitVec.ofNat_toNat, BitVec.setWidth_eq] at hlabel

theorem readAll_of_encoding {b : Block} {front : List Byte} (h : Encoding b front)
    (rest : List Byte) : readAll (front ++ rest) = (b :: ·) <$> readAll rest := by
  obtain ⟨kind, body, rfl, hread⟩ := read_of_encoding h
  rw [List.cons_append, readAll, hread]
  simp only [bind, Except.bind, List.drop_left]
  cases readAll rest <;> rfl

/-- **Blocks are split where they were joined.** -/
theorem readAll_bytes {blocks : List Block} (h : ∀ b ∈ blocks, b.Fits) :
    readAll (blocks.flatMap bytes) = .ok blocks := by
  induction blocks with
  | nil => rw [List.flatMap_nil, readAll]
  | cons b blocks ih =>
    -- the bytes of the other blocks are the rest that the first one leaves
    have hb := encoding_bytes (h b List.mem_cons_self)
    rw [List.flatMap_cons, readAll_of_encoding hb, ih fun c hc => h c (List.mem_cons_of_mem _ hc)]
    rfl

/-- What the reader takes for a block has room in its fields. -/
theorem fits_of_read {kind : Byte} {bytes : List Byte} {b : Block} {more : Nat}
    (h : read kind bytes = .ok (b, more)) : b.Fits := by
  -- every number of a block was read from a field, and the name from as many bytes as one says
  unfold read at h
  split at h
  · obtain ⟨count, hcount, h⟩ := bind_eq_ok_iff.mp h
    obtain ⟨packed, -, h⟩ := bind_eq_ok_iff.mp h
    cases h
    refine Nat.lt_of_le_of_lt ?_ (leNat_lt_of_slice hcount)
    rw [List.length_take]
    exact Nat.min_le_left _ _
  · split at h
    · obtain ⟨first, hfirst, h⟩ := bind_eq_ok_iff.mp h
      obtain ⟨second, hsecond, h⟩ := bind_eq_ok_iff.mp h
      cases h
      exact ⟨leNat_lt_of_slice hfirst, leNat_lt_of_slice hsecond⟩
    · split at h
      · obtain ⟨address, -, h⟩ := bind_eq_ok_iff.mp h
        obtain ⟨start, hstart, h⟩ := bind_eq_ok_iff.mp h
        obtain ⟨size, hsize, h⟩ := bind_eq_ok_iff.mp h
        obtain ⟨text, htext, h⟩ := bind_eq_ok_iff.mp h
        split at h
        · rename_i name hname
          cases h
          refine ⟨leNat_lt_of_slice hstart, ?_⟩
          rw [utf8ByteSize_of_ofUtf8Bytes? hname, length_of_slice htext]
          exact leNat_lt_of_slice hsize
        · cases h
      · cases h

/-- The reader gives only blocks that could have been written. -/
theorem fits_of_mem_readAll {bytes : List Byte} {blocks : List Block}
    (h : readAll bytes = .ok blocks) : ∀ b ∈ blocks, b.Fits := by
  fun_induction readAll bytes generalizing blocks with
  | case1 =>
    cases h
    intro b hb
    cases hb
  | case2 kind bytes ih =>
    obtain ⟨⟨b, more⟩, hread, h⟩ := bind_eq_ok_iff.mp h
    obtain ⟨rest, hrest, h⟩ := bind_eq_ok_iff.mp h
    cases h
    intro c hc
    rcases List.mem_cons.mp hc with rfl | hc
    · exact fits_of_read hread
    · exact ih _ hrest c hc

end Block

/-! ## From blocks to labels -/

theorem Block.counts?_eq_some_iff {b : Block} {counts : Nat × Nat} :
    b.counts? = some counts ↔ b = .table counts.1 counts.2 := by
  cases b <;> simp [counts?, Prod.ext_iff]

theorem Block.entry?_eq_some_iff {b : Block} {entry : String × Symbol} :
    b.entry? = some entry ↔ b = .label entry.1 entry.2 := by
  cases b <;> simp [Prod.ext_iff, entry?]

theorem labelsOfBlocks_eq_insertMany (blocks : List Block) :
    labelsOfBlocks blocks =
      (∅ : Std.ExtTreeMap String Symbol).insertMany (blocks.filterMap Block.entry?) :=
  Std.ExtTreeMap.insertMany_list_eq_foldl.symm

/-- The entries of a table make up the table, in whatever order they come. -/
theorem labelsOfBlocks_of_perm {blocks : List Block} {labels : Std.ExtTreeMap String Symbol}
    (h : (blocks.filterMap Block.entry?).Perm labels.toList) : labelsOfBlocks blocks = labels := by
  have hdistinct : (blocks.filterMap Block.entry?).Pairwise fun x y => ¬ compare x.1 y.1 = .eq :=
    Std.ExtTreeMap.distinct_keys_toList.perm h.symm fun hne heq =>
      hne (Std.OrientedCmp.eq_symm heq)
  rw [labelsOfBlocks_eq_insertMany]
  -- each name is looked up in both tables; it has one entry at most, so the order is no matter
  ext1 name
  cases hname : labels[name]? with
  | some symbol =>
    have hmem : (name, symbol) ∈ blocks.filterMap Block.entry? :=
      h.mem_iff.mpr (Std.ExtTreeMap.mem_toList_iff_getElem?_eq_some.mpr hname)
    exact Std.ExtTreeMap.getElem?_insertMany_list_of_mem Std.ReflCmp.compare_self hdistinct hmem
  | none =>
    rw [Std.ExtTreeMap.getElem?_insertMany_list_of_contains_eq_false]
    · exact Std.ExtTreeMap.getElem?_empty
    · rw [← Bool.not_eq_true, List.contains_iff_mem]
      intro hmem
      obtain ⟨⟨name, symbol⟩, hentry, rfl⟩ := List.mem_map.mp hmem
      have hsome := Std.ExtTreeMap.mem_toList_iff_getElem?_eq_some.mp (h.mem_iff.mp hentry)
      rw [hname] at hsome
      cases hsome

/-- Every label of the table comes from a block. -/
theorem mem_of_labelsOfBlocks {blocks : List Block} {name : String} {symbol : Symbol}
    (h : (labelsOfBlocks blocks)[name]? = some symbol) : .label name symbol ∈ blocks := by
  rw [labelsOfBlocks_eq_insertMany, Std.ExtTreeMap.getElem?_insertMany_list,
    Std.ExtTreeMap.getElem?_empty, Option.or_none, List.findSomeRev?_eq_findSome?_reverse] at h
  obtain ⟨⟨name', symbol'⟩, hmem, hsame⟩ := List.exists_of_findSome?_eq_some h
  obtain ⟨b, hb, hentry⟩ := List.mem_filterMap.mp (List.mem_reverse.mp hmem)
  dsimp only at hsame
  split at hsame
  · rename_i hname
    cases hsame
    rw [← Std.LawfulEqCmp.eq_of_compare hname, ← Block.entry?_eq_some_iff.mp hentry]
    exact hb
  · cases hsame

/-! ## Executables -/

/-- The image is no larger than the memory, and the blocks of the executable can be written. -/
structure Storable (e : Executable) : Prop where
  image : e.image.length ≤ memoryCells
  blocks : ∀ b ∈ e.fixedBlocks ++ e.labelBlocks, b.Fits

theorem ofImage_eq_ok_iff {image : List Nibble} {e : Executable} :
    ofImage image = .ok e ↔ image.length ≤ memoryCells ∧ e = ⟨image, none⟩ := by
  unfold ofImage
  split
  · simp only [reduceCtorEq, false_iff, not_and]
    omega
  · rename_i h
    simp only [Except.ok.injEq, eq_comm (a := e), iff_and_self]
    omega

theorem filterMap_map_eq_nil {α β γ : Type} {f : β → Option γ} {g : α → β} {l : List α}
    (h : ∀ a, f (g a) = none) : (l.map g).filterMap f = [] := by
  rw [List.filterMap_map, List.filterMap_eq_nil_iff]
  exact fun a _ => h a

/-- The labels of an executable are the entries of its table. -/
theorem filterMap_entry?_labelBlocks {e : Executable} {symbols : Symbols}
    (h : e.symbols = some symbols) :
    e.labelBlocks.filterMap Block.entry? = symbols.labels.toList := by
  rw [labelBlocks, h, List.filterMap_map]
  exact List.filterMap_some

/-- The blocks of an executable make it up, whatever the order of its labels. -/
theorem ofBlocks_of_perm {e : Executable} (he : e.image.length ≤ memoryCells) {blocks : List Block}
    (h : blocks.Perm e.labelBlocks) : ofBlocks (e.fixedBlocks ++ blocks) = .ok e := by
  obtain ⟨image, symbols⟩ := e
  have himage : ofImage image = .ok ⟨image, none⟩ := ofImage_eq_ok_iff.mpr ⟨he, rfl⟩
  cases symbols with
  | none =>
    obtain rfl := List.perm_nil.mp h
    simp only [ofBlocks, fixedBlocks, List.append_nil, List.filterMap, Block.cells?, Block.counts?,
      Block.entry?, List.getLast?_singleton, himage]
    rfl
  | some symbols =>
    -- among the labels there is no image and no table, so those of the executable are the last
    have hcells : blocks.filterMap Block.cells? = [] :=
      List.perm_nil.mp ((h.filterMap _).trans (.of_eq (filterMap_map_eq_nil fun _ => rfl)))
    have hcounts : blocks.filterMap Block.counts? = [] :=
      List.perm_nil.mp ((h.filterMap _).trans (.of_eq (filterMap_map_eq_nil fun _ => rfl)))
    have hlabels : labelsOfBlocks (fixedBlocks ⟨image, some symbols⟩ ++ blocks) = symbols.labels :=
      labelsOfBlocks_of_perm ((h.filterMap Block.entry?).trans
        (.of_eq (filterMap_entry?_labelBlocks rfl)))
    rw [ofBlocks, List.filterMap_append, List.filterMap_append, hcells, hcounts, hlabels]
    simp only [fixedBlocks, List.filterMap, Block.cells?, Block.counts?, List.append_nil,
      List.getLast?_singleton, himage]
    rfl

/-- The executable that blocks make up can be written if they could. -/
theorem storable_of_ofBlocks {blocks : List Block} (hfits : ∀ b ∈ blocks, b.Fits) {e : Executable}
    (h : ofBlocks blocks = .ok e) : e.Storable := by
  unfold ofBlocks at h
  split at h
  · cases h
  · rename_i image himage
    obtain ⟨_, hload, h⟩ := bind_eq_ok_iff.mp h
    obtain ⟨hsize, rfl⟩ := ofImage_eq_ok_iff.mp hload
    have hcells : (Block.image image).Fits := Nat.lt_of_le_of_lt hsize (by decide)
    split at h
    · rename_i instrCount imageSize hcounts
      cases h
      obtain ⟨t, ht, htable⟩ := List.mem_filterMap.mp (List.mem_of_getLast? hcounts)
      rw [Block.counts?_eq_some_iff.mp htable] at ht
      refine ⟨hsize, fun b hb => ?_⟩
      rcases List.mem_append.mp hb with hb | hb
      · rcases List.mem_cons.mp hb with rfl | hb
        · exact hcells
        · rw [List.mem_singleton.mp hb]
          exact hfits _ ht
      · obtain ⟨⟨name, symbol⟩, hentry, rfl⟩ := List.mem_map.mp hb
        exact hfits _ (mem_of_labelsOfBlocks
          (Std.ExtTreeMap.mem_toList_iff_getElem?_eq_some.mp hentry))
    · split at h
      · cases h
        exact ⟨hsize, fun b hb => by rw [List.mem_singleton.mp hb]; exact hcells⟩
      · cases h

/-- What is read can be written. -/
theorem storable_of_ofBinary {bytes : List Byte} {e : Executable} (h : ofBinary bytes = .ok e) :
    e.Storable := by
  unfold ofBinary at h
  split at h
  · obtain ⟨blocks, hread, h⟩ := bind_eq_ok_iff.mp h
    exact storable_of_ofBlocks (Block.fits_of_mem_readAll hread) h
  · cases h

theorem ofBinary_of_header (bytes : List Byte) :
    ofBinary (binaryHeader ++ bytes) = Block.readAll bytes >>= ofBlocks := by
  rw [ofBinary, List.take_left, if_pos rfl, List.drop_left]

theorem Storable.fits_of_perm {e : Executable} (he : e.Storable) {blocks : List Block}
    (h : blocks.Perm e.labelBlocks) : ∀ b ∈ e.fixedBlocks ++ blocks, b.Fits := by
  intro b hb
  exact he.blocks b ((h.append_left _).mem_iff.mp hb)

/-- **What is written can be read**, with the labels in any order. -/
theorem ofBinary_of_perm {e : Executable} (he : e.Storable) {blocks : List Block}
    (h : blocks.Perm e.labelBlocks) :
    ofBinary (bytesOfBlocks (e.fixedBlocks ++ blocks)) = .ok e := by
  rw [bytesOfBlocks, ofBinary_of_header, Block.readAll_bytes (he.fits_of_perm h)]
  exact ofBlocks_of_perm he.image h

end Executable

end Nic
