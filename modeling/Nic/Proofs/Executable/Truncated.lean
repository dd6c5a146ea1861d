/-
Executables whose bytes are cut off.

There is no count of blocks, so bytes that end between two blocks are read as if they had been
written so. A block that is cut off is never taken for another one: each field has its length from
the kind of the block or from a field before it, so with fewer bytes a field is missing
(`Block.Encoding.bad_take`). Hence the beginning of an executable's bytes is refused or read as the
first ones of its blocks (`Block.take_bytes`), and these say nothing that the executable does not
(`ofBlocks_take`).
-/
import Nic.Proofs.Executable.Format
import Nic.Proofs.Executable.Obtainable

set_option autoImplicit false

namespace Nic.Executable

namespace Block

/-! ## Cutting a block -/

theorem take_append_of_le {front rest : List Byte} {n : Nat} (h : front.length ≤ n) :
    (front ++ rest).take n = front ++ rest.take (n - front.length) := by
  rw [List.take_append, List.take_of_length_le h]

/-- **A block that is cut off is too short**, wherever the cut is. -/
theorem Encoding.bad_take {b : Block} {bytes : List Byte} (h : Encoding b bytes) {n : Nat}
    (hpos : 0 < n) (hn : n < bytes.length) : Bad (bytes.take n) .tooShort := by
  obtain ⟨n, rfl⟩ : ∃ k, n = k + 1 := ⟨n - 1, by omega⟩
  cases h with
  | @image count packed cells spare hcount hcells hpacked hspare =>
    have hlength := length_packed hcells hpacked hspare
    rw [List.length_cons, List.length_append] at hn
    rw [List.take_succ_cons]
    by_cases hshort : n < 2
    · apply Bad.imageCount
      rw [List.length_take]
      omega
    · rw [take_append_of_le (by omega)]
      apply Bad.imageCells hcount
      rw [List.length_take]
      omega
  | @table first second hfirst hsecond =>
    rw [List.length_cons, List.length_append] at hn
    rw [List.take_succ_cons]
    apply Bad.tableCounts
    rw [List.length_take]
    omega
  | @label address start size name haddress hstart hsize hname =>
    have hfields : (address ++ start ++ size).length = 18 := by
      rw [List.length_append, List.length_append, haddress, hstart, hsize]
    rw [List.length_cons, List.length_append, hfields] at hn
    rw [List.take_succ_cons]
    by_cases hshort : n < 18
    · apply Bad.labelFields
      rw [List.length_take]
      omega
    · rw [take_append_of_le (by omega)]
      apply Bad.labelName haddress hstart hsize
      rw [List.length_take]
      omega

/-- **Blocks that are cut off are the first ones of them**, or have a bad block at the end. -/
theorem take_bytes {blocks : List Block} (h : ∀ b ∈ blocks, b.Fits) (n : Nat) :
    (∃ k, (blocks.flatMap bytes).take n = (blocks.take k).flatMap bytes) ∨
      Broken ((blocks.flatMap bytes).take n) .tooShort := by
  induction blocks generalizing n with
  | nil => exact .inl ⟨0, by simp⟩
  | cons b blocks ih =>
    have hb := encoding_bytes (h b List.mem_cons_self)
    rw [List.flatMap_cons]
    rcases Nat.eq_zero_or_pos n with rfl | hpos
    · exact .inl ⟨0, rfl⟩
    by_cases hn : n < b.bytes.length
    · -- the cut is within the first block
      rw [List.take_append_of_le_length (Nat.le_of_lt hn)]
      exact .inr (.here (hb.bad_take hpos hn))
    · rw [take_append_of_le (Nat.le_of_not_lt hn)]
      rcases ih (fun c hc => h c (List.mem_cons_of_mem b hc)) (n - b.bytes.length) with
        ⟨k, hk⟩ | hbroken
      · rw [hk]
        exact .inl ⟨k + 1, rfl⟩
      · exact .inr (.later hb hbroken)

end Block

open Block

/-! ## The first blocks of an executable -/

/-- An executable says nothing that another one does not, and has the same image: its symbols are
missing, or they are those of the other one but for missing labels. -/
structure PartOf (e' e : Executable) : Prop where
  image : e'.image = e.image
  symbols : ∀ s' ∈ e'.symbols, ∃ s ∈ e.symbols,
    s'.instrCount = s.instrCount ∧ s'.imageSize = s.imageSize ∧
      ∀ (name : String) (symbol : Symbol),
        s'.labels[name]? = some symbol → s.labels[name]? = some symbol

/-- What the blocks of an executable say, with its labels in any order. -/
theorem mem_blocks {e : Executable} {blocks : List Block} (h : blocks.Perm e.labelBlocks)
    {b : Block} (hb : b ∈ e.fixedBlocks ++ blocks) :
    b = .image e.image ∨ ∃ s ∈ e.symbols, b = .table s.instrCount s.imageSize ∨
      ∃ (name : String) (symbol : Symbol), s.labels[name]? = some symbol ∧
        b = .label name symbol := by
  obtain ⟨image, symbols⟩ := e
  rcases List.mem_append.mp hb with hb | hb
  · cases symbols with
    | none => exact .inl (List.mem_singleton.mp hb)
    | some symbols =>
      rcases List.mem_cons.mp hb with rfl | hb
      · exact .inl rfl
      · exact .inr ⟨symbols, rfl, .inl (List.mem_singleton.mp hb)⟩
  · rw [h.mem_iff] at hb
    cases symbols with
    | none => cases hb
    | some symbols =>
      obtain ⟨⟨name, symbol⟩, hentry, rfl⟩ := List.mem_map.mp hb
      rw [Std.ExtTreeMap.mem_toList_iff_getElem?_eq_some] at hentry
      exact .inr ⟨symbols, rfl, .inr ⟨name, symbol, hentry, rfl⟩⟩

/-- With labels there is a table before them. -/
theorem table_of_label_mem_take {e : Executable} {blocks : List Block}
    (h : blocks.Perm e.labelBlocks) {k : Nat} {name : String} {symbol : Symbol}
    (hlabel : .label name symbol ∈ (e.fixedBlocks ++ blocks).take (k + 1)) :
    ∃ instrCount imageSize,
      .table instrCount imageSize ∈ (e.fixedBlocks ++ blocks).take (k + 1) := by
  obtain ⟨image, symbols⟩ := e
  cases symbols with
  | none =>
    obtain rfl := List.perm_nil.mp h
    cases List.mem_singleton.mp (List.mem_of_mem_take hlabel)
  | some symbols =>
    cases k with
    | zero => cases List.mem_singleton.mp hlabel
    | succ k => exact ⟨_, _, List.mem_cons_of_mem _ List.mem_cons_self⟩

/-- **What is made of the first blocks of an executable is part of it.** -/
theorem ofBlocks_take {e : Executable} (he : e.image.length ≤ memoryCells) {blocks : List Block}
    (h : blocks.Perm e.labelBlocks) (k : Nat) :
    ∃ e', ofBlocks ((e.fixedBlocks ++ blocks).take (k + 1)) = .ok e' ∧ e'.PartOf e := by
  have hmade := madeOf_ofBlocks ((e.fixedBlocks ++ blocks).take (k + 1))
  have himage {cells : List Nibble}
      (hcells : Prevails ((e.fixedBlocks ++ blocks).take (k + 1)) (.image cells)) :
      cells = e.image := by
    rcases mem_blocks h (List.mem_of_mem_take hcells.mem) with heq | ⟨s, -, heq | ⟨_, _, -, heq⟩⟩
    · exact Block.image.inj heq
    · cases heq
    · cases heq
  generalize ofBlocks ((e.fixedBlocks ++ blocks).take (k + 1)) = r at hmade
  cases hmade with
  | noImage hnone => exact absurd List.mem_cons_self (hnone e.image)
  | tooLarge hcells hlarge =>
    rw [himage hcells] at hlarge
    exact absurd he (Nat.not_le.mpr hlarge)
  | noTable hcells hsize htable hlabel =>
    obtain ⟨name, symbol, hlabel⟩ := hlabel
    obtain ⟨instrCount, imageSize, hmem⟩ := table_of_label_mem_take h hlabel
    exact absurd hmem (htable instrCount imageSize)
  | image hcells hsize htable hlabel =>
    exact ⟨_, rfl, himage hcells, fun _ hnone => by cases hnone⟩
  | symbols hcells hsize htable hlabels =>
    refine ⟨_, rfl, himage hcells, ?_⟩
    rintro _ ⟨⟩
    rcases mem_blocks h (List.mem_of_mem_take htable.mem) with heq | ⟨s, hs, heq | ⟨_, _, -, heq⟩⟩
    · cases heq
    · cases heq
      refine ⟨s, hs, rfl, rfl, fun name symbol hsymbol => ?_⟩
      have hmem := ((hlabels name symbol).mp hsymbol).mem
      rcases mem_blocks h (List.mem_of_mem_take hmem) with heq | ⟨s', hs', heq | ⟨_, _, hs'', heq⟩⟩
      · cases heq
      · cases heq
      · cases heq
        obtain rfl : s = s' := Option.some.inj (hs.symm.trans hs')
        exact hs''
    · cases heq

/-! ## The first bytes of an executable -/

section CutOff

variable {e : Executable} {blocks : List Block} (h : e.Obtainable)
  (hperm : blocks.Perm e.labelBlocks)

include h hperm

/-- A cut between two blocks, behind the image, leaves a part of the executable. -/
theorem ofBinary_take (k : Nat) :
    ∃ e', ofBinary (bytesOfBlocks ((e.fixedBlocks ++ blocks).take (k + 1))) = .ok e' ∧
      e'.PartOf e := by
  have hfits : ∀ b ∈ (e.fixedBlocks ++ blocks).take (k + 1), b.Fits := by
    intro b hb
    exact h.storable.fits_of_perm hperm b (List.mem_of_mem_take hb)
  rw [bytesOfBlocks, ofBinary_of_header, readAll_bytes hfits]
  exact ofBlocks_take h.storable.image hperm k

/-- Every other cut leaves bytes that are refused: without the whole header, with nothing behind it,
or with a block that is too short at the end. -/
theorem ofBinary_of_ne_take {bytes : List Byte}
    (hbytes : bytes <+: bytesOfBlocks (e.fixedBlocks ++ blocks))
    (hne : ∀ k, bytes ≠ bytesOfBlocks ((e.fixedBlocks ++ blocks).take (k + 1))) :
    ofBinary bytes = .error (if bytes.length < 6 then .badHeader else .tooShort) := by
  by_cases hheader : bytes.length < 6
  · -- the header is longer than what is left
    rw [if_pos hheader]
    refine ofBinary_of_reading (.badHeader fun hprefix => ?_)
    have hle := hprefix.length_le
    simp only [List.length_cons, List.length_nil] at hle
    omega
  · rw [if_neg hheader]
    rw [List.prefix_iff_eq_take, bytesOfBlocks,
      take_append_of_le (Nat.le_of_not_lt hheader)] at hbytes
    rcases take_bytes (h.storable.fits_of_perm hperm) (bytes.length - binaryHeader.length) with
      ⟨k, hk⟩ | hbroken
    · rw [hk] at hbytes
      cases k with
      | zero =>
        -- nothing but the header is left
        rw [hbytes, ofBinary_of_header, List.take_zero, List.flatMap_nil, readAll]
        rfl
      | succ k => exact absurd hbytes (hne k)
    · rw [hbytes, ofBinary_of_header, readAll_of_broken hbroken]
      rfl

end CutOff

/-- **Bytes that are cut off give nothing that is wrong.** Take the bytes of an executable, with its
labels in any order, and cut them off anywhere. If the cut is between two blocks, and not before the
image, then what is left is read as a part of the executable: its image is the same, its symbols are
missing or have the same counts, and every label in them is one of the executable. Otherwise it is
refused, for its header if not all of that is left, and else for being too short. -/
theorem ofBinary_cut_off (e : Executable) (h : e.Obtainable) (blocks : List Block)
    (hperm : blocks.Perm e.labelBlocks) (bytes : List Byte)
    (hbytes : bytes <+: bytesOfBlocks (e.fixedBlocks ++ blocks)) :
    (∃ k e', bytes = bytesOfBlocks ((e.fixedBlocks ++ blocks).take (k + 1)) ∧
      ofBinary bytes = .ok e' ∧ e'.PartOf e) ∨
    (∀ k, bytes ≠ bytesOfBlocks ((e.fixedBlocks ++ blocks).take (k + 1))) ∧
      ofBinary bytes = .error (if bytes.length < 6 then .badHeader else .tooShort) := by
  by_cases hcut : ∃ k, bytes = bytesOfBlocks ((e.fixedBlocks ++ blocks).take (k + 1))
  · obtain ⟨k, rfl⟩ := hcut
    obtain ⟨e', he', hpart⟩ := ofBinary_take h hperm k
    exact .inl ⟨k, e', rfl, he', hpart⟩
  · rw [not_exists] at hcut
    exact .inr ⟨hcut, ofBinary_of_ne_take h hperm hbytes hcut⟩

/-- The last byte is missing, which is the name of the last label. The bytes of fewer blocks would
have been read, but there are more of them. -/
theorem ofBinary_cut_off_last_name :
    let e := (build (parse "a: halt\nb: noop").statements).1
    let blocks := e.fixedBlocks ++ [.label "B" ⟨4, 8⟩, .label "A" ⟨0, 0⟩]
    e.Obtainable ∧ ofBinary (bytesOfBlocks blocks).dropLast = .error .tooShort := by
  intro e blocks
  have he : assemble "a: halt\nb: noop" 1 = .ok e :=
    assemble_eq_ok_iff.mpr ⟨by decide +kernel, by decide +kernel, rfl⟩
  have h : e.Obtainable := .source he (by decide +kernel) (by decide +kernel)
  refine ⟨h, ?_⟩
  rcases ofBinary_cut_off e h _ (by decide +kernel) (bytesOfBlocks blocks).dropLast
    (List.dropLast_prefix _) with ⟨k, -, hbytes, -⟩ | ⟨-, herror⟩
  · have hlength : (bytesOfBlocks blocks).dropLast.length =
        (bytesOfBlocks (blocks.take (k + 1))).length := congrArg List.length hbytes
    rcases k with _ | _ | _ | k
    · exact absurd hlength (by decide +kernel)
    · exact absurd hlength (by decide +kernel)
    · exact absurd hlength (by decide +kernel)
    · have hblocks : blocks.length = 4 := by decide +kernel
      rw [List.take_of_length_le (by omega)] at hlength
      exact absurd hlength (by decide +kernel)
  · exact herror

end Nic.Executable
