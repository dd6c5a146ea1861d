/-
Where executables come from.

`Obtainable` lists everything that gives an executable. What holds of every executable is proved
by induction over it; here, that each of them can be written as bytes and read back. For this the
counts of the table must have room in two bytes each. They do since the assembler refuses a
program that is larger than the memory (`storable_build`), and since the reader of bytes has no
larger counts to give (`storable_of_ofBinary`).
-/
import Nic.Executable.Text
import Nic.Proofs.Assembly.Image
import Nic.Proofs.Executable.Binary
import Nic.Proofs.Statement.Grammar
import Nic.Proofs.Token.Scan

set_option autoImplicit false

namespace Nic

open Statement

/-- The executables that there are: those of sources and of statements, those of images, those
that are read from text or bytes, and any of these without its symbols. Offsets in a source and
lengths of texts are numbers of 64 bits; this concerns sources, statements that come from
elsewhere, and names in their capital form, which may be longer than as they are written. -/
inductive Executable.Obtainable : Executable → Prop where
  | source {source : String} {maxErrors : Nat} {e : Executable}
    (h : assemble source maxErrors = .ok e) (hsource : source.utf8ByteSize < 2 ^ 64)
    (hnames : ∀ key ∈ (parse source).statements.filterMap key?, key.utf8ByteSize < 2 ^ 64) :
    Obtainable e
  | statements {program : List Statement} {e : Executable}
    (h : assembleStatements program = .ok e)
    (hstarts : ∀ label ∈ program.filterMap defined?, label.start < 2 ^ 64)
    (hnames : ∀ key ∈ program.filterMap key?, key.utf8ByteSize < 2 ^ 64) : Obtainable e
  | image {bytes : List Byte} {e : Executable} (h : ofBytes bytes = .ok e) : Obtainable e
  | text {text : String} {e : Executable} (h : ofText text = .ok e) : Obtainable e
  | binary {bytes : List Byte} {e : Executable} (h : ofBinary bytes = .ok e) : Obtainable e
  | strip {e : Executable} (h : Obtainable e) : Obtainable e.strip

namespace Executable

/-! ## Images -/

/-- Without symbols there is only the image to be written. -/
theorem storable_of_image {image : List Nibble} (h : image.length ≤ memoryCells) :
    Storable ⟨image, none⟩ := by
  refine ⟨h, fun b hb => ?_⟩
  rw [List.mem_singleton.mp hb]
  exact Nat.lt_of_le_of_lt h (by decide)

theorem storable_of_ofImage {image : List Nibble} {e : Executable} (h : ofImage image = .ok e) :
    e.Storable := by
  obtain ⟨hsize, rfl⟩ := ofImage_eq_ok_iff.mp h
  exact storable_of_image hsize

/-- An image may be given by bytes if each of them is a single digit. -/
theorem ofBytes_eq_ok_iff {bytes : List Byte} {e : Executable} :
    ofBytes bytes = .ok e ↔
      bytes.length ≤ memoryCells ∧ (∀ b ∈ bytes, Byte.high b = 0) ∧
        e = ⟨bytes.map Byte.low, none⟩ := by
  rw [ofBytes]
  split
  next hlarge =>
    simp only [reduceCtorEq, false_iff, not_and]
    omega
  next hsize =>
    split
    next index hsome =>
      obtain ⟨h, hhigh, -⟩ := List.findIdx?_eq_some_iff_getElem.mp hsome
      simp only [reduceCtorEq, false_iff, not_and]
      intro _ hdigits
      have hzero := hdigits _ (List.getElem_mem h)
      simp [hzero] at hhigh
    next hnone =>
      have hdigits : ∀ b ∈ bytes, Byte.high b = 0 := by
        simpa using List.findIdx?_eq_none_iff.mp hnone
      rw [ofImage_eq_ok_iff, List.length_map, and_iff_right hdigits]

theorem storable_of_ofBytes {bytes : List Byte} {e : Executable} (h : ofBytes bytes = .ok e) :
    e.Storable := by
  obtain ⟨hsize, -, rfl⟩ := ofBytes_eq_ok_iff.mp h
  refine storable_of_image ?_
  rwa [List.length_map]

theorem storable_of_ofText {text : String} {e : Executable} (h : ofText text = .ok e) :
    e.Storable := by
  unfold ofText at h
  dsimp only at h
  split at h
  · cases h
  · split at h
    · cases h
    · obtain ⟨image, -, h⟩ := bind_eq_ok_iff.mp h
      exact storable_of_ofImage h

/-! ## Assembled programs -/

/-- A program without faults has counts that are far below what there is room for, so that it can
be written if its labels can. -/
theorem storable_build {program : List Statement} (hfree : FaultFree program)
    (hstarts : ∀ label ∈ program.filterMap defined?, label.start < 2 ^ 64)
    (hnames : ∀ key ∈ program.filterMap key?, key.utf8ByteSize < 2 ^ 64) :
    Storable ⟨imageOf (symbolsOf program).1 program, some (symbolsOf program).1⟩ := by
  have hsize : programSize program ≤ 256 := hfree.size
  have hcode : 4 * (instrCount program + 2) ≤ programSize program := Nat.le_add_right _ _
  have himage : (imageOf (symbolsOf program).1 program).length ≤ memoryCells := by
    rw [length_imageOf]
    exact hsize
  have htotal : (symbolsOf program).1.imageSize = programSize program := Layout.upTo_data _ _
  refine ⟨himage, fun b hb => ?_⟩
  rcases List.mem_append.mp hb with hb | hb
  · rcases List.mem_cons.mp hb with rfl | hb
    · exact Nat.lt_of_le_of_lt himage (by decide)
    · rw [List.mem_singleton.mp hb, htotal]
      have hcount : (symbolsOf program).1.instrCount = instrCount program := rfl
      exact ⟨by omega, by omega⟩
  · -- the numbers of a label are those of the statement that defines it
    obtain ⟨⟨name, symbol⟩, hentry, rfl⟩ := List.mem_map.mp hb
    obtain ⟨s, hs, label, hlabel, hname, hstart⟩ := exists_of_symbolsOf_labels
      (Std.ExtTreeMap.mem_toList_iff_getElem?_eq_some.mp hentry)
    have hkey : s.key? = some name := key?_eq_some.mpr ⟨label, hlabel, hname⟩
    refine ⟨?_, hnames name (List.mem_filterMap.mpr ⟨s, hs, hkey⟩)⟩
    rw [hstart]
    exact hstarts label (List.mem_filterMap.mpr ⟨s, hs, hlabel⟩)

/-- What a source defines starts within it. -/
theorem start_lt_of_mem_parse {source : String} {label : Label}
    (h : label ∈ (parse source).statements.filterMap defined?) :
    label.start < source.utf8ByteSize := by
  obtain ⟨s, hs, hlabel⟩ := List.mem_filterMap.mp h
  obtain ⟨span, htoken, hstart⟩ := name_of_mem_parse hs (defined?_eq_some_iff.mp hlabel)
  rw [hstart]
  exact Token.start_lt_of_mem_scan htoken

/-! ## Every executable -/

/-- **Every executable can be written.** -/
theorem Obtainable.storable {e : Executable} (h : e.Obtainable) : e.Storable := by
  induction h with
  -- both ways to assemble end in a program without faults; the labels of a source start within it
  | source h hsource hnames =>
    obtain ⟨hfree, rfl⟩ := assemble_ok h
    refine storable_build hfree (fun label hlabel => ?_) hnames
    exact Nat.lt_trans (start_lt_of_mem_parse hlabel) hsource
  | statements h hstarts hnames =>
    obtain ⟨hbuild, rfl⟩ := assembleStatements_eq_ok_iff.mp h
    obtain ⟨hkeys, hoperands, hsize⟩ := (build_errors_eq_nil_iff _).mp hbuild
    exact storable_build ⟨hkeys, hoperands, hsize⟩ hstarts hnames
  | image h => exact storable_of_ofBytes h
  | text h => exact storable_of_ofText h
  | binary h => exact storable_of_ofBinary h
  | strip h ih => exact storable_of_image ih.image

/-- **Nothing is lost in the bytes of an executable.** An executable, from wherever it comes, is
read back from its bytes with its image and its symbols. So it is from the bytes that have its
labels in any other order. -/
theorem ofBinary_toBinary (e : Executable) (h : e.Obtainable) :
    ofBinary e.toBinary = .ok e ∧
      ∀ blocks : List Block, blocks.Perm e.labelBlocks →
        ofBinary (bytesOfBlocks (e.fixedBlocks ++ blocks)) = .ok e :=
  ⟨ofBinary_of_perm h.storable (.refl _), fun _ hperm => ofBinary_of_perm h.storable hperm⟩

/-- Two labels of a source, written in the other order. -/
theorem ofBinary_toBinary_labels_swapped :
    let e := (build (parse "a: halt\nb: noop").statements).1
    e.Obtainable ∧ ofBinary (bytesOfBlocks (e.fixedBlocks ++
      [.label "B" ⟨4, 8⟩, .label "A" ⟨0, 0⟩])) = .ok e := by
  intro e
  have he : assemble "a: halt\nb: noop" 1 = .ok e :=
    assemble_eq_ok_iff.mpr ⟨by decide +kernel, by decide +kernel, rfl⟩
  have h : e.Obtainable := .source he (by decide +kernel) (by decide +kernel)
  refine ⟨h, (ofBinary_toBinary e h).2 _ ?_⟩
  decide +kernel

end Executable

end Nic
