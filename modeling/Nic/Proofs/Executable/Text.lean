/-
The text form of executables, in both directions.

Any text at all may be given to the reader. What is left of it without the white space around it is
either the text form of an executable (`TextForm`), or it has a fault, the first in the order in
which the reader looks for them (`TextFault`). There is no third case (`textForm_or_fault`), and
each case has its own outcome (`ofText_of_textForm`, `ofText_of_textFault`), so that the outcome
tells which case it was.

The header is a matter of bytes: a text has it if its first eight bytes are those of the header, in
any mixture of small and capital letters. The reader looks at the first eight characters. It comes
to the same since no character begins within the bytes of another (`beginsWithHeader_iff`).
-/
import Nic.Proofs.Executable.Obtainable
import Nic.Proofs.Text.Blank
import Nic.Proofs.Text.Hex
import Nic.Proofs.Token.Lowercase

set_option autoImplicit false

namespace Nic

/-! ## Digits -/

namespace Text

theorem not_isBlank_hexDigit : ∀ d : Nibble, ¬ isBlank (hexDigit d) := by decide +kernel

end Text

namespace Executable

open Text

theorem foldlM_addCell {digits : List Char} (h : ∀ c ∈ digits, IsHexDigit c)
    (state : Array Nibble × Nat) :
    ∃ cells, hexDigits cells = lower digits ∧
      digits.foldlM addCell state =
        .ok (state.1 ++ cells.toArray, state.2 + byteLength digits) := by
  induction digits generalizing state with
  | nil => exact ⟨[], rfl, by simp [pure, Except.pure]⟩
  | cons c digits ih =>
    obtain ⟨hc, hdigits⟩ := List.forall_mem_cons.mp h
    obtain ⟨d, hd⟩ := exists_hexValue? hc
    obtain ⟨cells, hcells, hrest⟩ := ih hdigits (state.1.push d, state.2 + c.utf8Size)
    refine ⟨d :: cells, ?_, ?_⟩
    · rw [lower_cons, ← hcells, ← (hexValue?_eq_some_iff.mp hd).2]
      rfl
    · have hadd : addCell state c = .ok (state.1.push d, state.2 + c.utf8Size) := by
        rw [addCell, hd]
      rw [List.foldlM_cons, hadd]
      refine hrest.trans ?_
      rw [byteLength_cons, Nat.add_assoc]
      simp

/-- **Digits are read as the cells that are written with them.** -/
theorem cellsOfText_of_digits {digits : List Char} (h : ∀ c ∈ digits, IsHexDigit c) (index : Nat) :
    ∃ cells, hexDigits cells = lower digits ∧ cells.length = digits.length ∧
      cellsOfText index digits = .ok cells := by
  obtain ⟨cells, hcells, hread⟩ := foldlM_addCell h (#[], index)
  refine ⟨cells, hcells, ?_, ?_⟩
  · rw [← length_lower, ← hcells, hexDigits, List.length_map]
  · rw [cellsOfText, hread]
    simp [Functor.map, Except.map]

/-- **Reading stops at the first character that is no digit, and gives its index.** -/
theorem cellsOfText_of_not_digit {digits rest : List Char} {c : Char}
    (h : ∀ c ∈ digits, IsHexDigit c) (hc : ¬ IsHexDigit c) (index : Nat) :
    cellsOfText index (digits ++ c :: rest) = .error (.badDigit (index + byteLength digits)) := by
  obtain ⟨cells, -, hread⟩ := foldlM_addCell h (#[], index)
  rw [cellsOfText, List.foldlM_append, hread]
  have hadd : ∀ state, addCell state c = .error (.badDigit state.2) := by
    intro state
    rw [addCell, hexValue?_of_not_isHexDigit hc]
  show Except.map _ (List.foldlM addCell _ (c :: rest)) = _
  rw [List.foldlM_cons, hadd]
  rfl

/-! ## The header -/

/-- The header, in letters of either case. -/
def IsHeader (cs : List Char) : Prop := lower cs = "1f1f1f1f".toList

/-- The first eight bytes of a text are those of the header, in letters of either case. -/
def BeginsWithHeader (u : List Char) : Prop :=
  ∃ header, IsHeader header ∧
    (utf8Bytes (String.ofList u)).take 8 = utf8Bytes (String.ofList header)

theorem utf8Bytes_ofList (cs : List Char) :
    utf8Bytes (String.ofList cs) = cs.utf8Encode.data.toList.map UInt8.toBitVec := by
  rw [utf8Bytes, String.toUTF8_eq_toByteArray, String.toByteArray_ofList]

theorem utf8Bytes_append (cs ds : List Char) :
    utf8Bytes (String.ofList (cs ++ ds)) =
      utf8Bytes (String.ofList cs) ++ utf8Bytes (String.ofList ds) := by
  rw [utf8Bytes_ofList, List.utf8Encode_append, ByteArray.toList_data_append, List.map_append,
    ← utf8Bytes_ofList, ← utf8Bytes_ofList]

theorem length_utf8Bytes_ofList (cs : List Char) :
    (utf8Bytes (String.ofList cs)).length = byteLength cs := by
  rw [length_utf8Bytes, ← byteLength_toList, String.toList_ofList]

theorem isHeader_iff {cs : List Char} : IsHeader cs ↔ lower cs = textHeader := by
  have hheader : "1f1f1f1f".toList = textHeader := by decide +kernel
  rw [IsHeader, hheader]

theorem IsHeader.byteLength_eq {header : List Char} (h : IsHeader header) :
    byteLength header = 8 := by
  rw [← byteLength_lower, isHeader_iff.mp h]
  rfl

theorem IsHeader.length_eq {header : List Char} (h : IsHeader header) : header.length = 8 := by
  rw [← length_lower, isHeader_iff.mp h]
  rfl

theorem IsHeader.take_utf8Bytes {header : List Char} (h : IsHeader header) (rest : List Char) :
    (utf8Bytes (String.ofList (header ++ rest))).take 8 = utf8Bytes (String.ofList header) := by
  have hlength : (utf8Bytes (String.ofList header)).length = 8 := by
    rw [length_utf8Bytes_ofList, h.byteLength_eq]
  rw [utf8Bytes_append, ← hlength, List.take_left]

/-- A text begins with the characters whose bytes it begins with. -/
theorem prefix_of_utf8Bytes {cs ds : List Char} {bytes : List Byte}
    (h : utf8Bytes (String.ofList ds) = utf8Bytes (String.ofList cs) ++ bytes) : cs <+: ds := by
  have hoctets := congrArg (List.map UInt8.ofBitVec) h
  rw [utf8Bytes_ofList, utf8Bytes_ofList, List.map_append, ofBitVec_toBitVec, ofBitVec_toBitVec]
    at hoctets
  refine List.isPrefix_of_utf8Encode_append_eq_utf8Encode
    ⟨(bytes.map UInt8.ofBitVec).toArray⟩ (ByteArray.ext (Array.toList_inj.mp ?_))
  rw [ByteArray.toList_data_append]
  exact hoctets.symm

/-- **The first eight bytes are those of the header exactly if the first eight characters are.** -/
theorem beginsWithHeader_iff {u : List Char} :
    BeginsWithHeader u ↔ IsHeader (u.take 8) := by
  constructor
  · rintro ⟨header, hheader, hbytes⟩
    have hsplit := (List.take_append_drop 8 (utf8Bytes (String.ofList u))).symm
    rw [hbytes] at hsplit
    obtain ⟨rest, rfl⟩ := prefix_of_utf8Bytes hsplit
    rw [List.take_left' hheader.length_eq]
    exact hheader
  · intro hheader
    refine ⟨u.take 8, hheader, ?_⟩
    have hbytes := hheader.take_utf8Bytes (u.drop 8)
    rwa [List.take_append_drop] at hbytes

instance : DecidablePred BeginsWithHeader :=
  fun u => decidable_of_iff (lower (u.take 8) = "1f1f1f1f".toList) beginsWithHeader_iff.symm

/-! ## Every text -/

/-- The text form of an executable: the header, in letters of either case, and no more digits than
there are memory cells. -/
def TextForm (u : List Char) : Prop :=
  ∃ header digits, u = header ++ digits ∧ IsHeader header ∧
    (∀ c ∈ digits, IsHexDigit c) ∧ digits.length ≤ 256

/-- What is wrong with a text that is no text form. -/
inductive TextFault : List Char → ExecutableFault → Prop where
  | tooShort {u : List Char} (h : byteLength u < 8) : TextFault u .tooShort
  | badHeader {u : List Char} (hlong : 8 ≤ byteLength u) (h : ¬ BeginsWithHeader u) :
    TextFault u .badHeader
  /-- Behind the header, and behind digits only, stands another character. -/
  | badDigit {header digits rest : List Char} {c : Char} (hheader : IsHeader header)
    (hdigits : ∀ d ∈ digits, IsHexDigit d) (hc : ¬ IsHexDigit c) :
    TextFault (header ++ digits ++ c :: rest) (.badDigit (byteLength (header ++ digits)))
  | tooLarge {header digits : List Char} (hheader : IsHeader header)
    (hdigits : ∀ d ∈ digits, IsHexDigit d) (h : 256 < digits.length) :
    TextFault (header ++ digits) (.tooLarge digits.length)

/-- **A text is a text form or has a fault.** -/
theorem textForm_or_fault (u : List Char) : TextForm u ∨ ∃ fault, TextFault u fault := by
  by_cases hshort : byteLength u < 8
  · exact .inr ⟨_, .tooShort hshort⟩
  by_cases hbegins : BeginsWithHeader u
  · obtain ⟨header, body, rfl, hheader⟩ :
        ∃ header body, u = header ++ body ∧ IsHeader header :=
      ⟨_, _, (List.take_append_drop 8 u).symm, beginsWithHeader_iff.mp hbegins⟩
    cases hfirst : body.find? (fun c => ¬ IsHexDigit c) with
    | none =>
      have hdigits : ∀ c ∈ body, IsHexDigit c := by simpa using hfirst
      rcases Nat.lt_or_ge 256 body.length with hlarge | hfits
      · exact .inr ⟨_, .tooLarge hheader hdigits hlarge⟩
      · exact .inl ⟨header, body, rfl, hheader, hdigits, hfits⟩
    | some c =>
      obtain ⟨hc, digits, rest, rfl, hdigits⟩ := List.find?_eq_some_iff_append.mp hfirst
      rw [← List.append_assoc]
      exact .inr ⟨_, .badDigit hheader (by simpa using hdigits) (by simpa using hc)⟩
  · exact .inr ⟨_, .badHeader (Nat.le_of_not_lt hshort) hbegins⟩

/-! ## What the reader makes of it -/

theorem ofText_of_header {text : String} {header body : List Char}
    (hu : trim text.toList = header ++ body) (hheader : IsHeader header) :
    ofText text = cellsOfText 8 body >>= ofImage := by
  have hlong : ¬ byteLength (header ++ body) < textHeader.length := by
    rw [byteLength_append, hheader.byteLength_eq]
    exact Nat.not_lt.mpr (Nat.le_add_right 8 _)
  have htake : (header ++ body).take textHeader.length = header :=
    List.take_left' hheader.length_eq
  have hdrop : (header ++ body).drop textHeader.length = body :=
    List.drop_left' hheader.length_eq
  rw [ofText, hu, if_neg hlong, htake, hdrop]
  exact if_neg (not_not_intro (isHeader_iff.mp hheader))

theorem ofText_of_textForm {text : String} {u : List Char} (hu : trim text.toList = u)
    (h : TextForm u) :
    ∃ e, ofText text = .ok e ∧ e.symbols = none ∧ e.toText = String.ofList (lower u ++ ['\n']) := by
  obtain ⟨header, digits, rfl, hheader, hdigits, hsize⟩ := h
  obtain ⟨cells, hcells, hlength, hread⟩ := cellsOfText_of_digits hdigits 8
  refine ⟨⟨cells, none⟩, ?_, rfl, ?_⟩
  · rw [ofText_of_header hu hheader, hread]
    exact ofImage_eq_ok_iff.mpr ⟨hlength ▸ hsize, rfl⟩
  · rw [toText, hcells, lower_append, isHeader_iff.mp hheader]

theorem ofText_of_textFault {text : String} {u : List Char} {fault : ExecutableFault}
    (hu : trim text.toList = u) (h : TextFault u fault) : ofText text = .error fault := by
  cases h with
  | tooShort h =>
    rw [ofText, hu]
    exact if_pos h
  | badHeader hlong h =>
    have hheader : lower (u.take 8) ≠ textHeader := by
      rw [beginsWithHeader_iff, isHeader_iff] at h
      exact h
    rw [ofText, hu]
    exact (if_neg (Nat.not_lt.mpr hlong)).trans (if_pos hheader)
  | badDigit hheader hdigits hc =>
    rw [List.append_assoc] at hu
    rw [ofText_of_header hu hheader, cellsOfText_of_not_digit hdigits hc, byteLength_append,
      hheader.byteLength_eq]
    rfl
  | tooLarge hheader hdigits h =>
    obtain ⟨cells, -, hlength, hread⟩ := cellsOfText_of_digits hdigits 8
    rw [ofText_of_header hu hheader, hread, ← hlength]
    exact if_pos (hlength ▸ h)

/-- Whatever is accepted is a text form. -/
theorem textForm_of_ofText {text : String} {e : Executable} (h : ofText text = .ok e) :
    TextForm (trim text.toList) := by
  rcases textForm_or_fault (trim text.toList) with hform | ⟨fault, hfault⟩
  · exact hform
  · cases (ofText_of_textFault rfl hfault).symm.trans h

/-- Whatever is refused has the fault that it is refused with. -/
theorem textFault_of_ofText {text : String} {fault : ExecutableFault}
    (h : ofText text = .error fault) : TextFault (trim text.toList) fault := by
  rcases textForm_or_fault (trim text.toList) with hform | ⟨fault', hfault⟩
  · obtain ⟨e, hread, -⟩ := ofText_of_textForm rfl hform
    cases hread.symm.trans h
  · obtain rfl : fault' = fault :=
      Except.error.inj ((ofText_of_textFault rfl hfault).symm.trans h)
    exact hfault

/-! ## Reading what was written -/

/-- The digits of an executable have no white space among them, so that only the line break behind
them goes. -/
theorem trim_toText (e : Executable) : trim e.toText.toList = textHeader ++ hexDigits e.image := by
  have hheader : textHeader = hexDigits [1, 15, 1, 15, 1, 15, 1, 15] := by decide +kernel
  have hmem : ∀ c ∈ textHeader ++ hexDigits e.image, ¬ isBlank c := by
    rw [hheader, hexDigits, hexDigits, ← List.map_append]
    intro c hc
    obtain ⟨d, -, rfl⟩ := List.mem_map.mp hc
    exact not_isBlank_hexDigit d
  rw [toText, String.toList_ofList]
  refine (Trimmed.eq_trim ⟨⟨[], ['\n'], rfl, ?_⟩, ?_, ?_⟩).symm
  · intro c hc
    rw [List.mem_singleton.mp hc]
    decide +kernel
  · exact fun c hc => hmem c (List.mem_of_mem_head? hc)
  · exact fun c hc => hmem c (List.mem_of_mem_getLast? hc)

theorem lower_hexDigits (cells : List Nibble) : lower (hexDigits cells) = hexDigits cells := by
  have hall : ∀ d : Nibble, (hexDigit d).toLower = hexDigit d := by decide +kernel
  rw [lower, hexDigits, List.map_map]
  exact List.map_congr_left fun d _ => hall d

theorem hexDigits_injective {cells cells' : List Nibble} (h : hexDigits cells = hexDigits cells') :
    cells = cells' := by
  refine List.map_injective_iff.mpr (fun d d' hd => ?_) h
  have hvalue := congrArg hexValue? hd
  rw [hexValue?_hexDigit, hexValue?_hexDigit] at hvalue
  exact Option.some.inj hvalue

/-- The text of an executable says what its image is. -/
theorem image_of_toText {e e' : Executable} (h : e.toText = e'.toText) : e.image = e'.image := by
  have hlist := String.ofList_injective h
  exact hexDigits_injective (List.append_cancel_left (List.append_cancel_right hlist))

/-- **An executable that fits into memory is read back from its text, without its symbols.** -/
theorem ofText_toText {e : Executable} (h : e.size ≤ memoryCells) :
    ofText e.toText = .ok e.strip := by
  have hform : TextForm (textHeader ++ hexDigits e.image) := by
    refine ⟨textHeader, hexDigits e.image, rfl, isHeader_iff.mpr rfl, fun c hc => ?_, ?_⟩
    · obtain ⟨d, -, rfl⟩ := List.mem_map.mp hc
      exact isHexDigit_hexDigit d
    · rw [hexDigits, List.length_map]
      exact h
  obtain ⟨e', hread, hsymbols, htext⟩ := ofText_of_textForm (trim_toText e) hform
  rw [lower_append, lower_hexDigits] at htext
  have himage : e'.image = e.image := image_of_toText htext
  rw [hread, strip, ← himage, ← hsymbols]

/-- **What a text is read as.** An executable is read back from its text, without its symbols. A
text is accepted exactly if, without the white space around it, it is a text form; what is read then
has this text as its own, but for the case of the letters and the line break at the end. Any other
text is refused with its fault. -/
theorem ofText_outcomes :
    (∀ e : Executable, e.Obtainable → ofText e.toText = .ok e.strip) ∧
    ∀ text : String, let u := trim text.toList
      Trimmed text.toList u ∧
      ((∃ e, ofText text = .ok e) ↔ TextForm u) ∧
      (∀ e, ofText text = .ok e →
        e.symbols = none ∧ e.toText = String.ofList (lower u ++ ['\n'])) ∧
      ∀ fault, ofText text = .error fault ↔ TextFault u fault := by
  refine ⟨fun e h => ofText_toText h.storable.image, fun text => ?_⟩
  refine ⟨trimmed_trim _, ⟨?_, ?_⟩, ?_, fun fault => ⟨textFault_of_ofText, ?_⟩⟩
  · rintro ⟨e, he⟩
    exact textForm_of_ofText he
  · intro hform
    obtain ⟨e, he, -⟩ := ofText_of_textForm rfl hform
    exact ⟨e, he⟩
  · intro e he
    obtain ⟨e', he', hsymbols, htext⟩ := ofText_of_textForm rfl (textForm_of_ofText he)
    obtain rfl : e' = e := Except.ok.inj (he'.symm.trans he)
    exact ⟨hsymbols, htext⟩
  · exact ofText_of_textFault rfl

/-- An executable with a label, and a text whose eighth byte is the first of two of one letter. -/
theorem ofText_outcomes_split_letter :
    let e := (build (parse "a: halt").statements).1
    e.Obtainable ∧ ofText e.toText = .ok e.strip ∧ ofText "1f1f1f1é" = .error .badHeader := by
  intro e
  have he : assemble "a: halt" 1 = .ok e :=
    assemble_eq_ok_iff.mpr ⟨by decide +kernel, by decide +kernel, rfl⟩
  have h : e.Obtainable := .source he (by decide +kernel) (by decide +kernel)
  refine ⟨h, ofText_outcomes.1 e h, ?_⟩
  exact ((ofText_outcomes.2 "1f1f1f1é").2.2.2 _).mpr
    (.badHeader (by decide +kernel) (by decide +kernel))

end Executable

end Nic
