/-
What a token tells of its text.

Each reader gives one kind of token, so a token determines the character that its text starts
with, up to the kind of that character, and a name determines its text. `readFrom_of_mem_scanFrom`
says this once for every token of a source.
-/
import Nic.Proofs.Token.Cut
import Nic.Proofs.Token.Numbers

set_option autoImplicit false

namespace Nic.Token

/-! ## Readers -/

theorem readUnsigned_eq_ok {cs : List Char} {t : Token} (h : readUnsigned cs = .ok t) :
    ∃ value, t = .unsigned value := by
  obtain ⟨n, -, -, rfl⟩ := readUnsigned_eq_ok_iff.mp h
  exact ⟨n, rfl⟩

theorem readNegative_eq_ok {cs : List Char} {t : Token} (h : readNegative cs = .ok t) :
    ∃ value, t = .signed value := by
  obtain ⟨n, -, -, rfl⟩ := readNegative_eq_ok_iff.mp h
  exact ⟨-n, rfl⟩

theorem readDisplaced_eq_ok {name cs : List Char} {negative : Bool} {t : Token}
    (h : readDisplaced name negative cs = .ok t) :
    ∃ offset : Int, t = .displaced (String.ofList name) offset ∧
      -32768 ≤ offset ∧ offset ≤ 32767 := by
  obtain ⟨n, -, hrange, rfl⟩ := readDisplaced_eq_ok_iff.mp h
  exact ⟨withSign negative n, rfl, hrange⟩

theorem readRegister_eq_ok {cs : List Char} {t : Token} (h : readRegister cs = .ok t) :
    ∃ r, t = .register r := by
  unfold readRegister at h
  split at h
  · cases h
  · split at h
    · cases h
    · cases h
      exact ⟨_, rfl⟩

theorem ofName_eq_ok {cs : List Char} {t : Token} (h : ofName cs = .ok t) :
    (∃ r, t = .register r) ∨ (∃ m, t = .mnemonic m) ∨ t = .name (String.ofList cs) := by
  unfold ofName at h
  split at h
  · exact .inl (readRegister_eq_ok h)
  · dsimp only at h
    split at h
    · cases h
      exact .inr (.inl ⟨_, rfl⟩)
    · cases h
      exact .inr (.inr rfl)

/-! ## Tokens -/

/-- What is known of the text `c :: cs` from the token that it starts with. -/
inductive ReadFrom (c : Char) (cs : List Char) : Token → Prop where
  | unsigned {value : Nat} : ReadFrom c cs (.unsigned value)
  | signed {value : Int} : ReadFrom c cs (.signed value)
  | register {r : Reg} : ReadFrom c cs (.register r)
  | name (hc : isNameStart c = true)
    (h : ofName (c :: wordRun cs) = .ok (.name (String.ofList (c :: wordRun cs)))) :
    ReadFrom c cs (.name (String.ofList (c :: wordRun cs)))
  | mnemonic {m : Mnemonic} : ReadFrom c cs (.mnemonic m)
  | displaced {offset : Int} (hc : isNameStart c = true)
    (hoffset : -32768 ≤ offset ∧ offset ≤ 32767) :
    ReadFrom c cs (.displaced (String.ofList (c :: wordRun cs)) offset)
  | colon (hc : c = ':') : ReadFrom c cs .colon
  | comma (hc : c = ',') : ReadFrom c cs .comma
  | comment (hc : c = '/') : ReadFrom c cs .comment
  | newline (hc : c = '\n') : ReadFrom c cs .newline

theorem readFrom_of_content {c : Char} {cs : List Char} {t : Token}
    (h : (pieceAt c cs).content = some (.ok t)) : ReadFrom c cs t := by
  by_cases hname : isNameStart c = true
  · rw [pieceAt_name hname] at h
    split at h
    · obtain ⟨offset, rfl, hoffset⟩ := readDisplaced_eq_ok (Option.some.inj h)
      exact .displaced hname hoffset
    · have hof := Option.some.inj h
      rcases ofName_eq_ok hof with ⟨r, rfl⟩ | ⟨m, rfl⟩ | rfl
      · exact .register
      · exact .mnemonic
      · exact .name hname hof
  -- in the order in which the scanner looks
  unfold pieceAt at h
  split at h
  · cases h
  split at h
  · cases h
    exact .newline (by simpa using ‹(c == '\n') = true›)
  split at h
  · cases h
    exact .colon (by simpa using ‹(c == ':') = true›)
  split at h
  · cases h
    exact .comma (by simpa using ‹(c == ',') = true›)
  split at h
  · split at h
    · cases h
      exact .comment (by simpa using ‹(c == '/') = true›)
    · cases h
  split at h
  · obtain ⟨value, rfl⟩ := readUnsigned_eq_ok (Option.some.inj h)
    exact .unsigned
  split at h
  · obtain ⟨value, rfl⟩ := readNegative_eq_ok (Option.some.inj h)
    exact .signed
  · cases h

/-- **Every token is read from its text.** -/
theorem readFrom_of_mem_scanFrom {offset : Nat} {cs : List Char} {t : Token} {span : Span}
    (h : ⟨.ok t, span⟩ ∈ scanFrom offset cs) :
    ∃ before c rest, cs = before ++ c :: rest ∧ ReadFrom c rest t := by
  rcases mem_scanInto h with hnil | ⟨before, c, rest, hcs, hcontent, -⟩
  · cases hnil
  · exact ⟨before, c, rest, hcs, readFrom_of_content hcontent⟩

/-- The word characters from a place on are written there. -/
theorem reads_wordRun {source : String} {before rest : List Char} {c : Char}
    (h : source.toList = before ++ c :: rest) :
    Text.Reads source ⟨Text.byteLength before, Text.byteLength before +
      (String.ofList (c :: wordRun rest)).utf8ByteSize⟩ (String.ofList (c :: wordRun rest)) := by
  refine ⟨before, rest.dropWhile Text.isWordChar, ?_, rfl⟩
  rw [h, String.toList_ofList, List.append_assoc, List.cons_append, wordRun,
    List.takeWhile_append_dropWhile]

/-- A name is written where its token starts. -/
theorem reads_of_name_mem_scan {source name : String} {span : Span}
    (h : ⟨.ok (.name name), span⟩ ∈ scan source) :
    Text.Reads source ⟨span.start, span.start + name.utf8ByteSize⟩ name := by
  obtain ⟨before, c, rest, hsource, hcontent, hspan⟩ := mem_scan h
  have hstart : span.start = Text.byteLength before := congrArg Span.start hspan
  rw [hstart]
  cases readFrom_of_content hcontent with
  | name hc hof => exact reads_wordRun hsource

/-- So is a name with a displacement, of which only the name is looked at. -/
theorem reads_of_displaced_mem_scan {source name : String} {offset : Int} {span : Span}
    (h : ⟨.ok (.displaced name offset), span⟩ ∈ scan source) :
    Text.Reads source ⟨span.start, span.start + name.utf8ByteSize⟩ name := by
  obtain ⟨before, c, rest, hsource, hcontent, hspan⟩ := mem_scan h
  have hstart : span.start = Text.byteLength before := congrArg Span.start hspan
  rw [hstart]
  cases readFrom_of_content hcontent with
  | displaced hc hoffset => exact reads_wordRun hsource

/-- A text of one line has no newline token. -/
theorem ne_newline_of_mem_scanFrom {offset : Nat} {cs : List Char} (hline : '\n' ∉ cs)
    {l : Lexeme} (h : l ∈ scanFrom offset cs) : l.value ≠ .ok .newline := by
  intro hvalue
  obtain ⟨value, span⟩ := l
  obtain rfl : value = .ok .newline := hvalue
  obtain ⟨before, c, rest, rfl, hread⟩ := readFrom_of_mem_scanFrom h
  cases hread with
  | newline hc =>
    rw [hc] at hline
    exact hline (List.mem_append_right _ List.mem_cons_self)

end Nic.Token
