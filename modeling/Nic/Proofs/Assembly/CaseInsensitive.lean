/-
The case of letters does not matter.

A text in small letters has the tokens of the text, its names in small letters
(`Token.scanFrom_lower`), and the reader carries names along without looking into them
(`parseLexemes_respelled`). Here the two passes of the assembler are seen to use two things of a
name only: its capital form, under which it is kept and looked up, and its number of bytes, which
goes into places. A spelling that keeps both (`KeepsForm`) changes neither the executable nor an
error (`build_respelled`); small letters are such a spelling.

So every source is assembled as its form in small letters (`assembleAll_lowercase`), and two sources
that differ in case only have this form in common (`assemble_ignores_case`).
-/
import Nic.Assembly
import Nic.Proofs.Statement.Lines
import Nic.Proofs.Token.Lowercase

set_option autoImplicit false

namespace Nic

/-! ## Spellings of names -/

/-- Names are spelt with the same capital form and the same number of bytes. -/
structure KeepsForm (g : String → String) : Prop where
  uppercase : ∀ name, Text.uppercase (g name) = Text.uppercase name
  utf8ByteSize : ∀ name, (g name).utf8ByteSize = name.utf8ByteSize

theorem keepsForm_lowercase : KeepsForm Text.lowercase :=
  ⟨Text.uppercase_lowercase, Text.utf8ByteSize_lowercase⟩

section KeepsForm

variable {g : String → String} (hg : KeepsForm g)

include hg

theorem Label.span_respelled (l : Label) : (l.respelled id g).span = l.span := by
  simp only [Label.span, Label.respelled, hg.utf8ByteSize, id]

/-! ## The first pass -/

theorem Layout.define_respelled (l : Layout) (label : Label) (address : Nat) :
    l.define (label.respelled id g) address = l.define label address := by
  have hkey : Text.uppercase (label.respelled id g).name = Text.uppercase label.name :=
    hg.uppercase label.name
  rw [Layout.define, Layout.define, hkey, Label.span_respelled hg]
  rfl

theorem Layout.place_respelled (dataStart : Nat) (l : Layout) (s : Statement) :
    l.place dataStart (s.respelled id g) = l.place dataStart s := by
  obtain ⟨body, span⟩ := s
  cases body with
  | instr i => rfl
  | label name => exact Layout.define_respelled hg l name l.code
  | word name values =>
    simp only [Layout.place, Statement.respelled, Statement.Body.respelled, Statement.valueCount,
      List.length_map, Layout.define_respelled hg]
    rfl

omit hg in
theorem Statement.instrCount_respelled (program : List Statement) :
    instrCount (program.map (respelled id g)) = instrCount program := by
  rw [instrCount, List.countP_map]
  refine List.countP_congr fun s _ => ?_
  obtain ⟨body, span⟩ := s
  cases body <;> rfl

/-- The table of a program and the errors in its definitions do not depend on the spelling. -/
theorem symbolsOf_respelled (program : List Statement) :
    symbolsOf (program.map (Statement.respelled id g)) = symbolsOf program := by
  have hlayout : Layout.ofStatements (program.map (Statement.respelled id g)) =
      Layout.ofStatements program := by
    simp only [Layout.ofStatements, Statement.instrCount_respelled, List.foldl_map,
      Layout.place_respelled hg]
  rw [symbolsOf, symbolsOf, hlayout, Statement.instrCount_respelled]

/-! ## The second pass -/

theorem Symbols.resolve_respelled (s : Symbols) (x : Operand) :
    s.resolve (x.respelled id g) = s.resolve x := by
  cases x with
  | literal value => rfl
  | address label offset =>
    have haddress : s.address? (label.respelled id g).name = s.address? label.name := by
      rw [address?, address?, find?, find?, Label.respelled, hg.uppercase]
    rw [Operand.respelled, resolve, resolve, haddress, Label.span_respelled hg]

theorem SourceInstr.toInstr_respelled (s : Symbols) (i : SourceInstr) :
    (i.respelled id g).toInstr s = i.toInstr s := by
  cases i <;> simp only [respelled, toInstr, Symbols.resolve_respelled hg]

theorem Statement.words_respelled (s : Symbols) (st : Statement) :
    (st.respelled id g).words s = st.words s := by
  obtain ⟨body, span⟩ := st
  cases body with
  | instr i => simp only [words, respelled, Body.respelled, SourceInstr.toInstr_respelled hg]
  | _ => rfl

theorem Statement.bytes_respelled (s : Symbols) (st : Statement) :
    (st.respelled id g).bytes s = st.bytes s := by
  obtain ⟨body, span⟩ := st
  cases body with
  | word label values =>
    cases values with
    | nil => rfl
    | cons x values =>
      simp only [bytes, respelled, Body.respelled, List.map_cons, List.map_map, Function.comp_def,
        Symbols.resolve_respelled hg]
  | _ => rfl

/-! ## Both passes -/

/-- **Of a name, only its capital form and its length count.** -/
theorem build_respelled (program : List Statement) :
    build (program.map (Statement.respelled id g)) = build program := by
  simp only [build, symbolsOf_respelled hg, imageOf, codeCells, dataCells, operandErrors,
    Statement.errors, List.flatMap_map, Statement.words_respelled hg,
    Statement.bytes_respelled hg]

end KeepsForm

/-! ## Sources -/

/-- A source in small letters is read as the source, with its names in small letters. -/
theorem parse_lowercase (source : String) :
    parse (Text.lowercase source) = (parse source).respelled id Text.lowercase := by
  rw [parse_eq, parse_eq, Text.lowercase, String.toList_ofList, Token.scanFrom_lower,
    parseLexemes_respelled]

/-- A source is assembled as its form in small letters. -/
theorem assembleAll_lowercase (source : String) :
    assembleAll (Text.lowercase source) = assembleAll source := by
  have herrors : ((parse source).respelled id Text.lowercase).errors = (parse source).errors :=
    List.map_id _
  simp only [assembleAll, parse_lowercase, herrors]
  simp only [Parsed.respelled, build_respelled keepsForm_lowercase]

/-- Two sources differ at most in the case of letters from `a` to `z`: wherever they differ, both
have the same letter, once large and once small. -/
def SameButCase (s t : String) : Prop :=
  s.toList.map Char.toLower = t.toList.map Char.toLower

instance (s t : String) : Decidable (SameButCase s t) :=
  inferInstanceAs (Decidable (_ = _))

/-- **The assembler ignores case.** Two sources that differ in case only are both assembled, to the
same image and the same table with the same places; or neither is, and the errors that are reported
for the one are those that are reported for the other, at the same places, however many are
wanted. -/
theorem assemble_ignores_case {s t : String} (h : SameButCase s t) (maxErrors : Nat) :
    (∃ e, assemble s maxErrors = .ok e ∧ assemble t maxErrors = .ok e) ∨
      ∃ d d', assemble s maxErrors = .error d ∧ assemble t maxErrors = .error d' ∧
        d.errors = d'.errors := by
  have hlower : Text.lowercase s = Text.lowercase t := congrArg String.ofList h
  have hall : assembleAll s = assembleAll t := by
    rw [← assembleAll_lowercase s, ← assembleAll_lowercase t, hlower]
  rw [assemble, assemble, hall]
  cases assembleAll t with
  | ok e => exact .inl ⟨e, rfl, rfl⟩
  | error errors => exact .inr ⟨_, _, rfl, rfl, rfl⟩

/-- Registers, numbers, reserved words, displacements and labels in two spellings. The capital form
of the label is one byte longer than the label. -/
theorem assemble_ignores_case_of_each_token :
    let s := "Aŉ: loadc R1, 0XfF\nWORD x, aŉ+0xA\nload r2 X"
    let t := "aŉ: LoadC r1, 0xFf\nword X, Aŉ+0Xa\nLOAD R2 x"
    SameButCase s t ∧ s ≠ t ∧ ∃ e, assemble s 1 = .ok e ∧ assemble t 1 = .ok e := by
  refine ⟨by decide +kernel, by decide +kernel, ?_⟩
  rcases assemble_ignores_case (s := "Aŉ: loadc R1, 0XfF\nWORD x, aŉ+0xA\nload r2 X")
    (t := "aŉ: LoadC r1, 0xFf\nword X, Aŉ+0Xa\nLOAD R2 x") (by decide +kernel) 1 with
    hok | ⟨d, d', herror, -⟩
  · exact hok
  · exfalso
    have hisOk : (assemble "Aŉ: loadc R1, 0XfF\nWORD x, aŉ+0xA\nload r2 X" 1).isOk = true := by
      decide +kernel
    rw [herror] at hisOk
    cases hisOk

end Nic
