/-
The places of labels.

Of a label only its start is kept, and its place is found from the length of its name. But a label
has two names: the one that is written in the source, and the capital form under which it stands in
the table. Statements know the first, and so their places are those of the names in the source
(`reads_of_mem_defined?`). What is asked of the table knows the second only, and gives a place that
is as long as the capital form (`Label.keptSpan`): where a label is defined, and, when it is defined
once more, the place of the earlier definition.

Some letters have a capital form of more bytes or fewer bytes than they have themselves. So a place
that comes from the table is the right one exactly if the two names have the same number of bytes
(`reads_keptSpan_iff`). For names of ASCII characters this is always so.
-/
import Nic.Proofs.Assembly.Image
import Nic.Proofs.Statement.Grammar
import Nic.Proofs.Text.Uppercase
import Nic.Proofs.Token.Kinds

set_option autoImplicit false

namespace Nic

/-! ## Names and their capital forms -/

namespace Text

theorem utf8Size_toUpper {c : Char} (hc : c.toNat < 128) : c.toUpper.utf8Size = c.utf8Size := by
  apply of_ascii hc
  decide +kernel

theorem byteLength_flatMap_upperChar {cs : List Char} (h : ∀ c ∈ cs, c.toNat < 128) :
    byteLength (cs.flatMap upperChar) = byteLength cs := by
  induction cs with
  | nil => rfl
  | cons c cs ih =>
    obtain ⟨hc, hcs⟩ := List.forall_mem_cons.mp h
    rw [List.flatMap_cons, upperChar_of_ascii hc, byteLength_append, ih hcs, byteLength_cons,
      byteLength_cons, utf8Size_toUpper hc]
    rfl

end Text

namespace Label

/-- The place of a label as it is found from the table: as long as its capital form. -/
def keptSpan (l : Label) : Span :=
  ⟨l.start, l.start + (Text.uppercase l.name).utf8ByteSize⟩

/-- The capital form of the name has as many bytes as the name. -/
def KeepsSize (l : Label) : Prop :=
  (Text.uppercase l.name).utf8ByteSize = l.name.utf8ByteSize

theorem keptSpan_eq_span_iff {l : Label} : l.keptSpan = l.span ↔ l.KeepsSize := by
  rw [keptSpan, span, Span.mk.injEq, KeepsSize]
  exact ⟨fun h => Nat.add_left_cancel h.2, fun h => ⟨rfl, congrArg _ h⟩⟩

theorem keepsSize_of_ascii {l : Label} (h : ∀ c ∈ l.name.toList, c.toNat < 128) :
    l.KeepsSize := by
  rw [KeepsSize, Text.uppercase, ← Text.byteLength_toList, ← Text.byteLength_toList,
    String.toList_ofList, Text.byteLength_flatMap_upperChar h]

/-- **A place that comes from the table shows the name as it is written exactly if the capital form
has as many bytes.** -/
theorem reads_keptSpan_iff {source : String} {l : Label} (h : Text.Reads source l.span l.name) :
    Text.Reads source l.keptSpan l.name ↔ l.KeepsSize := by
  constructor
  · intro hkept
    exact Nat.add_left_cancel hkept.stop_eq
  · intro hsize
    rw [keptSpan_eq_span_iff.mpr hsize]
    exact h

end Label

open Statement

/-! ## Definitions in the source -/

/-- **A label that a source defines is written at its place.** -/
theorem reads_of_mem_defined? {source : String} {label : Label}
    (h : label ∈ (parse source).statements.filterMap defined?) :
    Text.Reads source label.span label.name := by
  obtain ⟨s, hs, hlabel⟩ := List.mem_filterMap.mp h
  obtain ⟨span, htoken, hstart⟩ := name_of_mem_parse hs (defined?_eq_some_iff.mp hlabel)
  rw [Label.span, hstart]
  exact Token.reads_of_name_mem_scan htoken

/-- The table of a program without faults gives the place of each label, as long as the capital
form, whatever spelling of the name it is asked for. -/
theorem Statement.FaultFree.source?_eq {program : List Statement} (h : FaultFree program)
    {label : Label} (hlabel : label ∈ program.filterMap defined?) {name : String}
    (hname : Text.uppercase name = Text.uppercase label.name) :
    (symbolsOf program).1.source? name = some label.keptSpan := by
  obtain ⟨s, hs, hdefined⟩ := List.mem_filterMap.mp hlabel
  obtain ⟨earlier, later, hsplit⟩ := List.append_of_mem hs
  have hfind : (symbolsOf program).1.find? name =
      (Layout.upTo (dataStart (instrCount program)) program).labels[Text.uppercase name]? := rfl
  rw [Symbols.source?, hfind, Layout.upTo_labels, hname, h.firstDefinition?_eq hsplit hdefined]
  rfl

/-! ## Labels that are defined once more -/

/-- A program defines a name first with one label, and then once more with another. -/
def Redefines (program : List Statement) (first second : Label) : Prop :=
  Text.uppercase first.name = Text.uppercase second.name ∧
    ∃ earlier s between t later, program = earlier ++ s :: between ++ t :: later ∧
      s.defined? = some first ∧ t.defined? = some second ∧
      ∀ u ∈ earlier, u.key? ≠ some (Text.uppercase first.name)

theorem redefines_of_mem_duplicates {d : Nat} {program : List Statement} {e : AssemblyError}
    (h : e ∈ duplicates d program) :
    ∃ first second, Redefines program first second ∧
      e = ⟨.duplicateLabel, first.keptSpan, some second.span⟩ := by
  obtain ⟨⟨before, t⟩, hmem, ht⟩ := List.mem_filterMap.mp h
  obtain ⟨later, rfl⟩ := mem_withEarlier.mp hmem
  obtain ⟨second, hsecond, hfirst⟩ := Option.bind_eq_some_iff.mp ht
  obtain ⟨⟨first, address⟩, hdefinition, rfl⟩ := Option.map_eq_some_iff.mp hfirst
  obtain ⟨earlier, s, between, rfl, hs, hkey, hnew⟩ := split_of_firstDefinition? hdefinition
  rw [← hkey] at hnew ⊢
  exact ⟨first, second, ⟨hkey, earlier, s, between, t, later, rfl, hs, hsecond, hnew⟩, rfl⟩

theorem Redefines.mem_defined? {program : List Statement} {first second : Label}
    (h : Redefines program first second) :
    first ∈ program.filterMap defined? ∧ second ∈ program.filterMap defined? := by
  obtain ⟨-, earlier, s, between, t, later, rfl, hs, ht, -⟩ := h
  exact ⟨List.mem_filterMap.mpr ⟨s, by simp, hs⟩, List.mem_filterMap.mpr ⟨t, by simp, ht⟩⟩

/-- Only a label that is defined once more is reported as such. -/
theorem mem_duplicates_of_mem_build {program : List Statement} {e : AssemblyError}
    (h : e ∈ (build program).2) (he : e.fault = .duplicateLabel) :
    e ∈ duplicates (dataStart (instrCount program)) program := by
  rw [(build_errors_perm program).mem_iff, List.mem_append, List.mem_append] at h
  rcases h with (h | hsize) | hoperand
  · exact h
  · obtain ⟨cells, s, -, rfl⟩ := sizeFault?_eq_some (Option.mem_toList.mp hsize)
    cases he
  · obtain ⟨s, -, hs⟩ := List.mem_flatMap.mp hoperand
    obtain ⟨x, -, hx⟩ := List.mem_filterMap.mp hs
    -- an operand has no value because its label is not defined, or because of its size
    cases x with
    | literal value => cases hx
    | address label offset =>
      rw [operandFault?] at hx
      split at hx
      · cases hx
        cases he
      · split at hx
        · cases hx
        · cases hx
          cases he

/-- What is reported and is no error of a line is an error of the program. -/
theorem mem_build_of_reported {source : String} {maxErrors : Nat} {d : Diagnostics}
    (h : assemble source maxErrors = .error d) {e : AssemblyError} (he : e ∈ d.errors)
    (hfault : ∀ fault, e.fault ≠ .grammar fault) : e ∈ (build (parse source).statements).2 := by
  by_cases hparse : (parse source).errors = []
  · have hreported := reportedBy_assemble hparse maxErrors
    rw [h] at hreported
    have hmem : e ∈ reportedErrors maxErrors
        (AssemblyError.sort (build (parse source).statements).2) := hreported ▸ he
    exact List.mem_mergeSort.mp (List.mem_of_mem_take hmem)
  · have hall : assembleAll source =
        .error (AssemblyError.sort ((parse source).errors.map AssemblyError.ofSyntax)) := by
      rw [assembleAll, if_neg (by simpa using hparse)]
    rw [assemble, hall] at h
    obtain rfl := Except.error.inj h
    obtain ⟨syntaxError, -, rfl⟩ :=
      List.mem_map.mp (List.mem_mergeSort.mp (List.mem_of_mem_take he))
    exact absurd rfl (hfault syntaxError.fault)

/-! ## Sources -/

/-- The table gives the place of each label that an assembled source defines, and it is there
that the name is written. -/
def TableSpansRight : Prop :=
  ∀ (source : String) (maxErrors : Nat) (e : Executable) (symbols : Symbols),
    assemble source maxErrors = .ok e → e.symbols = some symbols →
    ∀ label ∈ (parse source).statements.filterMap defined?,
      symbols.source? label.name = some label.span ∧ Text.Reads source label.span label.name

/-- The two places of an error about a label that is defined twice are those where the names of both
definitions are written. -/
def DuplicateSpansRight : Prop :=
  ∀ (source : String) (maxErrors : Nat) (d : Diagnostics), assemble source maxErrors = .error d →
    ∀ e ∈ d.errors, e.fault = .duplicateLabel →
      ∃ first second, Redefines (parse source).statements first second ∧
        e.first = first.span ∧ Text.Reads source first.span first.name ∧
        e.second = some second.span ∧ Text.Reads source second.span second.name

/-- The dotless `ı` has two bytes, and its capital form `I` has one. A name with this letter is not
at the place that the table gives for it, nor at the first place of an error. -/
theorem not_label_spans_right : ¬ TableSpansRight ∧ ¬ DuplicateSpansRight := by
  constructor
  · intro htable
    let source := "aı: halt"
    have hok : assemble source 1 = .ok (build (parse source).statements).1 :=
      assemble_eq_ok_iff.mpr ⟨by decide +kernel, by decide +kernel, rfl⟩
    have hlabel : ⟨"aı", 0⟩ ∈ (parse source).statements.filterMap defined? := by decide +kernel
    have hsource : (symbolsOf (parse source).statements).1.source? "aı" = some ⟨0, 2⟩ := by
      decide +kernel
    have hspan : some ⟨0, 2⟩ = some (Label.span ⟨"aı", 0⟩) :=
      hsource.symm.trans (htable source 1 _ _ hok rfl _ hlabel).1
    exact absurd hspan (by decide +kernel)
  · intro hduplicate
    let source := "aı: halt\naı: noop"
    have hreported : reportedBy (assemble source 1) =
        [⟨.duplicateLabel, ⟨0, 2⟩, some ⟨10, 13⟩⟩] := by decide +kernel
    have hspans : ∀ label ∈ (parse source).statements.filterMap defined?,
        (⟨0, 2⟩ : Span) ≠ label.span := by decide +kernel
    cases h : assemble source 1 with
    | ok e =>
      rw [h] at hreported
      cases hreported
    | error d =>
      have hmem : ⟨.duplicateLabel, ⟨0, 2⟩, some ⟨10, 13⟩⟩ ∈ d.errors := by
        rw [h, reportedBy] at hreported
        rw [hreported]
        exact List.mem_cons_self
      obtain ⟨first, second, hredefines, hfirst, -⟩ := hduplicate source 1 d h _ hmem rfl
      exact hspans first hredefines.mem_defined?.1 hfirst

/-- **Where the labels of a source stand.** Take any source and any number of errors to report.

* If it is assembled, each label that it defines is written at the place of its definition, and the
  table, asked for the label in any spelling, gives the place that has this start and is as long as
  the capital form of the name. At this place the name is written exactly if its capital form has as
  many bytes as the name itself.
* If it is not, each error about a label that is defined twice has the place of the second
  definition, where its name is written; and the place that starts where the first definition does
  and is as long as the capital form, where the name of the first is written under the same
  condition.
* The condition holds for names of ASCII characters. -/
theorem assemble_label_spans (source : String) (maxErrors : Nat) :
    (∀ e, assemble source maxErrors = .ok e → ∃ symbols, e.symbols = some symbols ∧
      ∀ label ∈ (parse source).statements.filterMap defined?,
        Text.Reads source label.span label.name ∧
        (∀ name, Text.uppercase name = Text.uppercase label.name →
          symbols.source? name = some label.keptSpan) ∧
        (Text.Reads source label.keptSpan label.name ↔ label.KeepsSize)) ∧
    (∀ d, assemble source maxErrors = .error d →
      ∀ e ∈ d.errors, e.fault = .duplicateLabel →
        ∃ first second, Redefines (parse source).statements first second ∧
          e.second = some second.span ∧ Text.Reads source second.span second.name ∧
          e.first = first.keptSpan ∧ Text.Reads source first.span first.name ∧
          (Text.Reads source first.keptSpan first.name ↔ first.KeepsSize)) ∧
    ∀ label : Label, (∀ c ∈ label.name.toList, c.toNat < 128) → label.KeepsSize := by
  refine ⟨?_, ?_, fun _ => Label.keepsSize_of_ascii⟩
  · intro e he
    obtain ⟨hfree, rfl⟩ := assemble_ok he
    refine ⟨_, rfl, ?_⟩
    intro label hlabel
    have hreads := reads_of_mem_defined? hlabel
    exact ⟨hreads, fun _ => hfree.source?_eq hlabel, Label.reads_keptSpan_iff hreads⟩
  · intro d hd e he hfault
    have hbuild := mem_build_of_reported hd he (by simp [hfault])
    obtain ⟨first, second, hredefines, rfl⟩ :=
      redefines_of_mem_duplicates (mem_duplicates_of_mem_build hbuild hfault)
    obtain ⟨hfirst, hsecond⟩ := hredefines.mem_defined?
    have hreads := reads_of_mem_defined? hfirst
    exact ⟨first, second, hredefines, rfl, reads_of_mem_defined? hsecond, rfl, hreads,
      Label.reads_keptSpan_iff hreads⟩

/-- The letter `ß` has two bytes, and so has its capital form of two letters. The label is found
under another spelling, and at its place. -/
theorem assemble_label_spans_two_letters :
    assemble "aß: halt" 1 = .ok (build (parse "aß: halt").statements).1 ∧
      (symbolsOf (parse "aß: halt").statements).1.source? "ass" = some ⟨0, 3⟩ ∧
      Text.Reads "aß: halt" ⟨0, 3⟩ "aß" := by
  have hok : assemble "aß: halt" 1 = .ok (build (parse "aß: halt").statements).1 :=
    assemble_eq_ok_iff.mpr ⟨by decide +kernel, by decide +kernel, rfl⟩
  have hlabel : ⟨"aß", 0⟩ ∈ (parse "aß: halt").statements.filterMap defined? := by decide +kernel
  obtain ⟨hassembled, -, -⟩ := assemble_label_spans "aß: halt" 1
  obtain ⟨symbols, hsymbols, hlabels⟩ := hassembled _ hok
  cases hsymbols
  obtain ⟨-, hsource, hreads⟩ := hlabels _ hlabel
  have hsize : (⟨"aß", 0⟩ : Label).KeepsSize := by
    rw [Label.KeepsSize]
    decide +kernel
  exact ⟨hok, hsource "ass" (by decide +kernel), hreads.mpr hsize⟩

end Nic
