/-
What an insertion moves.

The address of a name is that of its first definition, and it counts what comes before: for a label
the instructions before it, for a `word` all instructions of the program and the data before it. So
a statement that is inserted moves labels on one side only, and a `word` either on one side, if data
is inserted, or on both, if an instruction is (`moves_of_label_before` to `moves_of_word_after`).

Names may be defined more than once. A statement that is inserted does not come first for a name
unless it defines the name itself, so the first definitions stay what they are.
-/
import Nic.Proofs.Assembly.Faults

set_option autoImplicit false

namespace Nic

namespace Statement

/-! ## First definitions -/

/-- The first statement that defines a name, in any case. -/
def definer? (program : List Statement) (name : String) : Option Statement :=
  program.find? fun s => s.key? = some (Text.uppercase name)

/-- The name is that of a label: its first definition stands for an instruction. -/
def NamesCode (program : List Statement) (name : String) : Prop :=
  ∃ label span, definer? program name = some ⟨.label label, span⟩

/-- The name is that of a `word`: its first definition stands for data. -/
def NamesData (program : List Statement) (name : String) : Prop :=
  ∃ label values span, definer? program name = some ⟨.word label values, span⟩

theorem definer?_append (pre post : List Statement) (name : String) :
    definer? (pre ++ post) name = (definer? pre name).or (definer? post name) :=
  List.find?_append

theorem definer?_eq_none {program : List Statement} {name : String} :
    definer? program name = none ↔ ∀ t ∈ program, t.key? ≠ some (Text.uppercase name) := by
  unfold definer?
  simp

theorem split_of_definer? {program : List Statement} {name : String} {t : Statement}
    (h : definer? program name = some t) :
    t.key? = some (Text.uppercase name) ∧ ∃ earlier later, program = earlier ++ t :: later ∧
      definer? earlier name = none := by
  obtain ⟨hkey, earlier, later, hprogram, hnew⟩ := List.find?_eq_some_iff_append.mp h
  refine ⟨of_decide_eq_true hkey, earlier, later, hprogram, ?_⟩
  rw [definer?_eq_none]
  intro u hu
  simpa using hnew u hu

/-- A first definition gives the address. -/
theorem nameAddress?_of_definer? {earlier later : List Statement} {t : Statement} {name : String}
    (hkey : t.key? = some (Text.uppercase name)) (hnew : definer? earlier name = none) :
    nameAddress? (earlier ++ t :: later) name =
      some (t.addressAfter (dataStart (instrCount (earlier ++ t :: later))) earlier) := by
  obtain ⟨label, hlabel, hname⟩ := key?_eq_some.mp hkey
  rw [definer?_eq_none, ← hname] at hnew
  unfold nameAddress?
  rw [← hname, firstDefinition?_of_split hlabel hnew, Option.map_some]

end Statement

open Statement

/-! ## Moving -/

/-- Between two tables, the address of a name grows by a number of cells. Addresses are kept up to
65535, so it grows by so many as long as there is room for that. -/
def Symbols.Moves (before after : Symbols) (name : String) (cells : Nat) : Prop :=
  ∃ a a', before.address? name = some a ∧ after.address? name = some a' ∧
    a'.toNat = min (a.toNat + cells) 65535

open Symbols (Moves)

theorem moves_of_nameAddress? {before after : List Statement} {name : String} {address cells : Nat}
    (h : nameAddress? before name = some address)
    (h' : nameAddress? after name = some (address + cells)) :
    Moves (symbolsOf before).1 (symbolsOf after).1 name cells := by
  refine ⟨BitVec.ofNat 16 (min address 65535), BitVec.ofNat 16 (min (address + cells) 65535),
    ?_, ?_, ?_⟩
  · rw [symbolsOf_address?, h, Option.map_some]
  · rw [symbolsOf_address?, h', Option.map_some]
  · -- an address that was cut off already is cut off again
    rw [toNat_capped, toNat_capped]
    omega

section

variable {pre post : List Statement} {name : String}

/-- One more statement between others: the instructions and the data of a program. -/
theorem instrCount_insert (pre post : List Statement) (s : Statement) :
    instrCount (pre ++ s :: post) = instrCount (pre ++ post) + instrCount [s] := by
  rw [← List.singleton_append, instrCount_append, instrCount_append, instrCount_append]
  omega

theorem dataSizes_insert (pre post : List Statement) (s : Statement) :
    dataSizes (pre ++ s :: post) = dataSizes (pre ++ post) + s.dataSize := by
  rw [← List.singleton_append, ← List.append_assoc, dataSizes_append, dataSizes_concat,
    dataSizes_append]
  omega

theorem imageSize_insert (pre post : List Statement) (s : Statement) :
    (symbolsOf (pre ++ s :: post)).1.imageSize =
      (symbolsOf (pre ++ post)).1.imageSize + (4 * instrCount [s] + s.dataSize) := by
  have himage : ∀ program, (symbolsOf program).1.imageSize = programSize program :=
    fun _ => Layout.upTo_data _ _
  rw [himage, himage, programSize, programSize, instrCount_insert, dataSizes_insert, dataStart_eq,
    dataStart_eq]
  omega

/-! A name that is first defined before the place of the insertion. -/

theorem moves_of_definer?_before {t : Statement} (h : definer? pre name = some t) (s : Statement)
    {cells : Nat} (hcells : ∀ n earlier, t.addressAfter (dataStart (n + instrCount [s])) earlier =
      t.addressAfter (dataStart n) earlier + cells) :
    Moves (symbolsOf (pre ++ post)).1 (symbolsOf (pre ++ s :: post)).1 name cells := by
  obtain ⟨hkey, earlier, later, rfl, hnew⟩ := split_of_definer? h
  -- the first definition stands after the same statements in both programs
  have hbefore : nameAddress? (earlier ++ t :: (later ++ post)) name = _ :=
    nameAddress?_of_definer? hkey hnew
  have hafter : nameAddress? (earlier ++ t :: (later ++ s :: post)) name = _ :=
    nameAddress?_of_definer? hkey hnew
  rw [← List.cons_append, ← List.append_assoc] at hbefore hafter
  apply moves_of_nameAddress? hbefore
  rw [hafter, instrCount_insert, hcells]

/-- An earlier label stays where it is. -/
theorem moves_of_label_before (h : NamesCode pre name) (s : Statement) :
    Moves (symbolsOf (pre ++ post)).1 (symbolsOf (pre ++ s :: post)).1 name 0 := by
  obtain ⟨label, span, hdefiner⟩ := h
  exact moves_of_definer?_before hdefiner s fun _ _ => rfl

/-- Earlier data makes room for the code that is inserted. -/
theorem moves_of_word_before (h : NamesData pre name) (s : Statement) :
    Moves (symbolsOf (pre ++ post)).1 (symbolsOf (pre ++ s :: post)).1 name
      (4 * instrCount [s]) := by
  obtain ⟨label, values, span, hdefiner⟩ := h
  apply moves_of_definer?_before hdefiner
  intro n earlier
  show dataStart (n + instrCount [s]) + _ = dataStart n + _ + _
  rw [dataStart_eq, dataStart_eq]
  omega

/-! A name that is first defined after it. -/

theorem moves_of_definer?_after {t : Statement} (hpre : definer? pre name = none)
    (h : definer? post name = some t) {s : Statement} (hs : s.key? ≠ some (Text.uppercase name))
    {cells : Nat} (hcells : ∀ n earlier,
      t.addressAfter (dataStart (n + instrCount [s])) (pre ++ s :: earlier) =
        t.addressAfter (dataStart n) (pre ++ earlier) + cells) :
    Moves (symbolsOf (pre ++ post)).1 (symbolsOf (pre ++ s :: post)).1 name cells := by
  obtain ⟨hkey, earlier, later, rfl, hnew⟩ := split_of_definer? h
  -- the first definition stands after the new statement, which defines another name
  have hs' : definer? (s :: earlier) name = none := by
    rw [definer?_eq_none] at hnew ⊢
    exact List.forall_mem_cons.mpr ⟨hs, hnew⟩
  have hbefore : nameAddress? (pre ++ earlier ++ t :: later) name = _ :=
    nameAddress?_of_definer? hkey (by rw [definer?_append, hpre, hnew, Option.or_none])
  have hafter : nameAddress? (pre ++ s :: earlier ++ t :: later) name = _ :=
    nameAddress?_of_definer? hkey (by rw [definer?_append, hpre, hs', Option.or_none])
  rw [List.append_assoc] at hbefore hafter
  apply moves_of_nameAddress? hbefore
  rw [List.cons_append] at hafter
  rw [hafter, instrCount_insert, hcells]

/-- A later label stands for the same instruction. -/
theorem moves_of_label_after (hpre : definer? pre name = none) (h : NamesCode post name)
    {s : Statement} (hs : s.key? ≠ some (Text.uppercase name)) :
    Moves (symbolsOf (pre ++ post)).1 (symbolsOf (pre ++ s :: post)).1 name
      (4 * instrCount [s]) := by
  obtain ⟨label, span, hdefiner⟩ := h
  apply moves_of_definer?_after hpre hdefiner hs
  intro n earlier
  show instrCells * instrCount (pre ++ s :: earlier) = instrCells * instrCount (pre ++ earlier) + _
  rw [instrCount_insert, instrCells]
  omega

/-- Later data makes room for whatever is inserted. -/
theorem moves_of_word_after (hpre : definer? pre name = none) (h : NamesData post name)
    {s : Statement} (hs : s.key? ≠ some (Text.uppercase name)) :
    Moves (symbolsOf (pre ++ post)).1 (symbolsOf (pre ++ s :: post)).1 name
      (4 * instrCount [s] + s.dataSize) := by
  obtain ⟨label, values, span, hdefiner⟩ := h
  apply moves_of_definer?_after hpre hdefiner hs
  intro n earlier
  show dataStart (n + instrCount [s]) + dataSizes (pre ++ s :: earlier) =
    dataStart n + dataSizes (pre ++ earlier) + _
  rw [dataSizes_insert, dataStart_eq, dataStart_eq]
  omega

/-- A name of a program in two parts is first defined in the one or in the other. -/
theorem definer?_cases {t : Statement} (h : definer? (pre ++ post) name = some t) :
    definer? pre name = some t ∨ (definer? pre name = none ∧ definer? post name = some t) := by
  rw [definer?_append] at h
  exact Option.or_eq_some_iff.mp h

end

/-- **Relocation.** Insert a statement between `pre` and `post`.

* If it is a `word` with a new name, then the image has two more cells for each of its values, and
  two if there is none. No label moves, nor does any `word` that is first defined in `pre`; the
  `word`s that are first defined in `post` move by the same number of cells.
* If it is an instruction, then the image has four more cells. The labels that are first defined in
  `pre` stay, those that are first defined in `post` move by four cells, and so does every `word`,
  wherever it is defined. -/
theorem symbolsOf_relocation (pre post : List Statement) :
    (∀ (label : Label) (values : List Operand) (span : Span),
      (∀ t ∈ pre ++ post, t.key? ≠ some (Text.uppercase label.name)) →
      let before := (symbolsOf (pre ++ post)).1
      let after := (symbolsOf (pre ++ ⟨.word label values, span⟩ :: post)).1
      let cells := 2 * max 1 values.length
      after.imageSize = before.imageSize + cells ∧
        (∀ name, NamesCode (pre ++ post) name → Moves before after name 0) ∧
        (∀ name, NamesData pre name → Moves before after name 0) ∧
        ∀ name, definer? pre name = none → NamesData post name →
          Moves before after name cells) ∧
    ∀ (instr : SourceInstr) (span : Span),
      let before := (symbolsOf (pre ++ post)).1
      let after := (symbolsOf (pre ++ ⟨.instr instr, span⟩ :: post)).1
      after.imageSize = before.imageSize + 4 ∧
        (∀ name, NamesCode pre name → Moves before after name 0) ∧
        (∀ name, definer? pre name = none → NamesCode post name → Moves before after name 4) ∧
        ∀ name, NamesData (pre ++ post) name → Moves before after name 4 := by
  constructor
  · intro label values span hnew before after cells
    -- a `word` is no instruction, so it moves others by its data only
    have hcells : 4 * instrCount [⟨.word label values, span⟩] +
        dataSize ⟨.word label values, span⟩ = cells := by
      show 4 * 0 + valueCells * max values.length 1 = 2 * max 1 values.length
      rw [valueCells, Nat.max_comm]
      omega
    -- what is defined in `post` has another name
    have hother : ∀ name t, definer? post name = some t →
        key? ⟨.word label values, span⟩ ≠ some (Text.uppercase name) := by
      intro name t ht hsame
      obtain ⟨hkey, earlier, later, hpost, -⟩ := split_of_definer? ht
      apply hnew t
      · rw [hpost]
        exact List.mem_append_right _ (List.mem_append_right _ List.mem_cons_self)
      · rw [hkey, ← hsame]
        rfl
    refine ⟨?_, ?_, ?_, ?_⟩
    · rw [← hcells]
      exact imageSize_insert pre post _
    · rintro name ⟨l, sp, hdefiner⟩
      rcases definer?_cases hdefiner with hpre | ⟨hpre, hpost⟩
      · exact moves_of_label_before ⟨l, sp, hpre⟩ _
      · exact moves_of_label_after hpre ⟨l, sp, hpost⟩ (hother name _ hpost)
    · intro name hdata
      exact moves_of_word_before hdata _
    · rintro name hpre ⟨l, vs, sp, hdefiner⟩
      rw [← hcells]
      exact moves_of_word_after hpre ⟨l, vs, sp, hdefiner⟩ (hother name _ hdefiner)
  · intro instr span before after
    have hother : ∀ name, key? ⟨.instr instr, span⟩ ≠ some (Text.uppercase name) := nofun
    refine ⟨imageSize_insert pre post _, ?_, ?_, ?_⟩
    · intro name hcode
      exact moves_of_label_before hcode _
    · intro name hpre hcode
      exact moves_of_label_after hpre hcode (hother name)
    · rintro name ⟨l, vs, sp, hdefiner⟩
      rcases definer?_cases hdefiner with hpre | ⟨hpre, hpost⟩
      · exact moves_of_word_before ⟨l, vs, sp, hpre⟩ _
      · exact moves_of_word_after hpre ⟨l, vs, sp, hpost⟩ (hother name)

/-- The names `a` and `x` are defined once more in the second part, which does not count. -/
theorem symbolsOf_relocation_redefined :
    let pre : List Statement :=
      [⟨.label ⟨"x", 0⟩, ⟨0, 1⟩⟩, ⟨.word ⟨"a", 8⟩ [.literal 1], ⟨3, 11⟩⟩]
    let post : List Statement :=
      [⟨.word ⟨"A", 17⟩ [], ⟨12, 18⟩⟩, ⟨.label ⟨"y", 19⟩, ⟨19, 20⟩⟩, ⟨.instr .noop, ⟨22, 26⟩⟩,
        ⟨.word ⟨"c", 32⟩ [.literal 2], ⟨27, 35⟩⟩, ⟨.word ⟨"X", 41⟩ [], ⟨36, 42⟩⟩]
    let values : List Operand := [.literal 7, .literal 8, .literal 9]
    let before := (symbolsOf (pre ++ post)).1
    let after := (symbolsOf (pre ++ ⟨.word ⟨"w", 0⟩ values, ⟨0, 0⟩⟩ :: post)).1
    let after' := (symbolsOf (pre ++ ⟨.instr .noop, ⟨0, 0⟩⟩ :: post)).1
    before.address? "c" = some 16 ∧ Moves before after "c" 6 ∧ Moves before after "a" 0 ∧
      Moves before after "x" 0 ∧ Moves before after' "a" 4 ∧ Moves before after' "x" 0 ∧
      Moves before after' "y" 4 := by
  intro pre post values before after after'
  obtain ⟨hword, hinstr⟩ := symbolsOf_relocation pre post
  obtain ⟨-, hcode, hearlier, hlater⟩ := hword ⟨"w", 0⟩ values ⟨0, 0⟩ (by decide +kernel)
  obtain ⟨-, hcode', hlater', hdata'⟩ := hinstr .noop ⟨0, 0⟩
  have hx : definer? pre "x" = some ⟨.label ⟨"x", 0⟩, ⟨0, 1⟩⟩ := by decide +kernel
  have ha : definer? pre "a" = some ⟨.word ⟨"a", 8⟩ [.literal 1], ⟨3, 11⟩⟩ := by decide +kernel
  have hy : definer? pre "y" = none := by decide +kernel
  have hy' : definer? post "y" = some ⟨.label ⟨"y", 19⟩, ⟨19, 20⟩⟩ := by decide +kernel
  have hc : definer? pre "c" = none := by decide +kernel
  have hc' : definer? post "c" = some ⟨.word ⟨"c", 32⟩ [.literal 2], ⟨27, 35⟩⟩ := by
    decide +kernel
  -- what comes first in the first part comes first in the program
  have hxs : NamesCode (pre ++ post) "x" :=
    ⟨⟨"x", 0⟩, ⟨0, 1⟩, by rw [definer?_append, hx, Option.some_or]⟩
  have has : NamesData (pre ++ post) "a" :=
    ⟨⟨"a", 8⟩, [.literal 1], ⟨3, 11⟩, by rw [definer?_append, ha, Option.some_or]⟩
  exact ⟨by decide +kernel, hlater "c" hc ⟨_, _, _, hc'⟩, hearlier "a" ⟨_, _, _, ha⟩,
    hcode "x" hxs, hdata' "a" has, hcode' "x" ⟨_, _, hx⟩, hlater' "y" hy ⟨_, _, hy'⟩⟩

end Nic
