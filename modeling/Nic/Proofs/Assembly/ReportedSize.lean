/-
The size that is named when a program is too large.

The error is found while the statements are laid out one by one, and it names a number of cells.
All instructions are counted by then, but data only as far as the walk has come: the number is the
size of the whole code and of the data up to the statement at which the error stands
(`symbolsOf_tooLarge`). So it is never more than the program needs, and it is less if a `word` comes
after that statement.

That an instruction can be reported with the size of the code alone is no exception. If there were
a `word` before it, the error would stand there: the code of the whole program, which counts from
the start, is too large already.
-/
import Nic.Proofs.Assembly.SymbolTable

set_option autoImplicit false

namespace Nic

namespace Statement

/-- The cells that a program is known to need when some of its statements are laid out: those of all
its code, and of the data so far. -/
def knownSize (program seen : List Statement) : Nat :=
  dataStart (instrCount program) + dataSizes seen

/-! ## The statement that is reported -/

/-- The error is that of a statement, and none is found before it. -/
theorem split_of_sizeFault? {d : Nat} {program : List Statement} {e : AssemblyError}
    (h : sizeFault? d program = some e) :
    ∃ earlier s later, program = earlier ++ s :: later ∧ exceeding? d earlier s = some e ∧
      sizeFault? d earlier = none := by
  induction program using List.reverseRecOn with
  | nil => simp [sizeFault?] at h
  | append_singleton xs s ih =>
    rw [sizeFault?_concat] at h
    by_cases hxs : sizeFault? d xs = none
    · rw [hxs, Option.none_or] at h
      exact ⟨xs, s, [], rfl, h, hxs⟩
    · obtain ⟨e', he'⟩ := Option.ne_none_iff_exists'.mp hxs
      rw [he', Option.some_or] at h
      obtain ⟨earlier, t, later, rfl, ht, hnone⟩ := ih (he'.trans h)
      exact ⟨earlier, t, later ++ [s], by simp, ht, hnone⟩

theorem bounds_of_sizeFault?_eq_none {d : Nat} {statements : List Statement}
    (h : sizeFault? d statements = none) :
    dataStart (instrCount statements) ≤ memoryCells ∧
      (0 < dataSizes statements → d + dataSizes statements ≤ memoryCells) := by
  have hnot : ¬ (sizeFault? d statements).isSome := by simp [h]
  rw [sizeFault?_isSome] at hnot
  omega

theorem dataStart_le {m n : Nat} (h : m ≤ n) : dataStart m ≤ dataStart n := by
  rw [dataStart_eq, dataStart_eq]
  omega

/-- **The number that is named is the size known so far.** -/
theorem error_of_exceeding? {program earlier later : List Statement} {s : Statement}
    {e : AssemblyError} (hsplit : program = earlier ++ s :: later)
    (hfirst : sizeFault? (dataStart (instrCount program)) earlier = none)
    (h : exceeding? (dataStart (instrCount program)) earlier s = some e) :
    e = .ofSpan (.programTooLarge (knownSize program (earlier ++ [s]))) s.span ∧
      memoryCells < knownSize program (earlier ++ [s]) := by
  have hbefore := bounds_of_sizeFault?_eq_none hfirst
  unfold exceeding? at h
  rw [knownSize, dataSizes_concat]
  cases hbody : s.body with
  | instr i =>
    rw [hbody] at h
    obtain ⟨hexceeds, he⟩ := Option.ite_none_right_eq_some.mp h
    have hcount : instrCount earlier + 1 ≤ instrCount program := by
      have hs : s.body.isInstr = true := by simp [hbody, Body.isInstr]
      rw [hsplit, List.append_cons, instrCount_append, instrCount_concat, if_pos hs]
      omega
    have hcode := dataStart_le hcount
    -- with data before it, an earlier statement would have been reported
    have hnone : dataSizes earlier = 0 := by omega
    have hsize : s.dataSize = 0 := by simp [dataSize, hbody]
    rw [hnone, hsize, ← Option.some.inj he]
    exact ⟨rfl, by omega⟩
  | label label =>
    rw [hbody] at h
    simp at h
  | word label values =>
    rw [hbody] at h
    obtain ⟨hexceeds, he⟩ := Option.ite_none_right_eq_some.mp h
    rw [← Option.some.inj he, ← Nat.add_assoc]
    exact ⟨rfl, hexceeds⟩

/-! ## What is not counted -/

theorem dataSize_eq_zero_iff {s : Statement} : s.dataSize = 0 ↔ s.dataLabel? = none := by
  constructor
  · intro hsize
    by_contra hsome
    obtain ⟨label, hlabel⟩ := Option.ne_none_iff_exists'.mp hsome
    have hpos := dataSize_pos hlabel
    omega
  · intro hnone
    unfold dataLabel? at hnone
    unfold dataSize
    split
    · simp_all
    · rfl

/-- There is no data exactly if there is no `word`. -/
theorem dataSizes_eq_zero_iff {statements : List Statement} :
    dataSizes statements = 0 ↔ ∀ s ∈ statements, s.dataLabel? = none := by
  unfold dataSizes
  rw [List.sum_eq_zero_iff_forall_eq_nat, List.forall_mem_map]
  simp only [dataSize_eq_zero_iff]

theorem knownSize_add {program earlier later : List Statement} {s : Statement}
    (hsplit : program = earlier ++ s :: later) :
    knownSize program (earlier ++ [s]) + dataSizes later = programSize program := by
  have hsizes : dataSizes program = dataSizes (earlier ++ [s]) + dataSizes later := by
    rw [hsplit, List.append_cons, dataSizes_append]
  unfold knownSize programSize
  omega

end Statement

open Statement

/-! ## Errors of a program -/

theorem fault_of_mem_duplicates {d : Nat} {program : List Statement} {e : AssemblyError}
    (h : e ∈ duplicates d program) : e.fault = .duplicateLabel := by
  obtain ⟨⟨earlier, s⟩, -, hs⟩ := List.mem_filterMap.mp h
  obtain ⟨label, -, hlabel⟩ := Option.bind_eq_some_iff.mp hs
  obtain ⟨first, -, rfl⟩ := Option.map_eq_some_iff.mp hlabel
  rfl

theorem mem_symbolsOf_errors {program : List Statement} {e : AssemblyError} :
    e ∈ (symbolsOf program).2 ↔ e ∈ duplicates (dataStart (instrCount program)) program ∨
      sizeFault? (dataStart (instrCount program)) program = some e := by
  have hperm := Layout.upTo_errors_perm (dataStart (instrCount program)) program
  have herrors : (symbolsOf program).2 =
      (Layout.upTo (dataStart (instrCount program)) program).errors.toList := rfl
  rw [herrors, hperm.mem_iff, List.mem_append, Option.mem_toList]

/-- Of the errors of a layout, only the one about the size names a number of cells. -/
theorem sizeFault?_of_tooLarge {program : List Statement} {e : AssemblyError} {cells : Nat}
    (h : e ∈ (symbolsOf program).2) (hfault : e.fault = .programTooLarge cells) :
    sizeFault? (dataStart (instrCount program)) program = some e := by
  rcases mem_symbolsOf_errors.mp h with hdup | hsize
  · rw [fault_of_mem_duplicates hdup] at hfault
    simp at hfault
  · exact hsize

/-- An error about the size names the size of the whole program. -/
def NamesWholeSize : Prop :=
  ∀ (program : List Statement) (e : AssemblyError) (cells : Nat), e ∈ (symbolsOf program).2 →
    e.fault = .programTooLarge cells → cells = programSize program

/-- The statements of so many lines `halt`. -/
def haltLines (n : Nat) : List Statement :=
  (List.range n).map fun i => ⟨.instr .halt, ⟨5 * i, 5 * i + 4⟩⟩

/-- Sixty-three instructions are too large by themselves, and the data after them is not counted. -/
theorem not_namesWholeSize : ¬ NamesWholeSize := by
  intro hwhole
  let program := haltLines 63 ++ [⟨.word ⟨"w", 320⟩ [.literal 1], ⟨315, 323⟩⟩]
  have hmem : .ofSpan (.programTooLarge 260) ⟨310, 314⟩ ∈ (symbolsOf program).2 := by
    decide +kernel
  have hsize : programSize program = 262 := by decide +kernel
  have heq := hwhole program _ 260 hmem rfl
  omega

/-- **The size that is named.** Take any program. Its layout has an error about the size exactly if
the program has more cells than the memory. The error stands at the first statement with which the
size that is known by then, of all code and of the data so far, exceeds the memory, and this is the
number of cells that it names. It differs from the size of the program by the data after that
statement, so it is the size of the program exactly if no `word` comes after it. -/
theorem symbolsOf_tooLarge (program : List Statement) :
    ((∃ e ∈ (symbolsOf program).2, ∃ cells, e.fault = .programTooLarge cells) ↔
      memoryCells < programSize program) ∧
    ∀ e ∈ (symbolsOf program).2, ∀ cells, e.fault = .programTooLarge cells →
      ∃ earlier s later, program = earlier ++ s :: later ∧
        e = .ofSpan (.programTooLarge cells) s.span ∧
        cells = knownSize program (earlier ++ [s]) ∧ memoryCells < cells ∧
        (0 < dataSizes earlier → knownSize program earlier ≤ memoryCells) ∧
        cells + dataSizes later = programSize program ∧
        (cells = programSize program ↔ ∀ t ∈ later, t.dataLabel? = none) := by
  refine ⟨?_, ?_⟩
  · rw [← sizeFault?_isSome_iff, Option.isSome_iff_exists]
    constructor
    · rintro ⟨e, he, cells, hfault⟩
      exact ⟨e, sizeFault?_of_tooLarge he hfault⟩
    · rintro ⟨e, he⟩
      obtain ⟨cells, s, -, rfl⟩ := sizeFault?_eq_some he
      exact ⟨_, mem_symbolsOf_errors.mpr (.inr he), cells, rfl⟩
  · intro e he cells hfault
    obtain ⟨earlier, s, later, hsplit, hexceeding, hfirst⟩ :=
      split_of_sizeFault? (sizeFault?_of_tooLarge he hfault)
    obtain ⟨rfl, hlarge⟩ := error_of_exceeding? hsplit hfirst hexceeding
    obtain rfl : knownSize program (earlier ++ [s]) = cells :=
      AssemblyFault.programTooLarge.inj hfault
    have hrest := knownSize_add hsplit
    refine ⟨earlier, s, later, hsplit, rfl, rfl, hlarge,
      (bounds_of_sizeFault?_eq_none hfirst).2, hrest, ?_⟩
    rw [← dataSizes_eq_zero_iff]
    omega

/-- The first `word` does not fit any more, and is reported without the second one. -/
theorem symbolsOf_tooLarge_second_word :
    let program := haltLines 61 ++
      [⟨.word ⟨"v", 310⟩ [.literal 1, .literal 2, .literal 3], ⟨305, 317⟩⟩,
        ⟨.word ⟨"w", 323⟩ [], ⟨318, 324⟩⟩]
    let e : AssemblyError := .ofSpan (.programTooLarge 258) ⟨305, 317⟩
    e ∈ (symbolsOf program).2 ∧ programSize program = 260 ∧
      ∃ earlier s later, program = earlier ++ s :: later ∧ s.span = ⟨305, 317⟩ ∧
        258 = knownSize program (earlier ++ [s]) ∧ 258 + dataSizes later = 260 ∧
        ¬ ∀ t ∈ later, t.dataLabel? = none := by
  intro program e
  have he : e ∈ (symbolsOf program).2 := by decide +kernel
  have hsize : programSize program = 260 := by decide +kernel
  obtain ⟨earlier, s, later, hsplit, hspan, hcells, -, -, hrest, hwhole⟩ :=
    (symbolsOf_tooLarge program).2 e he 258 rfl
  rw [hsize] at hrest hwhole
  refine ⟨he, hsize, earlier, s, later, hsplit, (congrArg AssemblyError.first hspan).symm, hcells,
    hrest, ?_⟩
  rw [← hwhole]
  omega

end Nic
