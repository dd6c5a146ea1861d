/-
Assembling at once and assembling in stages.

A source can be assembled at once, which gives all of its errors up to a number, or it can be read
first and its statements assembled then, where each stage gives one error. The errors are selected
differently: the reader gives the first one that it comes across, the assembler of statements the
first one after sorting, and assembling at once sorts all of them and cuts off.

They agree for two reasons. The errors of lines are found in the order of their places
(`errors_increasing`), so that sorting leaves them alone. And statements go through the same sorting
in both ways, so that errors at one place come out in the same order.
-/
import Nic.Proofs.Assembly.Faults
import Nic.Proofs.Statement.Lines

set_option autoImplicit false

namespace Nic

/-! ## Sorting -/

namespace AssemblyError

/-- Errors are in the order of their first places. -/
def Ordered (errors : List AssemblyError) : Prop :=
  errors.Pairwise fun e f => e.first.start ≤ f.first.start

theorem ordered_sort (errors : List AssemblyError) : Ordered (sort errors) := by
  rw [Ordered, sort]
  refine (List.pairwise_mergeSort ?_ ?_ errors).imp of_decide_eq_true
  · intro e f g hef hfg
    simp only [decide_eq_true_eq] at hef hfg ⊢
    exact Nat.le_trans hef hfg
  · intro e f
    simp only [Bool.or_eq_true, decide_eq_true_eq]
    exact Nat.le_total _ _

theorem sort_of_ordered {errors : List AssemblyError} (h : Ordered errors) :
    sort errors = errors := by
  apply List.mergeSort_of_pairwise
  exact h.imp decide_eq_true

end AssemblyError

open AssemblyError

/-! ## The errors of a source -/

/-- The errors of a source, in the order in which they are found: those of its lines if there are
any, else those of its program. -/
def foundErrors (source : String) : List AssemblyError :=
  if (parse source).errors = [] then (build (parse source).statements).2
  else (parse source).errors.map ofSyntax

/-- **A source without errors is assembled; of one with errors, so many are reported.** -/
theorem assemble_eq (source : String) (maxErrors : Nat) :
    assemble source maxErrors =
      if foundErrors source = [] then .ok (build (parse source).statements).1
      else .error ⟨reportedErrors maxErrors (sort (foundErrors source)), ⟨source⟩⟩ := by
  rw [assemble, assembleAll, foundErrors]
  by_cases hlines : (parse source).errors = []
  · by_cases hprogram : (build (parse source).statements).2 = []
    · simp [hlines, hprogram, Except.mapError]
    · simp [hlines, hprogram, Except.mapError]
  · simp [hlines, Except.mapError]

theorem assemble_eq_error_iff {source : String} {maxErrors : Nat} {d : Diagnostics} :
    assemble source maxErrors = .error d ↔
      foundErrors source ≠ [] ∧
        d = ⟨reportedErrors maxErrors (sort (foundErrors source)), ⟨source⟩⟩ := by
  rw [assemble_eq]
  split
  next h => simp [h]
  next h => simp [h, eq_comm (a := d)]

/-- The errors of lines are sorted as they are found. -/
theorem sort_foundErrors_of_lines {source : String} (h : (parse source).errors ≠ []) :
    sort (foundErrors source) = (parse source).errors.map ofSyntax := by
  have hordered : Ordered ((parse source).errors.map ofSyntax) := by
    have hincreasing := errors_increasing 0 source.toList
    rw [Ordered, List.pairwise_map]
    exact (List.pairwise_map.mp hincreasing).imp Nat.le_of_lt
  rw [foundErrors, if_neg h]
  exact sort_of_ordered hordered

/-! ## Stages -/

theorem parseProgram_eq_ok_iff {source : String} {program : List Statement} :
    parseProgram source = .ok program ↔
      (parse source).errors = [] ∧ (parse source).statements = program := by
  rw [parseProgram]
  cases (parse source).errors <;> simp

theorem parseProgram_eq_error_iff {source : String} {e : SyntaxError} :
    parseProgram source = .error e ↔ (parse source).errors.head? = some e := by
  rw [parseProgram]
  cases (parse source).errors <;> simp

theorem assembleStatements_eq_error_iff {program : List Statement} {e : AssemblyError} :
    assembleStatements program = .error e ↔ (sort (build program).2).head? = some e := by
  rw [assembleStatements]
  dsimp only
  cases sort (build program).2 <;> simp

/-- The error of a source that is assembled in stages: that of the first stage that fails. -/
inductive StageError (source : String) : AssemblyError → Prop where
  | read {e : SyntaxError} (h : parseProgram source = .error e) : StageError source (.ofSyntax e)
  | assemble {program : List Statement} {e : AssemblyError}
    (hread : parseProgram source = .ok program) (h : assembleStatements program = .error e) :
    StageError source e

/-- **The first error in the order of places is that of the first stage that fails.** -/
theorem stageError_iff {source : String} {e : AssemblyError} :
    StageError source e ↔ (sort (foundErrors source)).head? = some e := by
  by_cases hlines : (parse source).errors = []
  · have hfound : foundErrors source = (build (parse source).statements).2 := if_pos hlines
    rw [hfound, ← assembleStatements_eq_error_iff]
    constructor
    · intro h
      cases h with
      | read h =>
        rw [parseProgram_eq_error_iff, hlines] at h
        cases h
      | assemble hread h =>
        obtain ⟨-, rfl⟩ := parseProgram_eq_ok_iff.mp hread
        exact h
    · exact .assemble (parseProgram_eq_ok_iff.mpr ⟨hlines, rfl⟩)
  · rw [sort_foundErrors_of_lines hlines, List.head?_map, Option.map_eq_some_iff]
    constructor
    · intro h
      cases h with
      | read h => exact ⟨_, parseProgram_eq_error_iff.mp h, rfl⟩
      | assemble hread h => exact absurd (parseProgram_eq_ok_iff.mp hread).1 hlines
    · rintro ⟨s, hs, rfl⟩
      exact .read (parseProgram_eq_error_iff.mpr hs)

/-! ## Reporting some of the errors -/

theorem reportedErrors_ne_nil {errors : List AssemblyError} (h : errors ≠ []) (maxErrors : Nat) :
    reportedErrors maxErrors errors ≠ [] := by
  rw [reportedErrors, Ne, List.take_eq_nil_iff]
  rintro (hzero | hnil)
  · omega
  · exact h hnil

theorem head?_reportedErrors (maxErrors : Nat) (errors : List AssemblyError) :
    (reportedErrors maxErrors errors).head? = errors.head? := by
  rw [reportedErrors, List.head?_take, if_neg]
  omega

theorem ordered_reportedErrors {errors : List AssemblyError} (h : Ordered errors)
    (maxErrors : Nat) : Ordered (reportedErrors maxErrors errors) :=
  h.sublist (List.take_sublist _ _)

/-- Who asks for more errors gets the same ones first. -/
theorem reportedErrors_of_le {maxErrors larger : Nat} (h : maxErrors ≤ larger)
    (errors : List AssemblyError) :
    reportedErrors maxErrors errors = (reportedErrors larger errors).take (max maxErrors 1) := by
  rw [reportedErrors, reportedErrors, List.take_take, Nat.min_eq_left]
  omega

/-- **Assembling at once agrees with assembling in stages.** A source is assembled exactly if it
can be read and its statements assembled, with the same executable. If it is not assembled, then
the errors that are reported are in the order of their places, and the first of them is the error
of the first stage that fails; there is at least one. If there are errors in lines, no others are
reported. Who asks for fewer errors gets the first ones of those that there are. -/
theorem assemble_agrees_with_stages (source : String) (maxErrors : Nat) :
    (∀ e, assemble source maxErrors = .ok e ↔
      ∃ program, parseProgram source = .ok program ∧ assembleStatements program = .ok e) ∧
    ∀ d, assemble source maxErrors = .error d →
      d.errors ≠ [] ∧
      (∀ first, d.errors.head? = some first ↔ StageError source first) ∧
      d.errors.Pairwise (fun e f => e.first.start ≤ f.first.start) ∧
      ((parse source).errors ≠ [] →
        d.errors = ((parse source).errors.take (max maxErrors 1)).map ofSyntax) ∧
      ∀ larger, maxErrors ≤ larger →
        ∃ d', assemble source larger = .error d' ∧
          d.errors = d'.errors.take (max maxErrors 1) := by
  refine ⟨fun e => ?_, fun d hd => ?_⟩
  · rw [assemble_eq_ok_iff]
    constructor
    · rintro ⟨hlines, hprogram, rfl⟩
      exact ⟨_, parseProgram_eq_ok_iff.mpr ⟨hlines, rfl⟩,
        assembleStatements_eq_ok_iff.mpr ⟨hprogram, rfl⟩⟩
    · rintro ⟨program, hread, hassemble⟩
      obtain ⟨hlines, rfl⟩ := parseProgram_eq_ok_iff.mp hread
      exact ⟨hlines, assembleStatements_eq_ok_iff.mp hassemble⟩
  · obtain ⟨hfound, rfl⟩ := assemble_eq_error_iff.mp hd
    refine ⟨?_, fun first => ?_, ?_, fun hlines => ?_, fun larger hlarger => ?_⟩
    · exact reportedErrors_ne_nil (mt sort_eq_nil_iff.mp hfound) maxErrors
    · rw [stageError_iff, head?_reportedErrors]
    · exact ordered_reportedErrors (ordered_sort _) maxErrors
    · rw [sort_foundErrors_of_lines hlines, reportedErrors, List.map_take]
    · exact ⟨_, assemble_eq_error_iff.mpr ⟨hfound, rfl⟩, reportedErrors_of_le hlarger _⟩

/-- A label that is defined twice and one that is not defined: the second pass finds the error that
comes first in the source. -/
theorem assemble_agrees_with_stages_later_pass_first :
    let source := "jump b\na: a: halt"
    let first := AssemblyError.ofSpan .undefinedLabel ⟨5, 6⟩
    let second : AssemblyError := ⟨.duplicateLabel, ⟨7, 8⟩, some ⟨10, 11⟩⟩
    foundErrors source = [second, first] ∧ assemble source 1 = .error ⟨[first], ⟨source⟩⟩ ∧
      StageError source first ∧
      ∃ d', assemble source 2 = .error d' ∧ [first] = d'.errors.take 1 := by
  intro source first second
  have hfound : foundErrors source = [second, first] := by decide +kernel
  have hsort : sort [second, first] = [first, second] := by
    simp [sort, List.mergeSort, first, second, AssemblyError.ofSpan]
  have hd : assemble source 1 = .error ⟨[first], ⟨source⟩⟩ := by
    rw [assemble_eq_error_iff, hfound, hsort]
    exact ⟨List.cons_ne_nil _ _, rfl⟩
  obtain ⟨-, hfirst, -, -, hlarger⟩ := (assemble_agrees_with_stages source 1).2 _ hd
  exact ⟨hfound, hd, (hfirst first).mp rfl, hlarger 2 (by decide)⟩

end Nic
