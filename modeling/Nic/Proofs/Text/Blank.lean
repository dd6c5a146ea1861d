/-
Texts without the white space around them.

`trim` drops white space at the start and then, from the end, at the other side. `Trimmed` says what
is meant: the text is what is left with white space on both sides, and what is left neither begins
nor ends with white space. There is always exactly one such text, and it is the trimmed one
(`trimmed_trim`, `Trimmed.eq_trim`).
-/
import Mathlib.Data.List.DropRight
import Nic.Text.Blank

set_option autoImplicit false

namespace Nic.Text

/-- `u` is `cs` without the white space on both sides. -/
structure Trimmed (cs u : List Char) : Prop where
  split : ∃ before after, cs = before ++ u ++ after ∧ ∀ c ∈ before ++ after, isBlank c
  head : ∀ c ∈ u.head?, ¬ isBlank c
  last : ∀ c ∈ u.getLast?, ¬ isBlank c

/-! ## What is left of a text -/

theorem not_isBlank_of_head?_trimStart {cs : List Char} {c : Char}
    (h : (trimStart cs).head? = some c) : ¬ isBlank c := by
  have hnot := List.head?_dropWhile_not isBlank cs
  rw [trimStart] at h
  rw [h] at hnot
  exact Bool.not_eq_true _ |>.mpr hnot

theorem not_isBlank_of_getLast?_trimEnd {cs : List Char} {c : Char}
    (h : (trimEnd cs).getLast? = some c) : ¬ isBlank c := by
  rw [trimEnd, List.getLast?_reverse] at h
  exact not_isBlank_of_head?_trimStart h

/-- **Trimming leaves a text without the white space around it.** -/
theorem trimmed_trim (cs : List Char) : Trimmed cs (trim cs) where
  split := by
    refine ⟨cs.takeWhile isBlank, (trimStart cs).rtakeWhile isBlank, ?_, fun c hc => ?_⟩
    · have hend : trim cs ++ (trimStart cs).rtakeWhile isBlank = trimStart cs :=
        List.rdropWhile_append_rtakeWhile
      rw [List.append_assoc, hend]
      exact List.takeWhile_append_dropWhile.symm
    · rcases List.mem_append.mp hc with hc | hc
      · exact List.mem_takeWhile_imp hc
      · exact List.mem_rtakeWhile_imp hc
  head := by
    -- what is cut off at the end leaves the first character alone, if any is left
    intro c hc
    obtain ⟨rest, hrest⟩ : trim cs <+: trimStart cs := List.rdropWhile_prefix isBlank _
    have hhead : (trimStart cs).head? = some c := by
      rw [← hrest, List.head?_append, hc]
      rfl
    exact not_isBlank_of_head?_trimStart hhead
  last := fun _ hc => not_isBlank_of_getLast?_trimEnd hc

/-! ## Nothing else is -/

theorem trimStart_append {blanks cs : List Char} (hblanks : ∀ c ∈ blanks, isBlank c)
    (hcs : ∀ c ∈ cs.head?, ¬ isBlank c) : trimStart (blanks ++ cs) = cs := by
  rw [trimStart, List.dropWhile_append_of_pos hblanks]
  cases cs with
  | nil => rfl
  | cons c cs => exact List.dropWhile_cons_of_neg (hcs c rfl)

theorem trimEnd_append {cs blanks : List Char} (hblanks : ∀ c ∈ blanks, isBlank c)
    (hcs : ∀ c ∈ cs.getLast?, ¬ isBlank c) : trimEnd (cs ++ blanks) = cs := by
  have hreverse : trimStart (blanks.reverse ++ cs.reverse) = cs.reverse := by
    refine trimStart_append (fun c hc => hblanks c (List.mem_reverse.mp hc)) ?_
    rw [List.head?_reverse]
    exact hcs
  rw [trimEnd, List.reverse_append]
  exact (congrArg List.reverse hreverse).trans (List.reverse_reverse cs)

/-- **Only one text is left.** -/
theorem Trimmed.eq_trim {cs u : List Char} (h : Trimmed cs u) : u = trim cs := by
  obtain ⟨before, after, rfl, hblanks⟩ := h.split
  obtain ⟨hbefore, hafter⟩ := List.forall_mem_append.mp hblanks
  rw [trim, List.append_assoc]
  by_cases hu : u = []
  · -- all of the text is white space, and goes at the start
    subst hu
    have hnil : trimStart (before ++ after ++ []) = [] :=
      trimStart_append hblanks (fun c hc => nomatch hc)
    rw [List.append_nil] at hnil
    rw [List.nil_append, hnil]
    rfl
  · have hhead : ∀ c ∈ (u ++ after).head?, ¬ isBlank c := by
      rw [List.head?_append_of_ne_nil u hu]
      exact h.head
    rw [trimStart_append hbefore hhead, trimEnd_append hafter h.last]

end Nic.Text
