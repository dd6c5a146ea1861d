/-
The lines of a text, from the first newline on.

A text is one line without a newline, or such a line, a newline and the rest of the text. What
is said of all lines is proved by this induction (`lines_induction`), in which the line starts
and the line contents are found together (`linesFrom_append_newline`). The number of a line is that
of the newlines before each of its offsets (`Source.lineAt_of_line`).
-/
import Mathlib.Data.List.Basic
import Nic.Text.Lines

set_option autoImplicit false

namespace Nic.Text

/-- The induction over the lines of a text. -/
theorem lines_induction {motive : List Char → Prop} (last : ∀ line, '\n' ∉ line → motive line)
    (newline : ∀ line rest, '\n' ∉ line → motive rest → motive (line ++ '\n' :: rest))
    (cs : List Char) : motive cs := by
  by_cases h : '\n' ∈ cs
  · obtain ⟨line, rest, hcs, hline⟩ := List.eq_append_cons_of_mem h
    have hlt : rest.length < cs.length := by
      rw [hcs, List.length_append, List.length_cons]
      omega
    rw [hcs]
    exact newline line rest hline (lines_induction last newline rest)
  · exact last cs h
termination_by cs.length

/-! ## Contents -/

theorem splitLines_cons_of_ne {c : Char} (hc : c ≠ '\n') {cs line : List Char}
    {lines : List (List Char)} (h : splitLines cs = line :: lines) :
    splitLines (c :: cs) = (c :: line) :: lines := by
  rw [splitLines] at h
  rw [splitLines, List.foldr_cons, if_neg hc, h]

theorem splitLines_of_not_mem {line : List Char} (h : '\n' ∉ line) : splitLines line = [line] := by
  induction line with
  | nil => rfl
  | cons c line ih =>
    rw [List.mem_cons, not_or] at h
    exact splitLines_cons_of_ne (Ne.symm h.1) (ih h.2)

theorem splitLines_append_newline {line : List Char} (h : '\n' ∉ line) (rest : List Char) :
    splitLines (line ++ '\n' :: rest) = line :: splitLines rest := by
  induction line with
  | nil => rfl
  | cons c line ih =>
    rw [List.mem_cons, not_or] at h
    exact splitLines_cons_of_ne (Ne.symm h.1) (ih h.2)

/-! ## Starts -/

/-- The newlines found before stay in front. -/
theorem newlines_foldl (found : Array Nat) (offset : Nat) (cs : List Char) :
    (cs.foldl (fun (found, offset) c =>
      (if c = '\n' then found.push offset else found, offset + c.utf8Size))
        (found, offset)).1.toList =
      found.toList ++ newlinesFrom offset cs := by
  induction cs generalizing found offset with
  | nil => simp [newlinesFrom]
  | cons c cs ih =>
    rw [newlinesFrom, List.foldl_cons, List.foldl_cons, ih, ih]
    split <;> simp

theorem newlinesFrom_cons (offset : Nat) (c : Char) (cs : List Char) :
    newlinesFrom offset (c :: cs) =
      (if c = '\n' then [offset] else []) ++ newlinesFrom (offset + c.utf8Size) cs := by
  rw [newlinesFrom, List.foldl_cons, newlines_foldl]
  split <;> rfl

theorem newlinesFrom_of_not_mem {line : List Char} (h : '\n' ∉ line) (offset : Nat) :
    newlinesFrom offset line = [] := by
  induction line generalizing offset with
  | nil => rfl
  | cons c line ih =>
    rw [List.mem_cons, not_or] at h
    rw [newlinesFrom_cons, if_neg (Ne.symm h.1), ih h.2]
    rfl

theorem newlinesFrom_append (offset : Nat) (xs ys : List Char) :
    newlinesFrom offset (xs ++ ys) =
      newlinesFrom offset xs ++ newlinesFrom (offset + byteLength xs) ys := by
  induction xs generalizing offset with
  | nil => rfl
  | cons c xs ih =>
    rw [List.cons_append, newlinesFrom_cons, newlinesFrom_cons, ih, List.append_assoc,
      byteLength_cons, Nat.add_assoc]

/-! ## Lines -/

/-- The lines of a text that starts at an offset. -/
def linesFrom (offset : Nat) (cs : List Char) : List Line :=
  List.zipWith Line.mk (offset :: (newlinesFrom offset cs).map (· + 1)) (splitLines cs)

theorem Source.lines_eq (s : Source) : s.lines = linesFrom 0 s.text.toList := rfl

theorem linesFrom_of_not_mem {line : List Char} (h : '\n' ∉ line) (offset : Nat) :
    linesFrom offset line = [⟨offset, line⟩] := by
  rw [linesFrom, splitLines_of_not_mem h, newlinesFrom_of_not_mem h]
  rfl

/-- The first line ends at the first newline, and the others are those of the text after it. -/
theorem linesFrom_append_newline {line : List Char} (h : '\n' ∉ line) (rest : List Char)
    (offset : Nat) :
    linesFrom offset (line ++ '\n' :: rest) =
      ⟨offset, line⟩ :: linesFrom (offset + byteLength line + 1) rest := by
  rw [linesFrom, splitLines_append_newline h, newlinesFrom_append, newlinesFrom_of_not_mem h,
    newlinesFrom_cons, if_pos rfl]
  rfl

/-! ## Numbers -/

/-- Newlines are found in the text, not before it. -/
theorem le_of_mem_newlinesFrom {offset n : Nat} {cs : List Char} (h : n ∈ newlinesFrom offset cs) :
    offset ≤ n := by
  induction cs generalizing offset with
  | nil => cases h
  | cons c cs ih =>
    rw [newlinesFrom_cons, List.mem_append] at h
    rcases h with h | h
    · split at h
      · exact Nat.le_of_eq (List.mem_singleton.mp h).symm
      · cases h
    · exact Nat.le_of_add_right_le (ih h)

theorem le_start_of_mem_linesFrom {offset : Nat} {cs : List Char} {line : Line}
    (h : line ∈ linesFrom offset cs) : offset ≤ line.start := by
  induction cs using lines_induction generalizing offset with
  | last cs hcs =>
    rw [linesFrom_of_not_mem hcs, List.mem_singleton] at h
    exact Nat.le_of_eq (congrArg Line.start h).symm
  | newline cs rest hcs ih =>
    rw [linesFrom_append_newline hcs] at h
    rcases List.mem_cons.mp h with rfl | h
    · exact Nat.le_refl _
    · have := ih h
      omega

/-- The newlines before an offset of a line are those that end the lines before it. -/
theorem countP_newlinesFrom {base offset number : Nat} {cs : List Char} {line : Line}
    (h : (linesFrom base cs)[number]? = some line) (hstart : line.start ≤ offset)
    (hstop : offset ≤ line.start + byteLength line.chars) :
    (newlinesFrom base cs).countP (· < offset) = number := by
  induction cs using lines_induction generalizing base number with
  | last cs hcs =>
    rw [linesFrom_of_not_mem hcs, List.getElem?_singleton] at h
    have hnumber : number = 0 := by
      by_contra hne
      rw [if_neg hne] at h
      cases h
    rw [newlinesFrom_of_not_mem hcs, hnumber]
    rfl
  | newline cs rest hcs ih =>
    have hnewlines : newlinesFrom base (cs ++ '\n' :: rest) =
        (base + byteLength cs) :: newlinesFrom (base + byteLength cs + 1) rest := by
      rw [newlinesFrom_append, newlinesFrom_of_not_mem hcs, newlinesFrom_cons, if_pos rfl]
      rfl
    rw [linesFrom_append_newline hcs] at h
    rw [hnewlines]
    cases number with
    | zero =>
      -- the offset is on the first line, and no newline is before that
      obtain rfl : ⟨base, cs⟩ = line := Option.some.inj h
      rw [List.countP_eq_zero]
      intro n hn
      rcases List.mem_cons.mp hn with rfl | hn
      · simpa using hstop
      · have := le_of_mem_newlinesFrom hn
        simp only at hstop
        simp only [decide_eq_true_eq]
        omega
    | succ number =>
      have hrest := le_start_of_mem_linesFrom (List.mem_of_getElem? h)
      rw [List.countP_cons_of_pos (by simp only [decide_eq_true_eq]; omega), ih h]

theorem Source.lineAt_of_line {s : Source} {offset number : Nat} {line : Line}
    (h : s.lines[number]? = some line) (hstart : line.start ≤ offset)
    (hstop : offset ≤ line.start + byteLength line.chars) : s.lineAt offset = number :=
  countP_newlinesFrom (s.lines_eq ▸ h) hstart hstop

/-! ## Where a line stands -/

/-- `line` is a line of a text, with `before` in front of it and `after` behind it: it has no
newline, and there is a newline or nothing on both of its sides. -/
structure IsLine (cs before line after : List Char) : Prop where
  split : cs = before ++ line ++ after
  inside : '\n' ∉ line
  front : before = [] ∨ before.getLast? = some '\n'
  behind : after = [] ∨ after.head? = some '\n'

/-- **A line stands in the text after as many newlines as its number says.** -/
theorem isLine_of_line {base number : Nat} {cs : List Char} {line : Line}
    (h : (linesFrom base cs)[number]? = some line) :
    ∃ before after, IsLine cs before line.chars after ∧ line.start = base + byteLength before ∧
      before.count '\n' = number := by
  induction cs using lines_induction generalizing base number with
  | last cs hcs =>
    rw [linesFrom_of_not_mem hcs, List.getElem?_singleton] at h
    have hnumber : number = 0 := by
      by_contra hne
      rw [if_neg hne] at h
      cases h
    rw [if_pos hnumber] at h
    obtain rfl := Option.some.inj h
    exact ⟨[], [], ⟨by simp, hcs, .inl rfl, .inl rfl⟩, rfl, hnumber.symm⟩
  | newline cs rest hcs ih =>
    rw [linesFrom_append_newline hcs] at h
    cases number with
    | zero =>
      obtain rfl := Option.some.inj h
      exact ⟨[], '\n' :: rest, ⟨by simp, hcs, .inl rfl, .inr rfl⟩, rfl, rfl⟩
    | succ number =>
      obtain ⟨before, after, hline, hstart, hcount⟩ := ih h
      refine ⟨cs ++ '\n' :: before, after, ⟨?_, hline.inside, .inr ?_, hline.behind⟩, ?_, ?_⟩
      · simp [hline.split]
      · rcases hline.front with rfl | hlast
        · simp
        · simp [List.getLast?_append, List.getLast?_cons, hlast]
      · rw [hstart, byteLength_append, byteLength_cons]
        have hsize : '\n'.utf8Size = 1 := rfl
        omega
      · rw [List.count_append, List.count_cons_self, List.count_eq_zero_of_not_mem hcs, hcount,
          Nat.zero_add]

end Nic.Text
