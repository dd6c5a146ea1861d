/-
The layout of a text is insignificant.

An `Insertion` puts something into a source that means nothing there: blanks and commas between
tokens, a comment at the end of a line, a newline beside another or at either end. In a source
without errors none of these changes the lines of tokens (`meaningLines_insertion`), so the program
stays the same (`assemble_of_insertions`).

What has to be shown is that nothing grows into what is inserted or is cut by it. Where a text is
free of errors only a comment can grow (`splits_or_comment`), and what a comment swallows is on its
line and would have been left out anyway.
-/
import Mathlib.Logic.Relation
import Nic.Proofs.Assembly.Places
import Nic.Proofs.Statement.LineGrammar

set_option autoImplicit false

namespace Nic

open Token

/-! ## What means nothing -/

/-- The characters that separate tokens and mean nothing else. -/
def separators : List Char := [' ', '\t', '\r', '\x0c', ',']

/-- A change of a text by putting in something that means nothing there. -/
inductive Insertion : String → String → Prop where
  /-- Separators, at a place that is not within a token. -/
  | separators {x y w : String} (hw : ∀ c ∈ w.toList, c ∈ separators)
    (h : ∀ l ∈ scan (x ++ y), ¬ (l.span.start < x.utf8ByteSize ∧ x.utf8ByteSize < l.span.stop)) :
    Insertion (x ++ y) (x ++ w ++ y)
  /-- A comment, before a newline or at the end. -/
  | comment {x y t : String} (ht : '\n' ∉ t.toList) (h : ∀ c ∈ y.toList.head?, c = '\n') :
    Insertion (x ++ y) (x ++ ("//" ++ t) ++ y)
  /-- A newline, beside another one or at the start or at the end. -/
  | newline {x y : String}
    (h : x = "" ∨ y = "" ∨ x.toList.getLast? = some '\n' ∨ y.toList.head? = some '\n') :
    Insertion (x ++ y) (x ++ "\n" ++ y)

/-- The lines of tokens of a text, without their places. -/
def meaningLines (cs : List Char) : List (List Lexeme) :=
  tokenLines (unplaced (values cs))

theorem meaningLines_nil : meaningLines [] = [] := by
  rw [meaningLines, values_nil]
  rfl

/-- A newline separates lines of tokens. -/
theorem meaningLines_newline (x y : List Char) :
    meaningLines (x ++ '\n' :: y) = meaningLines x ++ meaningLines y := by
  rw [meaningLines, unplaced_values_newline, tokenLines_append_newline]
  rfl

/-- Commas and comments among tokens change no line. -/
theorem tokenLines_insignificant {m : List Lexeme} (hm : ∀ l ∈ m, isSignificant l = false)
    (xs ys : List Lexeme) : tokenLines (xs ++ (m ++ ys)) = tokenLines (xs ++ ys) := by
  have hskip : ∀ lines, m.foldr consLexeme lines = lines := by
    intro lines
    induction m with
    | nil => rfl
    | cons l m ih =>
      rw [List.foldr_cons, ih fun k hk => hm k (List.mem_cons_of_mem _ hk),
        consLexeme_of_insignificant (hm l List.mem_cons_self)]
  simp only [tokenLines, List.foldr_append, hskip]

/-! ## Separators -/

/-- A separator is no part of a token but a comma, whatever follows it. -/
theorem values_separator {c : Char} (hc : c ∈ separators) (cs : List Char) :
    values (c :: cs) = (if c = ',' then [.ok .comma] else []) ++ values cs := by
  have hpiece : pieceAt c cs = ⟨if c = ',' then some (.ok .comma) else none, 0⟩ := by
    simp only [separators, List.mem_cons, List.not_mem_nil, or_false] at hc
    rcases hc with rfl | rfl | rfl | rfl | rfl <;> rfl
  rw [values_cons, hpiece]
  split <;> rfl

theorem values_separators {w : List Char} (hw : ∀ c ∈ w, c ∈ separators) (y : List Char) :
    ∃ m, values (w ++ y) = m ++ values y ∧ ∀ v ∈ m, v = .ok .comma := by
  induction w with
  | nil => exact ⟨[], rfl, by simp⟩
  | cons c w ih =>
    obtain ⟨m, hvalues, hm⟩ := ih fun d hd => hw d (List.mem_cons_of_mem _ hd)
    refine ⟨(if c = ',' then [.ok .comma] else []) ++ m, ?_, ?_⟩
    · rw [List.cons_append, values_separator (hw c List.mem_cons_self), hvalues, List.append_assoc]
    · intro v hv
      rcases List.mem_append.mp hv with hv | hv
      · split at hv
        · exact List.mem_singleton.mp hv
        · cases hv
      · exact hm v hv

theorem breaks_of_separator {c : Char} (hc : c ∈ separators) (cs : List Char) :
    Breaks (c :: cs) := by
  rintro d hd
  cases hd
  simp only [separators, List.mem_cons, List.not_mem_nil, or_false] at hc
  rcases hc with rfl | rfl | rfl | rfl | rfl <;> decide

/-! ## Comments -/

/-- A comment goes on to the next newline. -/
theorem values_comment (t : List Char) :
    values ('/' :: '/' :: t) = .ok .comment :: values (t.dropWhile (· != '\n')) := by
  have hdrop : ∀ cs : List Char,
      cs.drop (cs.takeWhile (· != '\n')).length = cs.dropWhile (· != '\n') := by
    intro cs
    have happend := @List.drop_left _ (cs.takeWhile (· != '\n')) (cs.dropWhile (· != '\n'))
    rwa [List.takeWhile_append_dropWhile] at happend
  have hpiece : pieceAt '/' ('/' :: t) =
      ⟨some (.ok .comment), (('/' :: t).takeWhile (· != '\n')).length⟩ := rfl
  rw [values_cons, hpiece, hdrop, List.dropWhile_cons_of_pos rfl]
  rfl

/-- What is on the line of a comment is part of it. -/
theorem values_comment_append {t : List Char} (ht : '\n' ∉ t) (y : List Char) :
    values ('/' :: '/' :: (t ++ y)) = values ('/' :: '/' :: y) := by
  rw [values_comment, values_comment, List.dropWhile_append_of_pos]
  intro c hc
  rw [bne_iff_ne]
  rintro rfl
  exact ht hc

/-- **Where something insignificant can be put in.** After a text without errors there can be any
text without a newline that breaks tokens and gives only what means nothing. If the text before it
ends in a comment, what is put in becomes part of that. -/
theorem meaningLines_insert {x w y : List Char} (herror : ∀ fault, .error fault ∉ values x)
    (hline : '\n' ∉ w) (hbreaks : Breaks (w ++ y)) (hsplit : Splits x y)
    (hw : ∃ m, values (w ++ y) = m ++ values y ∧
      ∀ v ∈ m, isSignificant ⟨v, ⟨0, 0⟩⟩ = false) :
    meaningLines (x ++ (w ++ y)) = meaningLines (x ++ y) := by
  rcases splits_or_comment herror with hclosed | ⟨x₁, t, rfl, ht, hopen⟩
  · obtain ⟨m, hvalues, hm⟩ := hw
    rw [meaningLines, meaningLines, (hclosed _ hbreaks).values_append, hsplit.values_append,
      hvalues, unplaced_append, unplaced_append, unplaced_append]
    refine tokenLines_insignificant (fun l hl => ?_) _ _
    obtain ⟨v, hv, rfl⟩ := List.mem_map.mp hl
    exact hm v hv
  · have hvalues : ∀ u, '\n' ∉ u → values (x₁ ++ '/' :: '/' :: t ++ (u ++ y)) =
        values x₁ ++ values ('/' :: '/' :: y) := by
      intro u hu
      rw [List.append_assoc, List.cons_append, List.cons_append, (hopen _).values_append,
        values_comment_append ht, values_comment_append hu]
    rw [meaningLines, meaningLines, hvalues w hline]
    exact congrArg (fun v => tokenLines (unplaced v)) (hvalues [] List.not_mem_nil).symm

/-! ## Sources without errors -/

/-- What is on a line stays on one. -/
theorem mem_consLexeme {k l : Lexeme} {lines : List (List Lexeme)} (h : ∃ line ∈ lines, l ∈ line) :
    ∃ line ∈ consLexeme k lines, l ∈ line := by
  obtain ⟨line, hline, hl⟩ := h
  unfold consLexeme
  split
  · exact ⟨line, List.mem_cons_of_mem _ hline, hl⟩
  · exact ⟨line, hline, hl⟩
  · exact ⟨line, hline, hl⟩
  · cases lines with
    | nil => cases hline
    | cons first rest =>
      rcases List.mem_cons.mp hline with rfl | hline
      · exact ⟨k :: line, List.mem_cons_self, List.mem_cons_of_mem _ hl⟩
      · exact ⟨line, List.mem_cons_of_mem _ hline, hl⟩

/-- A fault is on a line. -/
theorem mem_tokenLines_of_fault {lexemes : List Lexeme} {fault : LexicalFault} {span : Span}
    (hl : ⟨.error fault, span⟩ ∈ lexemes) :
    ∃ line ∈ tokenLines lexemes, ⟨.error fault, span⟩ ∈ line := by
  have hfold : ∃ line ∈ lexemes.foldr consLexeme [[]], ⟨.error fault, span⟩ ∈ line := by
    induction lexemes with
    | nil => cases hl
    | cons k lexemes ih =>
      rcases List.mem_cons.mp hl with rfl | hl
      · rw [List.foldr_cons]
        cases lexemes.foldr consLexeme [[]] with
        | nil => exact ⟨_, List.mem_cons_self, List.mem_cons_self⟩
        | cons first rest => exact ⟨_, List.mem_cons_self, List.mem_cons_self⟩
      · exact mem_consLexeme (ih hl)
  obtain ⟨line, hline, hmem⟩ := hfold
  have hne : line ≠ [] := List.ne_nil_of_mem hmem
  exact ⟨line, List.mem_filter.mpr ⟨hline, by simpa using hne⟩, hmem⟩

/-- A text without errors in its lines has no faults. -/
theorem no_fault_of_errors_eq_nil {source : String} (h : (parse source).errors = [])
    (fault : LexicalFault) : .error fault ∉ values source.toList := by
  intro hfault
  obtain ⟨⟨value, span⟩, hl, rfl⟩ := List.mem_map.mp hfault
  obtain ⟨line, hline, hmem⟩ := mem_tokenLines_of_fault hl
  have hnone : (parseLine line).error = none := by
    rw [parse_eq] at h
    exact List.filterMap_eq_nil_iff.mp h _ (List.mem_map_of_mem hline)
  -- the pieces of a line in the grammar are tokens
  obtain ⟨statements, tokens, rfl, -⟩ := parseLine_error_eq_none_iff.mp hnone
  obtain ⟨t, -, ht⟩ := List.mem_map.mp hmem
  cases ht

/-! ## Insertions -/

/-- A newline beside another one, or at an end of the text, makes no line. -/
theorem meaningLines_insert_newline {x y : List Char}
    (h : x = [] ∨ y = [] ∨ x.getLast? = some '\n' ∨ y.head? = some '\n') :
    meaningLines (x ++ '\n' :: y) = meaningLines (x ++ y) := by
  rw [meaningLines_newline]
  rcases h with rfl | rfl | hx | hy
  · rw [meaningLines_nil]
    rfl
  · rw [meaningLines_nil, List.append_nil, List.append_nil]
  · obtain ⟨x', rfl⟩ := List.getLast?_eq_some_iff.mp hx
    rw [meaningLines_newline, meaningLines_nil, List.append_nil, List.append_assoc]
    exact (meaningLines_newline x' y).symm
  · obtain ⟨y', rfl⟩ := List.head?_eq_some_iff.mp hy
    have hblank := meaningLines_newline [] y'
    rw [meaningLines_nil, List.nil_append, List.nil_append] at hblank
    rw [hblank, meaningLines_newline]

theorem no_fault_of_append {x y : List Char} (hsplit : Splits x y)
    (h : ∀ fault, .error fault ∉ values (x ++ y)) (fault : LexicalFault) :
    .error fault ∉ values x := by
  have hfault := h fault
  rw [hsplit.values_append] at hfault
  exact fun hx => hfault (List.mem_append_left _ hx)

/-- A text splits before a newline and at its end. -/
theorem splits_of_line_end {y : List Char} (h : ∀ c ∈ y.head?, c = '\n') (x : List Char) :
    Splits x y := by
  cases y with
  | nil =>
    intro offset
    rw [List.append_nil, scanFrom_nil, List.append_nil]
  | cons c y =>
    obtain rfl := h c rfl
    exact splits_newline x y

theorem meaningLines_insert_separators {x y w : List Char} (hw : ∀ c ∈ w, c ∈ separators)
    (hsplit : Splits x y) (herror : ∀ fault, .error fault ∉ values (x ++ y)) :
    meaningLines (x ++ (w ++ y)) = meaningLines (x ++ y) := by
  cases w with
  | nil => rfl
  | cons c w =>
    refine meaningLines_insert (no_fault_of_append hsplit herror) ?_
      (breaks_of_separator (hw c List.mem_cons_self) _) hsplit ?_
    · intro hnewline
      exact absurd (hw _ hnewline) (by decide)
    · obtain ⟨m, hvalues, hm⟩ := values_separators hw y
      refine ⟨m, hvalues, fun v hv => ?_⟩
      rw [hm v hv]
      rfl

theorem meaningLines_insert_comment {x y t : List Char} (ht : '\n' ∉ t)
    (hy : ∀ c ∈ y.head?, c = '\n') (herror : ∀ fault, .error fault ∉ values (x ++ y)) :
    meaningLines (x ++ ('/' :: '/' :: t ++ y)) = meaningLines (x ++ y) := by
  have hsplit := splits_of_line_end hy x
  refine meaningLines_insert (no_fault_of_append hsplit herror) ?_ ?_ hsplit
    ⟨[.ok .comment], ?_, ?_⟩
  · simpa using ht
  · intro c hc
    cases hc
    decide
  · -- the comment ends where the line does
    have hend : y.dropWhile (· != '\n') = y := by
      cases y with
      | nil => rfl
      | cons c y =>
        obtain rfl := hy c rfl
        rfl
    rw [List.cons_append, List.cons_append, values_comment_append ht, values_comment, hend]
    rfl
  · intro v hv
    rw [List.mem_singleton.mp hv]
    rfl

/-- **An insertion changes no line of tokens.** -/
theorem meaningLines_insertion {s s' : String} (h : Insertion s s')
    (herrors : (parse s).errors = []) : meaningLines s'.toList = meaningLines s.toList := by
  have hfault := no_fault_of_errors_eq_nil herrors
  cases h with
  | @separators x y w hw h =>
    simp only [String.toList_append] at hfault ⊢
    rw [List.append_assoc]
    refine meaningLines_insert_separators hw (splits_of_not_inside 0 ?_) hfault
    rw [Nat.zero_add, Text.byteLength_toList, ← String.toList_append]
    exact h
  | @comment x y t ht h =>
    simp only [String.toList_append] at hfault ⊢
    rw [List.append_assoc]
    exact meaningLines_insert_comment ht h hfault
  | @newline x y h =>
    simp only [String.toList_append]
    rw [List.append_assoc]
    rw [← String.toList_eq_nil_iff, ← String.toList_eq_nil_iff] at h
    exact meaningLines_insert_newline h

/-- The lines of tokens decide whether there are errors, and all of the program but places. -/
theorem parse_of_meaningLines {s s' : String} (h : meaningLines s'.toList = meaningLines s.toList) :
    (parse s').moved (fun _ => 0) = (parse s).moved (fun _ => 0) := by
  rw [parse_unplaced, parse_unplaced, parseLexemes, parseLexemes]
  simp only [meaningLines] at h
  rw [h]

/-- No insertion changes the program, and so neither do many. -/
theorem parse_insertions {s s' : String} (h : Relation.ReflTransGen Insertion s s')
    (herrors : (parse s).errors = []) :
    (parse s').errors = [] ∧
      (parse s').statements.map (Statement.moved fun _ => 0) =
        (parse s).statements.map (Statement.moved fun _ => 0) := by
  induction h with
  | refl => exact ⟨herrors, rfl⟩
  | tail _ hinsertion ih =>
    obtain ⟨herrors', hstatements⟩ := ih
    have hparse := parse_of_meaningLines (meaningLines_insertion hinsertion herrors')
    have herrors'' := congrArg Parsed.errors hparse
    simp only [Parsed.moved, herrors', List.map_nil, List.map_eq_nil_iff] at herrors''
    exact ⟨herrors'', (congrArg Parsed.statements hparse).trans hstatements⟩

/-- **Layout is insignificant.** Whatever is inserted into a source that is assembled, and however
often, the source is still assembled, and to the same program. -/
theorem assemble_of_insertions {s s' : String} {maxErrors : Nat} {e : Executable}
    (h : assemble s maxErrors = .ok e) (hinsertions : Relation.ReflTransGen Insertion s s') :
    ∃ e', assemble s' maxErrors = .ok e' ∧ e.SameProgram e' := by
  obtain ⟨herrors, hstatements⟩ := parse_insertions hinsertions (assemble_eq_ok_iff.mp h).1
  exact assemble_of_unplaced h herrors hstatements

/-- One insertion of each kind. -/
theorem assemble_of_insertions_each_kind :
    ∃ e e', assemble "x:jump x-1" 1 = .ok e ∧
      assemble "x:\t,jump x-1// r1\n" 1 = .ok e' ∧ e.SameProgram e' := by
  obtain ⟨e, he⟩ := exists_of_isOk
    (by decide +kernel : (assemble "x:jump x-1" 1).isOk = true)
  have hseparators : Insertion "x:jump x-1" "x:\t,jump x-1" :=
    .separators (x := "x:") (y := "jump x-1") (w := "\t,")
      (List.forall_mem_cons.mpr ⟨by decide, List.forall_mem_singleton.mpr (by decide)⟩)
      (by decide +kernel)
  have hcomment : Insertion "x:\t,jump x-1" "x:\t,jump x-1// r1" :=
    .comment (x := "x:\t,jump x-1") (y := "") (t := " r1") (by decide) (fun c hc => by cases hc)
  have hnewline : Insertion "x:\t,jump x-1// r1" "x:\t,jump x-1// r1\n" :=
    .newline (x := "x:\t,jump x-1// r1") (y := "") (.inr (.inl rfl))
  obtain ⟨e', he', hsame⟩ := assemble_of_insertions he
    (((Relation.ReflTransGen.single hseparators).tail hcomment).tail hnewline)
  exact ⟨e, e', he, he', hsame⟩

end Nic
