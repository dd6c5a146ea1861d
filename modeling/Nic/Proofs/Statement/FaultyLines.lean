/-
What is left of a line with an error.

A line that is not in the grammar gives an error, and one would expect that it gives nothing else.
It does not if one of its pieces is no token. But the labels that a line begins with are read before
the rest of it, and they stay when there is an error in the rest (`parseLine_leaves`). So a
statement can stand on a line that has an error; it does exactly if the line begins with a label
(`statements_ne_nil_iff`), and it is such a label.

Lines are told apart by their numbers. Everything that a line gives stands on it, so its number is
found again from the places of its statements and of its error (`lineAt_of_onLine`).
-/
import Nic.Proofs.Statement.LineGrammar

set_option autoImplicit false

namespace Nic

/-! ## The labels that a line begins with -/

/-- The labels that tokens begin with, as many as there are: each is a name and a colon. -/
inductive LabelsInFront : List Statement → List (Located Token) → Prop where
  | none {tokens : List (Located Token)}
    (h : ∀ name s colon rest, tokens ≠ ⟨.name name, s⟩ :: ⟨.colon, colon⟩ :: rest) :
    LabelsInFront [] tokens
  | label {name : String} {s colon : Span} {labels : List Statement} {rest : List (Located Token)}
    (h : LabelsInFront labels rest) :
    LabelsInFront (⟨.label ⟨name, s.start⟩, ⟨s.start, colon.stop⟩⟩ :: labels)
      (⟨.name name, s⟩ :: ⟨.colon, colon⟩ :: rest)

theorem labelsInFront_takeLabels (found : Array Statement) (tokens : List (Located Token)) :
    ∃ labels, LabelsInFront labels tokens ∧
      (takeLabels found tokens).1.toList = found.toList ++ labels := by
  fun_induction takeLabels found tokens with
  | case1 found name span colon rest ih =>
    obtain ⟨labels, hlabels, hall⟩ := ih
    refine ⟨_, .label hlabels, ?_⟩
    rw [hall, Array.toList_push, List.append_assoc]
    rfl
  | case2 found rest hnone => exact ⟨[], .none hnone, (List.append_nil _).symm⟩

/-- What a line leaves if there is an error in it: nothing if one of its pieces is no token, and
else the labels that it begins with. -/
inductive LineLeaves : List Lexeme → List Statement → Prop where
  | fault {line : List Lexeme} {fault : LexicalFault} {span : Span}
    (h : ⟨.error fault, span⟩ ∈ line) : LineLeaves line []
  | labels {tokens : List (Located Token)} {labels : List Statement}
    (h : LabelsInFront labels tokens) : LineLeaves (tokens.map Located.lexeme) labels

/-- The line begins with a label, and all its pieces are tokens. -/
def BeginsWithLabel (line : List Lexeme) : Prop :=
  ∃ name s colon rest, line = (⟨.name name, s⟩ :: ⟨.colon, colon⟩ :: rest).map Located.lexeme

theorem mem_of_tokensOf_error {line : List Lexeme} {fault : Located LexicalFault}
    (h : tokensOf line = .error fault) : ⟨.error fault.value, fault.span⟩ ∈ line := by
  induction line with
  | nil => cases h
  | cons l line ih =>
    obtain ⟨value, span⟩ := l
    rw [tokensOf_cons] at h
    cases value with
    | error fault' =>
      cases h
      exact List.mem_cons_self
    | ok token =>
      cases hline : tokensOf line with
      | error fault' =>
        rw [hline] at h
        cases h
        exact List.mem_cons_of_mem _ (ih hline)
      | ok rest =>
        rw [hline] at h
        cases h

/-- **What a line with an error gives.** -/
theorem parseLine_leaves {line : List Lexeme} (h : ¬ InGrammar line) :
    LineLeaves line (parseLine line).statements := by
  rw [← parseLine_error_eq_none_iff] at h
  unfold parseLine at h ⊢
  cases ht : tokensOf line with
  | error fault => exact .fault (mem_of_tokensOf_error ht)
  | ok tokens =>
    rw [ht] at h
    obtain ⟨labels, hlabels, hall⟩ := labelsInFront_takeLabels #[] tokens
    obtain rfl := tokensOf_eq_ok_iff.mp ht
    cases hr : parseRest (takeLabels #[] tokens).2 with
    | error e =>
      simp only [hr, hall]
      exact .labels hlabels
    | ok statement => simp [hr] at h

/-- Such a line gives a statement exactly if it begins with a label. -/
theorem statements_ne_nil_iff {line : List Lexeme} (h : ¬ InGrammar line) :
    (parseLine line).statements ≠ [] ↔ BeginsWithLabel line := by
  have hleaves := parseLine_leaves h
  generalize (parseLine line).statements = statements at hleaves
  cases hleaves with
  | fault hl =>
    refine iff_of_false (fun hne => hne rfl) ?_
    rintro ⟨name, s, colon, rest, rfl⟩
    obtain ⟨t, -, ht⟩ := List.mem_map.mp hl
    cases ht
  | @labels tokens _ hlabels =>
    cases hlabels with
    | none hnone =>
      refine iff_of_false (fun hne => hne rfl) ?_
      rintro ⟨name, s, colon, rest, heq⟩
      have htokens := tokensOf_map_lexeme tokens
      rw [heq, tokensOf_map_lexeme] at htokens
      exact hnone name s colon rest (Except.ok.inj htokens).symm
    | label hrest => exact iff_of_true (List.cons_ne_nil _ _) ⟨_, _, _, _, rfl⟩

/-! ## Numbers of lines -/

theorem tokenLines_scan (source : String) :
    tokenLines (Token.scan source) = grammarLines source := by
  rw [grammarLines, Text.Source.lines_eq]
  exact tokenLines_scanFrom 0 source.toList

theorem mem_grammarLines {source : String} {line : List Lexeme} :
    line ∈ grammarLines source ↔ ∃ (number : Nat) (textLine : Text.Line),
      (⟨source⟩ : Text.Source).lines[number]? = some textLine ∧ textLine.tokens = line ∧
        line ≠ [] := by
  rw [grammarLines, List.mem_filter, List.mem_map]
  constructor
  · rintro ⟨⟨textLine, hmem, rfl⟩, hne⟩
    obtain ⟨number, hnumber⟩ := List.mem_iff_getElem?.mp hmem
    exact ⟨number, textLine, hnumber, rfl, by simpa using hne⟩
  · rintro ⟨number, textLine, hnumber, rfl, hne⟩
    exact ⟨⟨textLine, List.mem_of_getElem? hnumber, rfl⟩, by simpa using hne⟩

theorem mem_parse_statements {source : String} {s : Statement} :
    s ∈ (parse source).statements ↔
      ∃ line ∈ grammarLines source, s ∈ (parseLine line).statements := by
  rw [parse, tokenLines_scan, List.mem_flatMap]
  simp only [List.mem_map, exists_exists_and_eq_and]

theorem mem_parse_errors {source : String} {e : SyntaxError} :
    e ∈ (parse source).errors ↔
      ∃ line ∈ grammarLines source, (parseLine line).error = some e := by
  rw [parse, tokenLines_scan, List.mem_filterMap]
  simp only [List.mem_map, exists_exists_and_eq_and]

/-- **What stands on a line has its number.** -/
theorem lineAt_of_onLine {source : Text.Source} {number offset : Nat} {line : Text.Line}
    (h : source.lines[number]? = some line) (hoffset : OnLine line.tokens offset) :
    source.lineAt offset = number := by
  obtain ⟨l, hl, hend⟩ := hoffset
  have hbounds := Token.bounds_of_mem_scanFrom (List.mem_of_mem_filter hl)
  exact Text.Source.lineAt_of_line h (by omega) (by omega)

/-! ## Programs -/

/-- The number of the line that an offset of a source is on. -/
def lineNumber (source : String) (offset : Nat) : Nat :=
  (⟨source⟩ : Text.Source).lineAt offset

/-- No statement of a source stands on a line that has an error. -/
def ErrorsApart (source : String) : Prop :=
  ∀ s ∈ (parse source).statements, ∀ e ∈ (parse source).errors,
    lineNumber source s.span.start ≠ lineNumber source e.span.start

instance (source : String) : Decidable (ErrorsApart source) :=
  inferInstanceAs (Decidable (∀ s ∈ (parse source).statements, ∀ e ∈ (parse source).errors,
    lineNumber source s.span.start ≠ lineNumber source e.span.start))

/-- A label is read, and then there is an error on its line. -/
theorem not_forall_errorsApart : ¬ ∀ source, ErrorsApart source := by
  intro hapart
  have hnot : ¬ ErrorsApart "a: bogus" := by decide +kernel
  exact hnot (hapart "a: bogus")

/-- Errors and statements stand on different lines exactly if no line with an error begins with a
label. -/
theorem errorsApart_iff (source : String) :
    ErrorsApart source ↔
      ∀ line ∈ grammarLines source, ¬ InGrammar line → ¬ BeginsWithLabel line := by
  constructor
  · intro hapart line hline hnot hbegins
    obtain ⟨s, hs⟩ := List.exists_mem_of_ne_nil _ ((statements_ne_nil_iff hnot).mpr hbegins)
    obtain ⟨e, he⟩ := Option.ne_none_iff_exists'.mp (mt parseLine_error_eq_none_iff.mp hnot)
    refine hapart s (mem_parse_statements.mpr ⟨line, hline, hs⟩) e
      (mem_parse_errors.mpr ⟨line, hline, he⟩) ?_
    obtain ⟨number, textLine, hnumber, rfl, -⟩ := mem_grammarLines.mp hline
    exact (lineAt_of_onLine hnumber (place_of_statement hs).1).trans
      (lineAt_of_onLine hnumber (place_of_error he).1).symm
  · intro hlines s hs e he hsame
    obtain ⟨line, hline, hs⟩ := mem_parse_statements.mp hs
    obtain ⟨line', hline', he⟩ := mem_parse_errors.mp he
    obtain ⟨number, textLine, hnumber, rfl, -⟩ := mem_grammarLines.mp hline
    obtain ⟨number', textLine', hnumber', rfl, -⟩ := mem_grammarLines.mp hline'
    -- both are on the line with this number, so it has an error and a statement
    have heq : number = number' :=
      (lineAt_of_onLine hnumber (place_of_statement hs).1).symm.trans
        (hsame.trans (lineAt_of_onLine hnumber' (place_of_error he).1))
    subst heq
    obtain rfl : textLine = textLine' := Option.some.inj (hnumber.symm.trans hnumber')
    have hnot : ¬ InGrammar textLine.tokens := by
      intro hin
      rw [parseLine_error_eq_none_iff.mpr hin] at he
      cases he
    exact hlines _ hline hnot ((statements_ne_nil_iff hnot).mp (List.ne_nil_of_mem hs))

/-- What a line gives: what is written on it, if that is in the grammar, and else what it leaves. -/
def LineGives (line : List Lexeme) (statements : List Statement) : Prop :=
  LineMeans line statements ∨ ¬ InGrammar line ∧ LineLeaves line statements

theorem lineGives_parseLine (line : List Lexeme) :
    LineGives line (parseLine line).statements := by
  by_cases h : InGrammar line
  · obtain ⟨statements, hmeans⟩ := h
    rw [parseLine_eq_iff.mpr hmeans]
    exact .inl hmeans
  · exact .inr ⟨h, parseLine_leaves h⟩

theorem parse_statements_eq (source : String) :
    (parse source).statements =
      (grammarLines source).flatMap fun line => (parseLine line).statements := by
  rw [parse, tokenLines_scan, List.flatMap_map]

/-- Lines that give nothing may be left out. -/
theorem flatMap_statements_filter {lines : List (List Lexeme)}
    (h : ∀ line ∈ lines, ¬ InGrammar line → (parseLine line).statements = []) :
    lines.flatMap (fun line => (parseLine line).statements) =
      (lines.filter InGrammar).flatMap fun line => (parseLine line).statements := by
  induction lines with
  | nil => rfl
  | cons line lines ih =>
    obtain ⟨hfirst, hrest⟩ := List.forall_mem_cons.mp h
    rw [List.flatMap_cons, ih hrest]
    by_cases hin : InGrammar line
    · rw [List.filter_cons_of_pos (by simpa using hin), List.flatMap_cons]
    · rw [List.filter_cons_of_neg (by simpa using hin), hfirst hin, List.nil_append]

/-- **What is read of a source with errors.**

* Its statements are, line by line and in order, those that are written on the lines in the grammar,
  and those that the other lines leave: the labels that such a line begins with, or nothing if one
  of its pieces is no token.
* No statement stands on a line that has an error exactly if no line with an error begins with a
  label.
* Then the statements are those of the lines in the grammar. -/
theorem parse_of_faulty_lines (source : String) :
    (∃ parts, List.Forall₂ LineGives (grammarLines source) parts ∧
      (parse source).statements = parts.flatten) ∧
    (ErrorsApart source ↔
      ∀ line ∈ grammarLines source, ¬ InGrammar line → ¬ BeginsWithLabel line) ∧
    (ErrorsApart source →
      ∃ parts, List.Forall₂ LineMeans ((grammarLines source).filter InGrammar) parts ∧
        (parse source).statements = parts.flatten) := by
  refine ⟨?_, errorsApart_iff source, ?_⟩
  · refine ⟨(grammarLines source).map fun line => (parseLine line).statements, ?_, ?_⟩
    · rw [List.forall₂_map_right_iff, List.forall₂_same]
      intro line _
      exact lineGives_parseLine line
    · rw [parse_statements_eq, List.flatMap_def]
  · intro hapart
    have hnothing : ∀ line ∈ grammarLines source, ¬ InGrammar line →
        (parseLine line).statements = [] := by
      intro line hline hnot
      by_contra hne
      exact (errorsApart_iff source).mp hapart line hline hnot ((statements_ne_nil_iff hnot).mp hne)
    refine ⟨_, statements_of_lines ?_, ?_⟩
    · intro line hline
      simpa using List.of_mem_filter hline
    · rw [parse_statements_eq, flatMap_statements_filter hnothing, List.flatMap_def, List.map_map]
      rfl

/-- Two lines with errors, neither of which begins with a label that is read: in the first a piece
is no token, in the last there is no colon. The line between them gives its label and its
instruction. -/
theorem parse_of_faulty_lines_none_begins :
    let source := "a: $\nb: noop\nc halt"
    (parse source).errors.length = 2 ∧ (parse source).statements.length = 2 ∧
      (∀ line ∈ grammarLines source, ¬ InGrammar line → ¬ BeginsWithLabel line) ∧
      ∃ parts, List.Forall₂ LineMeans ((grammarLines source).filter InGrammar) parts ∧
        (parse source).statements = parts.flatten := by
  intro source
  have hapart : ErrorsApart source := by decide +kernel
  obtain ⟨-, hiff, hparts⟩ := parse_of_faulty_lines source
  exact ⟨by decide +kernel, by decide +kernel, hiff.mp hapart, hparts hapart⟩

end Nic
