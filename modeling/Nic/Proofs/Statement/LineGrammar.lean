/-
The grammar of lines, and that the reader accepts exactly what it says.

`LineWritten` says how the statements of a line are written: labels, each a name and a colon, and
after them nothing or one statement. That the reader gives only what is written is known from
`Grammar`; here is the other half, that it gives what is written (`parseLine_of_written`), and so
a line has an error exactly if it is not in the grammar (`parseLine_error_eq_none_iff`).

The grammar has one rule for each way to go on, and the reader never has to choose: a name starts a
label, a mnemonic starts the statement. So the induction over the rules follows the reader.
-/
import Nic.Proofs.Statement.Lines

set_option autoImplicit false

namespace Nic

/-! ## How lines are written -/

/-- The place of tokens that follow each other, from the start of the first to the end of the last.
-/
def spanOf (tokens : List (Located Token)) : Span :=
  ⟨(tokens.head?.map (·.span.start)).getD 0, (tokens.getLast?.map (·.span.stop)).getD 0⟩

theorem spanOf_eq_zero {tokens : List (Located Token)} (h : ∀ t ∈ tokens, t.span = ⟨0, 0⟩) :
    spanOf tokens = ⟨0, 0⟩ := by
  have hstart : tokens.head?.map (·.span.start) = tokens.head?.map fun _ => 0 :=
    Option.map_congr fun t ht => by rw [h t (List.mem_of_mem_head? ht)]
  have hstop : tokens.getLast?.map (·.span.stop) = tokens.getLast?.map fun _ => 0 :=
    Option.map_congr fun t ht => by rw [h t (List.mem_of_mem_getLast? ht)]
  rw [spanOf, hstart, hstop]
  cases tokens.head? <;> cases tokens.getLast? <;> rfl

/-- A line is written as any number of labels, each a name and a colon, and then nothing or a
statement. -/
inductive LineWritten : List Statement → List (Located Token) → Prop where
  | blank : LineWritten [] []
  | statement {body : Statement.Body} {tokens : List (Located Token)} (h : body.Written tokens) :
    LineWritten [⟨body, spanOf tokens⟩] tokens
  | label {name : String} {s colon : Span} {statements : List Statement}
    {rest : List (Located Token)} (h : LineWritten statements rest) :
    LineWritten (⟨.label ⟨name, s.start⟩, ⟨s.start, colon.stop⟩⟩ :: statements)
      (⟨.name name, s⟩ :: ⟨.colon, colon⟩ :: rest)

/-- A token as a piece of the source that has no fault. -/
def Located.lexeme (t : Located Token) : Lexeme := ⟨.ok t.value, t.span⟩

/-- The statements of a line: its pieces are all tokens, and these are how they are written. -/
def LineMeans (line : List Lexeme) (statements : List Statement) : Prop :=
  ∃ tokens : List (Located Token), line = tokens.map Located.lexeme ∧ LineWritten statements tokens

/-- The line is written as some statements are. -/
def InGrammar (line : List Lexeme) : Prop :=
  ∃ statements, LineMeans line statements

/-! ## Statements that are written are read -/

namespace Reader

theorem literalOf_of_mem {value : Int} (h : -128 ≤ value ∧ value ≤ 255) :
    literalOf value = .ok (.literal (BitVec.ofInt 8 value)) := by
  have hfit : Byte.fit? value = some (BitVec.ofInt 8 value) := if_pos h
  rw [literalOf, hfit]

theorem operandOf_of_written {x : Operand} {t : Located Token} (h : x.Written t) :
    operandOf t = .ok x := by
  cases h with
  | unsigned h => exact literalOf_of_mem (by omega)
  | signed h => exact literalOf_of_mem h
  | name => rfl
  | displaced => rfl

theorem bind_of_ok {α β : Type} {x : Reader α} {k : α → Reader β} {c c' : Cursor} {a : α}
    (h : x c = .ok a c') : (x >>= k) c = k a c' := by
  change EStateM.bind x k c = k a c'
  unfold EStateM.bind
  rw [h]

theorem take_of_ok {α : Type} {missing : SyntaxFault}
    {accept : Located Token → Except SyntaxFault α} {t : Located Token}
    {rest : List (Located Token)} {stop : Nat} {a : α} (h : accept t = .ok a) :
    take missing accept ⟨t :: rest, stop⟩ = .ok a ⟨rest, stop⟩ := by
  simp only [take, h]

theorem takeAllInto_of_forall₂ {α : Type} {accept : Located Token → Except SyntaxFault α}
    {as : List α} {tokens : List (Located Token)}
    (h : List.Forall₂ (fun a t => accept t = .ok a) as tokens) (stop : Nat) (found : Array α) :
    takeAllInto accept stop found tokens = .ok (found.toList ++ as) ⟨[], stop⟩ := by
  induction h generalizing found with
  | nil => simp [takeAllInto]
  | cons ha _ ih =>
    simp only [takeAllInto, ha, ih, Array.toList_push, List.append_assoc]
    rfl

theorem mnemonic_of_head (m : Mnemonic) (s : Span) (rest : List (Located Token)) (stop : Nat) :
    take .unknownMnemonic mnemonicOf ⟨⟨.mnemonic m, s⟩ :: rest, stop⟩ = .ok m ⟨rest, stop⟩ := rfl

theorem register_of_head (a : Reg) (s : Span) (rest : List (Located Token)) (stop : Nat) :
    register ⟨⟨.register a, s⟩ :: rest, stop⟩ = .ok a ⟨rest, stop⟩ := rfl

theorem name_of_head (name : String) (s : Span) (rest : List (Located Token)) (stop : Nat) :
    Reader.name ⟨⟨.name name, s⟩ :: rest, stop⟩ = .ok ⟨name, s.start⟩ ⟨rest, stop⟩ := rfl

theorem operand_of_head {x : Operand} {t : Located Token} (h : x.Written t)
    (rest : List (Located Token)) (stop : Nat) : operand ⟨t :: rest, stop⟩ = .ok x ⟨rest, stop⟩ :=
  take_of_ok (operandOf_of_written h)

theorem takeAll_of_written {values : List Operand} {tokens : List (Located Token)}
    (h : List.Forall₂ Operand.Written values tokens) (stop : Nat) :
    takeAll operandOf ⟨tokens, stop⟩ = .ok values ⟨[], stop⟩ :=
  takeAllInto_of_forall₂ (h.imp fun _ _ => operandOf_of_written) stop #[]

/-- **What is written is read**, and no token is left. -/
theorem body_of_written {b : Statement.Body} {tokens : List (Located Token)}
    (h : b.Written tokens) (stop : Nat) : body ⟨tokens, stop⟩ = .ok b ⟨[], stop⟩ := by
  -- the mnemonic is taken first, and decides which operands are taken after it
  cases h with
  | halt => rfl
  | noop => rfl
  | imm hx =>
    refine (bind_of_ok (mnemonic_of_head _ _ _ _)).trans ?_
    refine (bind_of_ok (register_of_head _ _ _ _)).trans ?_
    exact bind_of_ok (operand_of_head hx _ _)
  | pair => rfl
  | alu => rfl
  | jump hx =>
    refine (bind_of_ok (mnemonic_of_head _ _ _ _)).trans ?_
    exact bind_of_ok (operand_of_head hx _ _)
  | jumpIf hx =>
    refine (bind_of_ok (mnemonic_of_head _ _ _ _)).trans ?_
    refine (bind_of_ok (register_of_head _ _ _ _)).trans ?_
    exact bind_of_ok (operand_of_head hx _ _)
  | word hvalues =>
    refine (bind_of_ok (mnemonic_of_head _ _ _ _)).trans ?_
    refine (bind_of_ok (name_of_head _ _ _ _)).trans ?_
    exact bind_of_ok (takeAll_of_written hvalues _)

end Reader

/-! ## Lines that are written are read -/

/-- A statement starts with a mnemonic. -/
theorem Statement.Body.Written.head {b : Statement.Body} {tokens : List (Located Token)}
    (h : b.Written tokens) : ∃ m s rest, tokens = ⟨.mnemonic m, s⟩ :: rest := by
  cases h <;> exact ⟨_, _, _, rfl⟩

theorem Cursor.ofTokens_cons (t : Located Token) (rest : List (Located Token)) :
    Cursor.ofTokens (t :: rest) = ⟨t :: rest, (spanOf (t :: rest)).stop⟩ := by
  rw [Cursor.ofTokens, spanOf, List.getLast?_eq_getLast_of_ne_nil (List.cons_ne_nil t rest)]
  rfl

theorem parseRest_of_written {b : Statement.Body} {tokens : List (Located Token)}
    (h : b.Written tokens) : parseRest tokens = .ok (some ⟨b, spanOf tokens⟩) := by
  obtain ⟨m, s, rest, rfl⟩ := h.head
  have hbody : parseBody (⟨.mnemonic m, s⟩ :: rest) =
      .ok ⟨b, spanOf (⟨.mnemonic m, s⟩ :: rest)⟩ := by
    rw [parseBody, Cursor.ofTokens_cons, Reader.body_of_written h]
    rfl
  exact congrArg (Functor.map some) hbody

/-- What is left after the labels is a statement at its place. -/
theorem parseRest_eq_some_iff {tokens : List (Located Token)} {s : Statement} :
    parseRest tokens = .ok (some s) ↔ s.body.Written tokens ∧ s.span = spanOf tokens := by
  constructor
  · intro h
    have hwritten := parseRest_eq_ok h
    rw [parseRest_of_written hwritten] at h
    exact ⟨hwritten, congrArg Statement.span (Option.some.inj (Except.ok.inj h)).symm⟩
  · rintro ⟨hwritten, hspan⟩
    rw [parseRest_of_written hwritten, ← hspan]

theorem parseRest_eq_none {tokens : List (Located Token)} (h : parseRest tokens = .ok none) :
    tokens = [] := by
  unfold parseRest at h
  split at h
  · cases h
  · rfl
  · cases hb : parseBody tokens <;> rw [hb] at h <;> cases h

/-- The reader takes the labels of the line and then its statement. -/
theorem takeLabels_of_written {statements : List Statement} {tokens : List (Located Token)}
    (h : LineWritten statements tokens) (found : Array Statement) :
    ∃ statement, parseRest (takeLabels found tokens).2 = .ok statement ∧
      (takeLabels found tokens).1.toList ++ statement.toList = found.toList ++ statements := by
  induction h generalizing found with
  | blank => exact ⟨none, rfl, rfl⟩
  | statement h =>
    obtain ⟨m, s, rest, rfl⟩ := h.head
    rw [takeLabels_eq_self found fun _ _ _ _ heq => by cases heq]
    exact ⟨_, parseRest_of_written h, rfl⟩
  | label h ih =>
    rw [takeLabels]
    obtain ⟨statement, hrest, hall⟩ := ih (found.push _)
    refine ⟨statement, hrest, ?_⟩
    rw [hall, Array.toList_push, List.append_assoc]
    rfl

theorem written_of_takeLabels (found : Array Statement) (tokens : List (Located Token))
    {statement : Option Statement}
    (h : parseRest (takeLabels found tokens).2 = .ok statement) :
    ∃ statements, LineWritten statements tokens ∧
      (takeLabels found tokens).1.toList ++ statement.toList = found.toList ++ statements := by
  fun_induction takeLabels found tokens with
  | case1 found name span colon rest ih =>
    obtain ⟨statements, hwritten, hall⟩ := ih h
    refine ⟨_, .label hwritten, ?_⟩
    · rw [hall, Array.toList_push, List.append_assoc]
      rfl
  | case2 found rest hnone =>
    cases statement with
    | none =>
      obtain rfl := parseRest_eq_none h
      exact ⟨[], .blank, rfl⟩
    | some s =>
      obtain ⟨hwritten, hspan⟩ := parseRest_eq_some_iff.mp h
      refine ⟨[s], ?_, rfl⟩
      have := LineWritten.statement hwritten
      rw [← hspan] at this
      exact this

theorem tokensOf_map_lexeme (tokens : List (Located Token)) :
    tokensOf (tokens.map Located.lexeme) = .ok tokens := by
  induction tokens with
  | nil => rfl
  | cons t tokens ih =>
    rw [List.map_cons, tokensOf_cons, ih]
    rfl

/-- The pieces of a line without a fault are its tokens. -/
theorem tokensOf_eq_ok_iff {line : List Lexeme} {tokens : List (Located Token)} :
    tokensOf line = .ok tokens ↔ line = tokens.map Located.lexeme := by
  refine ⟨fun h => ?_, fun h => h ▸ tokensOf_map_lexeme tokens⟩
  induction line generalizing tokens with
  | nil =>
    cases h
    rfl
  | cons l line ih =>
    obtain ⟨value, span⟩ := l
    rw [tokensOf_cons] at h
    cases value with
    | error fault => cases h
    | ok token =>
      cases hline : tokensOf line with
      | error fault =>
        rw [hline] at h
        cases h
      | ok rest =>
        rw [hline] at h
        cases h
        rw [List.map_cons, ← ih hline]
        rfl

/-- **What a line gives is how it is written**, and it has no error then. -/
theorem parseLine_eq_iff {line : List Lexeme} {statements : List Statement} :
    parseLine line = ⟨statements, none⟩ ↔ LineMeans line statements := by
  constructor
  · intro h
    unfold parseLine at h
    cases ht : tokensOf line with
    | error fault =>
      rw [ht] at h
      cases h
    | ok tokens =>
      rw [ht] at h
      dsimp only at h
      cases hr : parseRest (takeLabels #[] tokens).2 with
      | error e =>
        rw [hr] at h
        cases h
      | ok statement =>
        rw [hr] at h
        obtain ⟨statements', hwritten, hall⟩ := written_of_takeLabels #[] tokens hr
        obtain rfl : statements' = statements := hall.symm.trans (congrArg ParsedLine.statements h)
        exact ⟨tokens, tokensOf_eq_ok_iff.mp ht, hwritten⟩
  · rintro ⟨tokens, hline, hwritten⟩
    obtain ⟨statement, hrest, hall⟩ := takeLabels_of_written hwritten #[]
    rw [parseLine, tokensOf_eq_ok_iff.mpr hline]
    simp only [hrest, hall]
    rfl

/-- A line has an error exactly if it is not in the grammar. -/
theorem parseLine_error_eq_none_iff {line : List Lexeme} :
    (parseLine line).error = none ↔ InGrammar line := by
  constructor
  · intro h
    exact ⟨(parseLine line).statements, parseLine_eq_iff.mp (by rw [← h])⟩
  · rintro ⟨statements, h⟩
    rw [parseLine_eq_iff.mpr h]

instance (line : List Lexeme) : Decidable (InGrammar line) :=
  decidable_of_iff _ parseLine_error_eq_none_iff

/-! ## What is on a line -/

/-- Whether a token can be part of a statement. -/
def Token.isMeaningful : Token → Bool
  | comma | comment | newline => false
  | _ => true

theorem Operand.Written.isMeaningful {x : Operand} {t : Located Token} (h : x.Written t) :
    t.value.isMeaningful = true := by
  cases h <;> rfl

theorem exists_of_forall₂ {α β : Type} {r : α → β → Prop} {xs : List α} {ys : List β}
    (h : List.Forall₂ r xs ys) {x : α} (hx : x ∈ xs) : ∃ y ∈ ys, r x y := by
  induction h with
  | nil => cases hx
  | @cons x' y' _ _ hr _ ih =>
    rcases List.mem_cons.mp hx with rfl | hx
    · exact ⟨y', List.mem_cons_self, hr⟩
    · obtain ⟨y, hy, hxy⟩ := ih hx
      exact ⟨y, List.mem_cons_of_mem _ hy, hxy⟩

theorem Statement.Body.Written.isMeaningful {b : Statement.Body} {tokens : List (Located Token)}
    (h : b.Written tokens) : ∀ t ∈ tokens, t.value.isMeaningful = true := by
  cases h with
  | imm hx =>
    rw [List.forall_mem_cons, List.forall_mem_cons, List.forall_mem_singleton]
    exact ⟨rfl, rfl, hx.isMeaningful⟩
  | jump hx =>
    rw [List.forall_mem_cons, List.forall_mem_singleton]
    exact ⟨rfl, hx.isMeaningful⟩
  | jumpIf hx =>
    rw [List.forall_mem_cons, List.forall_mem_cons, List.forall_mem_singleton]
    exact ⟨rfl, rfl, hx.isMeaningful⟩
  | word hvalues =>
    rw [List.forall_mem_cons, List.forall_mem_cons]
    refine ⟨rfl, rfl, fun t ht => ?_⟩
    obtain ⟨x, -, hx⟩ := exists_of_forall₂ hvalues.flip ht
    exact Operand.Written.isMeaningful hx
  | _ => simp [Token.isMeaningful]

/-- All that is written on a line in the grammar is part of a statement. -/
theorem LineWritten.isMeaningful {statements : List Statement} {tokens : List (Located Token)}
    (h : LineWritten statements tokens) : ∀ t ∈ tokens, t.value.isMeaningful = true := by
  induction h with
  | blank => simp
  | statement h => exact h.isMeaningful
  | label _ ih => simpa [Token.isMeaningful] using ih

theorem isSignificant_lexeme {t : Located Token} (h : t.value.isMeaningful = true) :
    isSignificant t.lexeme = true ∧ t.lexeme.value ≠ .ok .newline := by
  obtain ⟨value, span⟩ := t
  cases value with
  | comma => cases h
  | comment => cases h
  | newline => cases h
  | _ => exact ⟨rfl, fun heq => by cases heq⟩

theorem LineWritten.ne_nil {s : Statement} {statements : List Statement}
    {tokens : List (Located Token)} (h : LineWritten (s :: statements) tokens) : tokens ≠ [] := by
  cases h with
  | statement h =>
    obtain ⟨m, s, rest, rfl⟩ := h.head
    exact List.cons_ne_nil _ _
  | label _ => exact List.cons_ne_nil _ _

/-- What is written on a line is one line of tokens. -/
theorem LineWritten.tokenLines_eq {s : Statement} {statements : List Statement}
    {tokens : List (Located Token)} (h : LineWritten (s :: statements) tokens) :
    tokenLines (tokens.map Located.lexeme) = [tokens.map Located.lexeme] := by
  have hlexeme : ∀ l ∈ tokens.map Located.lexeme,
      isSignificant l = true ∧ l.value ≠ .ok .newline := by
    intro l hl
    obtain ⟨t, ht, rfl⟩ := List.mem_map.mp hl
    exact isSignificant_lexeme (h.isMeaningful t ht)
  rw [tokenLines_of_line fun l hl => (hlexeme l hl).2,
    List.filter_eq_self.mpr fun l hl => (hlexeme l hl).1]
  exact List.filter_cons_of_pos (by simpa using h.ne_nil)

/-! ## Programs -/

/-- Each line that is not in the grammar has an error, and only such a line has. -/
theorem errors_of_lines (lines : List (List Lexeme)) :
    List.Forall₂ (fun line e => (parseLine line).error = some e)
      (lines.filter (¬ InGrammar ·)) ((lines.map parseLine).filterMap (·.error)) := by
  induction lines with
  | nil => exact .nil
  | cons line lines ih =>
    rw [List.map_cons, List.filterMap_cons]
    cases h : (parseLine line).error with
    | none =>
      rw [List.filter_cons_of_neg (by simpa using parseLine_error_eq_none_iff.mp h)]
      exact ih
    | some e =>
      have hnot : ¬ InGrammar line := fun hin => by
        rw [parseLine_error_eq_none_iff.mpr hin] at h
        cases h
      rw [List.filter_cons_of_pos (by simpa using hnot)]
      exact .cons h ih

/-- If all lines are in the grammar, they give what is written on them. -/
theorem statements_of_lines {lines : List (List Lexeme)} (h : ∀ line ∈ lines, InGrammar line) :
    List.Forall₂ LineMeans lines ((lines.map parseLine).map (·.statements)) := by
  rw [List.map_map, List.forall₂_map_right_iff, List.forall₂_same]
  intro line hline
  obtain ⟨statements, hmeans⟩ := h line hline
  rw [Function.comp_apply, parseLine_eq_iff.mpr hmeans]
  exact hmeans

/-- The tokens of each line of a source that has any. -/
def grammarLines (source : String) : List (List Lexeme) :=
  ((⟨source⟩ : Text.Source).lines.map Text.Line.tokens).filter (!·.isEmpty)

/-- **The reader accepts the grammar of lines, and nothing else.** Each line that has a token but
is not in the grammar gives one error, which stands on it, and no other line gives one. If all
lines are in the grammar, the statements are those that are written on the lines, in order. -/
theorem parse_accepts_grammar (source : String) :
    List.Forall₂ (fun line e => OnLine line e.span.start ∧ OnLine line e.span.stop)
      ((grammarLines source).filter (¬ InGrammar ·)) (parse source).errors ∧
    ((∀ line ∈ grammarLines source, InGrammar line) →
      ∃ statements, List.Forall₂ LineMeans (grammarLines source) statements ∧
        (parse source).statements = statements.flatten) := by
  have hlines : tokenLines (Token.scan source) = grammarLines source := by
    rw [grammarLines, Text.Source.lines_eq]
    exact tokenLines_scanFrom 0 source.toList
  rw [parse, hlines]
  refine ⟨(errors_of_lines _).imp fun line e h => place_of_error h, fun h => ?_⟩
  exact ⟨_, statements_of_lines h, List.flatMap_def⟩

end Nic
