/-
Moving a program within its text, and spelling its names otherwise.

Tokens carry their places, and so do statements, labels and errors; names are carried along with
them. Here every place is moved by a function `f` on offsets and every name is changed by a function
`g`, and what the reader makes of the changed tokens is what it makes of the tokens, changed
(`parseLine_respelled`). Both functions are arbitrary, so this says more than that a text may be
shifted:

  - with `f` constant, what is read does not depend on places at all;
  - with an `f` that moves all offsets but those of a line, an error or a statement that such an
    `f` leaves in place stands on the line (`place_of_error`, `place_of_statement`);
  - with `f` the identity, the reader is seen never to look into a name.

Where names stay as they are, the program is only moved (`parseLine_moved`).
-/
import Nic.Proofs.Statement.Grammar
import Nic.Proofs.Token.Cut

set_option autoImplicit false

namespace Nic

/-! ## Places moved -/

/-- A place with both ends moved. -/
def Span.moved (f : Nat → Nat) (s : Span) : Span := ⟨f s.start, f s.stop⟩

/-- A value at another place. -/
def Located.moved {α : Type} (f : Nat → Nat) (l : Located α) : Located α :=
  ⟨l.value, l.span.moved f⟩

/-- A label at another place. -/
def Label.moved (f : Nat → Nat) (l : Label) : Label := ⟨l.name, f l.start⟩

/-- An operand whose label is at another place. -/
def Operand.moved (f : Nat → Nat) : Operand → Operand
  | literal value => literal value
  | address label offset => address (label.moved f) offset

/-- An instruction whose operand is at another place. -/
def SourceInstr.moved (f : Nat → Nat) : SourceInstr → SourceInstr
  | halt => halt
  | noop => noop
  | imm op a x => imm op a (x.moved f)
  | pair op a b => pair op a b
  | alu op a b c => alu op a b c
  | jump target => jump (target.moved f)
  | jumpIf cond a target => jumpIf cond a (target.moved f)

/-- What a statement says, with all its labels at other places. -/
def Statement.Body.moved (f : Nat → Nat) : Statement.Body → Statement.Body
  | instr i => instr (i.moved f)
  | label name => label (name.moved f)
  | word name values => word (name.moved f) (values.map (Operand.moved f))

/-- A statement at another place. -/
def Statement.moved (f : Nat → Nat) (s : Statement) : Statement := ⟨s.body.moved f, s.span.moved f⟩

/-- An error at another place. -/
def SyntaxError.moved (f : Nat → Nat) (e : SyntaxError) : SyntaxError := ⟨e.fault, e.span.moved f⟩

/-- What a line gives, at another place. -/
def ParsedLine.moved (f : Nat → Nat) (p : ParsedLine) : ParsedLine :=
  ⟨p.statements.map (Statement.moved f), p.error.map (SyntaxError.moved f)⟩

/-! ## Names spelt otherwise -/

/-- A token with its name spelt otherwise. -/
def Token.respelled (g : String → String) : Token → Token
  | name text => name (g text)
  | displaced text offset => displaced (g text) offset
  | t => t

section Respelled

variable (f : Nat → Nat) (g : String → String)

/-- A token at another place, with its name spelt otherwise. -/
def Located.respelled (t : Located Token) : Located Token := ⟨t.value.respelled g, t.span.moved f⟩

/-- A token or a fault at another place, with its name spelt otherwise. -/
def Lexeme.respelled (l : Lexeme) : Lexeme := ⟨l.value.map (Token.respelled g), l.span.moved f⟩

/-- A label at another place, spelt otherwise. -/
def Label.respelled (l : Label) : Label := ⟨g l.name, f l.start⟩

/-- An operand whose label is at another place, spelt otherwise. -/
def Operand.respelled : Operand → Operand
  | literal value => literal value
  | address label offset => address (label.respelled f g) offset

/-- An instruction whose operand is at another place, spelt otherwise. -/
def SourceInstr.respelled : SourceInstr → SourceInstr
  | halt => halt
  | noop => noop
  | imm op a x => imm op a (x.respelled f g)
  | pair op a b => pair op a b
  | alu op a b c => alu op a b c
  | jump target => jump (target.respelled f g)
  | jumpIf cond a target => jumpIf cond a (target.respelled f g)

/-- What a statement says, with all its labels at other places, spelt otherwise. -/
def Statement.Body.respelled : Statement.Body → Statement.Body
  | instr i => instr (i.respelled f g)
  | label name => label (name.respelled f g)
  | word name values => word (name.respelled f g) (values.map (Operand.respelled f g))

/-- A statement at another place, with its names spelt otherwise. -/
def Statement.respelled (s : Statement) : Statement := ⟨s.body.respelled f g, s.span.moved f⟩

/-- What a line gives, at another place and with its names spelt otherwise. There is no name in an
error. -/
def ParsedLine.respelled (p : ParsedLine) : ParsedLine :=
  ⟨p.statements.map (Statement.respelled f g), p.error.map (SyntaxError.moved f)⟩

/-- The tokens that are left of a line, at another place and with their names spelt otherwise. -/
def Cursor.respelled (c : Cursor) : Cursor := ⟨c.rest.map (Located.respelled f g), f c.stop⟩

end Respelled

/-! Names that stay as they are leave a move. -/

section Moved

variable (f : Nat → Nat)

theorem Token.respelled_id (t : Token) : t.respelled id = t := by
  cases t <;> rfl

theorem Lexeme.respelled_id : Lexeme.respelled f id = Located.moved f := by
  funext l
  obtain ⟨value, span⟩ := l
  cases value with
  | error fault => rfl
  | ok token => exact congrArg (fun t => (⟨.ok t, span.moved f⟩ : Lexeme)) token.respelled_id

theorem Operand.respelled_id : Operand.respelled f id = Operand.moved f := by
  funext x
  cases x <;> rfl

theorem SourceInstr.respelled_id (i : SourceInstr) : i.respelled f id = i.moved f := by
  cases i <;> simp only [respelled, moved, Operand.respelled_id]

theorem Statement.respelled_id : Statement.respelled f id = Statement.moved f := by
  funext s
  obtain ⟨body, span⟩ := s
  cases body <;>
    simp only [respelled, moved, Body.respelled, Body.moved, SourceInstr.respelled_id,
      Operand.respelled_id] <;>
    rfl

end Moved

variable (f : Nat → Nat) (g : String → String)

/-! ## Reading respelled tokens -/

namespace Reader

/-- A result at another place, whose value is changed by `h`. -/
def respelledResult {α : Type} (h : α → α) :
    EStateM.Result SyntaxError Cursor α → EStateM.Result SyntaxError Cursor α
  | .ok a c => .ok (h a) (c.respelled f g)
  | .error e c => .error (e.moved f) (c.respelled f g)

/-- On respelled tokens, `y` gives what `x` gives on the tokens, changed. -/
def Respells {α : Type} (h : α → α) (x y : Reader α) : Prop :=
  ∀ c, y (c.respelled f g) = respelledResult f g h (x c)

variable {f g}

theorem Respells.pure {α : Type} (h : α → α) (a : α) :
    Respells f g h (Pure.pure a : Reader α) (Pure.pure (h a)) :=
  fun _ => rfl

theorem Respells.bind {α β : Type} {h : α → α} {h' : β → β} {x y : Reader α} {j k : α → Reader β}
    (hx : Respells f g h x y) (hj : ∀ a, Respells f g h' (j a) (k (h a))) :
    Respells f g h' (x >>= j) (y >>= k) := by
  intro c
  change EStateM.bind y k (c.respelled f g) = respelledResult f g h' (EStateM.bind x j c)
  unfold EStateM.bind
  rw [hx c]
  cases x c with
  | ok a c' => exact hj a c'
  | error e c' => rfl

/-- Taking a token respells if accepting one does. -/
theorem Respells.take {α : Type} {h : α → α} {accept : Located Token → Except SyntaxFault α}
    (missing : SyntaxFault) (haccept : ∀ t, accept (t.respelled f g) = h <$> accept t) :
    Respells f g h (Reader.take missing accept) (Reader.take missing accept) := by
  intro c
  obtain ⟨rest, stop⟩ := c
  cases rest with
  | nil => rfl
  | cons t rest =>
    simp only [Reader.take, Cursor.respelled, List.map_cons, haccept]
    cases accept t <;> rfl

theorem takeAllInto_respelled {α : Type} {h : α → α}
    {accept : Located Token → Except SyntaxFault α}
    (haccept : ∀ t, accept (t.respelled f g) = h <$> accept t) (stop : Nat) (found : Array α)
    (tokens : List (Located Token)) :
    takeAllInto accept (f stop) (found.map h) (tokens.map (Located.respelled f g)) =
      respelledResult f g (List.map h) (takeAllInto accept stop found tokens) := by
  induction tokens generalizing found with
  | nil => simp [takeAllInto, respelledResult, Cursor.respelled]
  | cons t tokens ih =>
    simp only [List.map_cons, takeAllInto, haccept]
    cases accept t with
    | error fault => rfl
    | ok a =>
      rw [← ih, Array.map_push]
      rfl

theorem Respells.takeAll {α : Type} {h : α → α} {accept : Located Token → Except SyntaxFault α}
    (haccept : ∀ t, accept (t.respelled f g) = h <$> accept t) :
    Respells f g (List.map h) (Reader.takeAll accept) (Reader.takeAll accept) := by
  intro c
  have hinto := takeAllInto_respelled haccept c.stop #[] c.rest
  rw [Array.map_empty] at hinto
  exact hinto

/-! ## Operands and statements -/

theorem literalOf_respelled (value : Int) :
    literalOf value = Operand.respelled f g <$> literalOf value := by
  unfold literalOf
  split <;> rfl

theorem operandOf_respelled (t : Located Token) :
    operandOf (t.respelled f g) = Operand.respelled f g <$> operandOf t := by
  obtain ⟨value, span⟩ := t
  cases value with
  | unsigned value => exact literalOf_respelled _
  | signed value => exact literalOf_respelled _
  | _ => rfl

theorem registerOf_respelled (t : Located Token) :
    registerOf (t.respelled f g) = id <$> registerOf t := by
  obtain ⟨value, span⟩ := t
  cases value <;> rfl

theorem nameOf_respelled (t : Located Token) :
    nameOf (t.respelled f g) = Label.respelled f g <$> nameOf t := by
  obtain ⟨value, span⟩ := t
  cases value <;> rfl

theorem mnemonicOf_respelled (t : Located Token) :
    mnemonicOf (t.respelled f g) = id <$> mnemonicOf t := by
  obtain ⟨value, span⟩ := t
  cases value <;> rfl

theorem register_respells : Respells f g id register register := .take _ registerOf_respelled

theorem operand_respells : Respells f g (Operand.respelled f g) operand operand :=
  .take _ operandOf_respelled

theorem name_respells : Respells f g (Label.respelled f g) name name := .take _ nameOf_respelled

/-- **Statements are respelt with their tokens.** -/
theorem body_respells : Respells f g (Statement.Body.respelled f g) body body := by
  refine (Respells.take _ mnemonicOf_respelled).bind fun m => ?_
  cases m with
  | halt => exact .pure _ _
  | noop => exact .pure _ _
  | imm op => exact register_respells.bind fun a => operand_respells.bind fun x => .pure _ _
  | pair op => exact register_respells.bind fun a => register_respells.bind fun b => .pure _ _
  | alu op =>
    exact register_respells.bind fun a => register_respells.bind fun b =>
      register_respells.bind fun c => .pure _ _
  | jump => exact operand_respells.bind fun x => .pure _ _
  | jumpIf cond => exact register_respells.bind fun a => operand_respells.bind fun x => .pure _ _
  | word =>
    exact name_respells.bind fun label =>
      (Respells.takeAll operandOf_respelled).bind fun values => .pure _ _

end Reader

/-! ## Lines -/

/-- The start of a line that is not empty. -/
theorem Cursor.ofTokens_respelled {tokens : List (Located Token)} (h : tokens ≠ []) :
    Cursor.ofTokens (tokens.map (Located.respelled f g)) =
      (Cursor.ofTokens tokens).respelled f g := by
  rw [Cursor.ofTokens, Cursor.ofTokens, List.getLast?_map, List.getLast?_eq_getLast_of_ne_nil h]
  rfl

theorem Cursor.here_respelled (c : Cursor) : (c.respelled f g).here = c.here.moved f := by
  obtain ⟨rest, stop⟩ := c
  cases rest <;> rfl

theorem parseBody_respelled {tokens : List (Located Token)} (h : tokens ≠ []) :
    parseBody (tokens.map (Located.respelled f g)) =
      ((parseBody tokens).map (Statement.respelled f g)).mapError (SyntaxError.moved f) := by
  rw [parseBody, parseBody, Cursor.ofTokens_respelled f g h, Reader.body_respells]
  cases Reader.body (Cursor.ofTokens tokens) with
  | error e c => rfl
  | ok body left =>
    have hend : (left.respelled f g).atEnd = left.atEnd := List.isEmpty_map
    simp only [Reader.respelledResult, hend, Cursor.here_respelled]
    split <;> rfl

/-- A respelled line starts with a token of some kind if the line does. -/
theorem eq_cons_of_map_respelled {f : Nat → Nat} {g : String → String}
    {tokens rest : List (Located Token)} {value : Token} {span : Span}
    (h : tokens.map (Located.respelled f g) = ⟨value, span⟩ :: rest) :
    ∃ value' span' rest', tokens = ⟨value', span'⟩ :: rest' ∧ value'.respelled g = value ∧
      rest'.map (Located.respelled f g) = rest := by
  obtain ⟨⟨value', span'⟩, rest', rfl, htoken, hrest⟩ := List.map_eq_cons_iff.mp h
  exact ⟨value', span', rest', rfl, congrArg Located.value htoken, hrest⟩

theorem eq_colon_of_respelled {g : String → String} {t : Token} (h : t.respelled g = .colon) :
    t = .colon := by
  cases t with
  | colon => rfl
  | _ => cases h

theorem eq_register_of_respelled {g : String → String} {t : Token} {r : Reg}
    (h : t.respelled g = .register r) : t = .register r := by
  cases t with
  | register r' => exact h
  | _ => cases h

theorem eq_name_of_respelled {g : String → String} {t : Token} {name : String}
    (h : t.respelled g = .name name) : ∃ text, t = .name text := by
  cases t with
  | name text => exact ⟨text, rfl⟩
  | _ => cases h

/-- A line that does not start with a register and a colon is a statement. -/
theorem parseRest_eq_parseBody {tokens : List (Located Token)} (hne : tokens ≠ [])
    (h : ∀ r span colon rest, tokens ≠ ⟨.register r, span⟩ :: ⟨.colon, colon⟩ :: rest) :
    parseRest tokens = some <$> parseBody tokens := by
  unfold parseRest
  split
  · exact absurd rfl (h _ _ _ _)
  · exact absurd rfl hne
  · rfl

theorem parseRest_respelled (tokens : List (Located Token)) :
    parseRest (tokens.map (Located.respelled f g)) =
      ((parseRest tokens).map (Option.map (Statement.respelled f g))).mapError
        (SyntaxError.moved f) := by
  by_cases hne : tokens = []
  · rw [hne]
    rfl
  by_cases hregister : ∃ r span colon rest, tokens = ⟨.register r, span⟩ :: ⟨.colon, colon⟩ :: rest
  · obtain ⟨r, span, colon, rest, rfl⟩ := hregister
    rfl
  · have hnot : ∀ r span colon rest, tokens.map (Located.respelled f g) ≠
        ⟨.register r, span⟩ :: ⟨.colon, colon⟩ :: rest := by
      intro r span colon rest h
      obtain ⟨value, span', tail, rfl, hvalue, htail⟩ := eq_cons_of_map_respelled h
      obtain ⟨value', colon', rest', rfl, hcolon, -⟩ := eq_cons_of_map_respelled htail
      obtain rfl := eq_register_of_respelled hvalue
      obtain rfl := eq_colon_of_respelled hcolon
      exact hregister ⟨r, span', colon', rest', rfl⟩
    rw [parseRest_eq_parseBody (by simpa using hne) hnot, parseBody_respelled f g hne,
      parseRest_eq_parseBody hne fun r span colon rest h => hregister ⟨r, span, colon, rest, h⟩]
    cases parseBody tokens <;> rfl

/-- There is no label if the line does not start with a name and a colon. -/
theorem takeLabels_eq_self {tokens : List (Located Token)} (found : Array Statement)
    (h : ∀ name span colon rest, tokens ≠ ⟨.name name, span⟩ :: ⟨.colon, colon⟩ :: rest) :
    takeLabels found tokens = (found, tokens) := by
  unfold takeLabels
  split
  · exact absurd rfl (h _ _ _ _)
  · rfl

theorem takeLabels_respelled (found : Array Statement) (tokens : List (Located Token)) :
    takeLabels (found.map (Statement.respelled f g)) (tokens.map (Located.respelled f g)) =
      ((takeLabels found tokens).1.map (Statement.respelled f g),
        (takeLabels found tokens).2.map (Located.respelled f g)) := by
  fun_induction takeLabels found tokens with
  | case1 found name span colon rest ih =>
    rw [Array.map_push] at ih
    exact ih
  | case2 found rest hnone =>
    refine takeLabels_eq_self _ fun name span colon rest' h => ?_
    obtain ⟨value, span', tail, rfl, hvalue, htail⟩ := eq_cons_of_map_respelled h
    obtain ⟨value', colon', rest, rfl, hcolon, -⟩ := eq_cons_of_map_respelled htail
    obtain ⟨text, rfl⟩ := eq_name_of_respelled hvalue
    obtain rfl := eq_colon_of_respelled hcolon
    exact hnone text span' colon' rest rfl

/-- One more piece in front of a line: a fault, or a token if the rest has no fault. -/
theorem tokensOf_cons (l : Lexeme) (line : List Lexeme) :
    tokensOf (l :: line) = match l.value with
      | .error fault => .error ⟨fault, l.span⟩
      | .ok token => (⟨token, l.span⟩ :: ·) <$> tokensOf line := by
  obtain ⟨value, span⟩ := l
  rw [tokensOf, List.mapM_cons]
  cases value <;> rfl

theorem tokensOf_respelled (line : List Lexeme) :
    tokensOf (line.map (Lexeme.respelled f g)) =
      ((tokensOf line).map (List.map (Located.respelled f g))).mapError (Located.moved f) := by
  induction line with
  | nil => rfl
  | cons l line ih =>
    obtain ⟨value, span⟩ := l
    rw [List.map_cons, tokensOf_cons, tokensOf_cons, ih]
    cases value with
    | error fault => rfl
    | ok token => cases tokensOf line <;> rfl

/-- **What a line gives is respelt with its tokens**, errors included. -/
theorem parseLine_respelled (line : List Lexeme) :
    parseLine (line.map (Lexeme.respelled f g)) = (parseLine line).respelled f g := by
  rw [parseLine, parseLine, tokensOf_respelled]
  cases tokensOf line with
  | error fault => rfl
  | ok tokens =>
    have hlabels := takeLabels_respelled f g #[] tokens
    rw [Array.map_empty] at hlabels
    simp only [Except.map, Except.mapError, hlabels, parseRest_respelled]
    cases parseRest (takeLabels #[] tokens).2 with
    | error e => simp [ParsedLine.respelled]
    | ok statement => simp [ParsedLine.respelled, Option.toList_map]

/-- What a line gives moves with its tokens. -/
theorem parseLine_moved (line : List Lexeme) :
    parseLine (line.map (Located.moved f)) = (parseLine line).moved f := by
  rw [← Lexeme.respelled_id, parseLine_respelled, ParsedLine.respelled, Statement.respelled_id]
  rfl

/-! ## Errors and statements on their lines -/

/-- The offset is an end of a token or fault of the line. -/
def OnLine (line : List Lexeme) (offset : Nat) : Prop :=
  ∃ l ∈ line, offset = l.span.start ∨ offset = l.span.stop

instance (line : List Lexeme) (offset : Nat) : Decidable (OnLine line offset) :=
  inferInstanceAs (Decidable (∃ l ∈ line, offset = l.span.start ∨ offset = l.span.stop))

/-- Moves every offset but those of a line. -/
def moveOthers (line : List Lexeme) (offset : Nat) : Nat :=
  if OnLine line offset then offset else offset + 1

theorem moveOthers_eq_self_iff {line : List Lexeme} {offset : Nat} :
    moveOthers line offset = offset ↔ OnLine line offset := by
  unfold moveOthers
  split
  · exact iff_of_true rfl ‹_›
  · exact iff_of_false (Nat.succ_ne_self _) ‹_›

/-- If everything but a line is moved, what the line gives stays. -/
theorem parseLine_moveOthers (line : List Lexeme) :
    (parseLine line).moved (moveOthers line) = parseLine line := by
  have hline : line.map (Located.moved (moveOthers line)) = line := by
    refine (List.map_congr_left fun l hl => ?_).trans (List.map_id line)
    rw [Located.moved, Span.moved, moveOthers_eq_self_iff.mpr ⟨l, hl, .inl rfl⟩,
      moveOthers_eq_self_iff.mpr ⟨l, hl, .inr rfl⟩]
    rfl
  rw [← parseLine_moved, hline]

/-- A place that stays then is on the line. -/
theorem onLine_of_moveOthers {line : List Lexeme} {span : Span}
    (h : span.moved (moveOthers line) = span) :
    OnLine line span.start ∧ OnLine line span.stop :=
  ⟨moveOthers_eq_self_iff.mp (congrArg Span.start h),
    moveOthers_eq_self_iff.mp (congrArg Span.stop h)⟩

/-- **An error stands on its line.** -/
theorem place_of_error {line : List Lexeme} {e : SyntaxError}
    (h : (parseLine line).error = some e) :
    OnLine line e.span.start ∧ OnLine line e.span.stop := by
  have hmoved := congrArg ParsedLine.error (parseLine_moveOthers line)
  rw [ParsedLine.moved, h] at hmoved
  exact onLine_of_moveOthers (congrArg SyntaxError.span (Option.some.inj hmoved))

theorem moved_of_mem_parseLine {line : List Lexeme} {s : Statement}
    (h : s ∈ (parseLine line).statements) : s.moved (moveOthers line) = s := by
  have hmoved := congrArg ParsedLine.statements (parseLine_moveOthers line)
  exact List.map_inj_left.mp (hmoved.trans (List.map_id _).symm) s h

/-- **A statement stands on its line.** -/
theorem place_of_statement {line : List Lexeme} {s : Statement}
    (h : s ∈ (parseLine line).statements) :
    OnLine line s.span.start ∧ OnLine line s.span.stop :=
  onLine_of_moveOthers (congrArg Statement.span (moved_of_mem_parseLine h))

end Nic
