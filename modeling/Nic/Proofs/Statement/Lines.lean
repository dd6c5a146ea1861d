/-
Lines are read one by one.

A text is scanned as a whole and its tokens are put into lines afterwards. Since no token goes past
a newline, this is the same as scanning each line of the text on its own: `tokenLines_scanFrom`
gives the token lines from the lines of the text, and `parse_line_local` says what follows for
programs. Errors of different lines are therefore in the order of the lines.
-/
import Nic.Proofs.Statement.Places
import Nic.Proofs.Text.Lines
import Nic.Proofs.Token.Kinds

set_option autoImplicit false

namespace Nic

/-! ## Pieces in lines -/

/-- Whether a piece means something on its line: commas and comments do not. -/
def isSignificant (l : Lexeme) : Bool :=
  match l.value with
  | .ok .comma => false
  | .ok .comment => false
  | _ => true

/-- A piece goes in front of the first line. -/
theorem consLexeme_cons {l : Lexeme} (hl : l.value ≠ .ok .newline) (line : List Lexeme)
    (lines : List (List Lexeme)) :
    consLexeme l (line :: lines) = ([l].filter isSignificant ++ line) :: lines := by
  obtain ⟨value, span⟩ := l
  cases value with
  | error fault => rfl
  | ok token =>
    cases token with
    | newline => exact absurd rfl hl
    | _ => rfl

/-- Commas and comments are left out. -/
theorem consLexeme_of_insignificant {l : Lexeme} (hl : isSignificant l = false)
    (lines : List (List Lexeme)) : consLexeme l lines = lines := by
  obtain ⟨value, span⟩ := l
  cases value with
  | error fault => cases hl
  | ok token =>
    cases token with
    | comma => rfl
    | comment => rfl
    | _ => cases hl

theorem consLexeme_newline (span : Span) (lines : List (List Lexeme)) :
    consLexeme ⟨.ok .newline, span⟩ lines = [] :: lines := rfl

/-- Pieces without a newline all go in front of the first line. -/
theorem foldr_consLexeme {xs : List Lexeme} (h : ∀ l ∈ xs, l.value ≠ .ok .newline)
    (line : List Lexeme) (lines : List (List Lexeme)) :
    xs.foldr consLexeme (line :: lines) = (xs.filter isSignificant ++ line) :: lines := by
  induction xs with
  | nil => rfl
  | cons l xs ih =>
    rw [List.foldr_cons, ih fun k hk => h k (List.mem_cons_of_mem _ hk),
      consLexeme_cons (h l List.mem_cons_self), ← List.append_assoc, ← List.filter_append]
    rfl

/-- Lines further on stay as they are. -/
theorem foldr_consLexeme_append (xs : List Lexeme) (rest : List (List Lexeme)) :
    ∀ line lines, ∃ line' lines', xs.foldr consLexeme (line :: lines) = line' :: lines' ∧
      xs.foldr consLexeme (line :: (lines ++ rest)) = line' :: (lines' ++ rest) := by
  intro line lines
  induction xs with
  | nil => exact ⟨line, lines, rfl, rfl⟩
  | cons l xs ih =>
    obtain ⟨line', lines', h, h'⟩ := ih
    rw [List.foldr_cons, List.foldr_cons, h, h']
    by_cases hl : l.value = .ok .newline
    · obtain ⟨value, span⟩ := l
      obtain rfl : value = .ok .newline := hl
      exact ⟨[], line' :: lines', rfl, rfl⟩
    · rw [consLexeme_cons hl, consLexeme_cons hl]
      exact ⟨_, _, rfl, rfl⟩

/-- The lines of pieces with a newline between them. -/
theorem tokenLines_append_newline (xs ys : List Lexeme) (span : Span) :
    tokenLines (xs ++ ⟨.ok .newline, span⟩ :: ys) = tokenLines xs ++ tokenLines ys := by
  obtain ⟨line, lines, h, h'⟩ := foldr_consLexeme_append xs (ys.foldr consLexeme [[]]) [] []
  rw [tokenLines, tokenLines, tokenLines, List.foldr_append, List.foldr_cons, consLexeme_newline]
  rw [List.nil_append] at h'
  rw [h, h', ← List.cons_append, List.filter_append]

/-- Pieces without a newline are one line, or none. -/
theorem tokenLines_of_line {xs : List Lexeme} (h : ∀ l ∈ xs, l.value ≠ .ok .newline) :
    tokenLines xs = [xs.filter isSignificant].filter (!·.isEmpty) := by
  rw [tokenLines, foldr_consLexeme h, List.append_nil]

theorem consLexeme_respelled (f : Nat → Nat) (g : String → String) (l : Lexeme)
    (lines : List (List Lexeme)) :
    consLexeme (Lexeme.respelled f g l) (lines.map (List.map (Lexeme.respelled f g))) =
      (consLexeme l lines).map (List.map (Lexeme.respelled f g)) := by
  obtain ⟨value, span⟩ := l
  cases value with
  | error fault => cases lines <;> rfl
  | ok token => cases token <;> cases lines <;> rfl

theorem tokenLines_respelled (f : Nat → Nat) (g : String → String) (xs : List Lexeme) :
    tokenLines (xs.map (Lexeme.respelled f g)) =
      (tokenLines xs).map (List.map (Lexeme.respelled f g)) := by
  have hfold : (xs.map (Lexeme.respelled f g)).foldr consLexeme [[]] =
      (xs.foldr consLexeme [[]]).map (List.map (Lexeme.respelled f g)) := by
    induction xs with
    | nil => rfl
    | cons l xs ih =>
      rw [List.map_cons, List.foldr_cons, List.foldr_cons, ih, consLexeme_respelled]
  rw [tokenLines, tokenLines, hfold, List.filter_map]
  congr 2
  funext line
  simp

/-! ## Lines of the text -/

namespace Token

theorem scanFrom_newline (offset : Nat) (cs : List Char) :
    scanFrom offset ('\n' :: cs) =
      ⟨.ok .newline, ⟨offset, offset + 1⟩⟩ :: scanFrom (offset + 1) cs := by
  rw [scanFrom_cons]
  rfl

/-- A text further on has its tokens further on. -/
theorem scanFrom_add (offset d : Nat) (cs : List Char) :
    scanFrom (offset + d) cs = (scanFrom offset cs).map (Located.moved (· + d)) := by
  induction cs using pieces_induction generalizing offset with
  | nil => simp
  | piece c cs ih =>
    rw [scanFrom_cons, scanFrom_cons offset, List.map_append, ← ih, Nat.add_right_comm]
    congr 1
    rw [Piece.lexemes, Piece.lexemes, List.map_map]
    rfl

end Token

open Token

/-- The pieces of a line of the text that mean something. -/
def Text.Line.tokens (line : Text.Line) : List Lexeme :=
  (scanFrom line.start line.chars).filter isSignificant

/-- **The lines of tokens are those of the text**, without those that mean nothing. -/
theorem tokenLines_scanFrom (offset : Nat) (cs : List Char) :
    tokenLines (scanFrom offset cs) =
      ((Text.linesFrom offset cs).map Text.Line.tokens).filter (!·.isEmpty) := by
  induction cs using Text.lines_induction generalizing offset with
  | last line hline =>
    rw [tokenLines_of_line fun l hl => ne_newline_of_mem_scanFrom hline hl,
      Text.linesFrom_of_not_mem hline]
    rfl
  | newline line rest hline ih =>
    rw [splits_newline, scanFrom_newline, tokenLines_append_newline, ih,
      tokenLines_of_line fun l hl => ne_newline_of_mem_scanFrom hline hl,
      Text.linesFrom_append_newline hline, List.map_cons, ← List.filter_append]
    rfl

/-! ## Programs -/

/-- What tokens and faults give, line by line. -/
def parseLexemes (lexemes : List Lexeme) : Parsed :=
  ⟨((tokenLines lexemes).map parseLine).flatMap (·.statements),
    ((tokenLines lexemes).map parseLine).filterMap (·.error)⟩

theorem parse_eq (source : String) : parse source = parseLexemes (scanFrom 0 source.toList) := rfl

/-- What a text gives, at another place. -/
def Parsed.moved (f : Nat → Nat) (p : Parsed) : Parsed :=
  ⟨p.statements.map (Statement.moved f), p.errors.map (SyntaxError.moved f)⟩

/-- What a text gives, at another place and with its names spelt otherwise. -/
def Parsed.respelled (f : Nat → Nat) (g : String → String) (p : Parsed) : Parsed :=
  ⟨p.statements.map (Statement.respelled f g), p.errors.map (SyntaxError.moved f)⟩

theorem parseLexemes_respelled (f : Nat → Nat) (g : String → String) (xs : List Lexeme) :
    parseLexemes (xs.map (Lexeme.respelled f g)) = (parseLexemes xs).respelled f g := by
  have hlines : ((tokenLines xs).map (List.map (Lexeme.respelled f g))).map parseLine =
      ((tokenLines xs).map parseLine).map (ParsedLine.respelled f g) := by
    rw [List.map_map, List.map_map]
    exact List.map_congr_left fun line _ => parseLine_respelled f g line
  rw [parseLexemes, tokenLines_respelled, hlines, parseLexemes, Parsed.respelled, List.map_flatMap,
    List.flatMap_map, List.filterMap_map, List.map_filterMap]
  rfl

theorem parseLexemes_moved (f : Nat → Nat) (xs : List Lexeme) :
    parseLexemes (xs.map (Located.moved f)) = (parseLexemes xs).moved f := by
  rw [← Lexeme.respelled_id, parseLexemes_respelled, Parsed.respelled, Statement.respelled_id]
  rfl

theorem parseLexemes_append_newline (xs ys : List Lexeme) (span : Span) :
    parseLexemes (xs ++ ⟨.ok .newline, span⟩ :: ys) =
      ⟨(parseLexemes xs).statements ++ (parseLexemes ys).statements,
        (parseLexemes xs).errors ++ (parseLexemes ys).errors⟩ := by
  rw [parseLexemes, tokenLines_append_newline, List.map_append, List.flatMap_append,
    List.filterMap_append]
  rfl

/-- Tokens and faults, all at the same place. -/
def unplaced (values : List (Except LexicalFault Token)) : List Lexeme :=
  values.map (⟨·, ⟨0, 0⟩⟩)

theorem unplaced_append (xs ys : List (Except LexicalFault Token)) :
    unplaced (xs ++ ys) = unplaced xs ++ unplaced ys :=
  List.map_append

/-- The tokens of a text with a newline in it. -/
theorem unplaced_values_newline (x y : List Char) :
    unplaced (values (x ++ '\n' :: y)) =
      unplaced (values x) ++ ⟨.ok .newline, ⟨0, 0⟩⟩ :: unplaced (values y) := by
  rw [(splits_newline x y).values_append, unplaced_append, values_cons]
  rfl

/-- **What a text gives, without places, comes from its tokens without places.** -/
theorem parse_unplaced (source : String) :
    (parse source).moved (fun _ => 0) = parseLexemes (unplaced (values source.toList)) := by
  rw [parse_eq, ← parseLexemes_moved, values, unplaced, List.map_map]
  rfl

/-- **A newline separates programs**: what stands after it is read as if it stood alone, and then
moved. -/
theorem parse_append_newline (a b : String) :
    parse (a ++ "\n" ++ b) =
      ⟨(parse a).statements ++ ((parse b).moved (· + (a.utf8ByteSize + 1))).statements,
        (parse a).errors ++ ((parse b).moved (· + (a.utf8ByteSize + 1))).errors⟩ := by
  have htext : (a ++ "\n" ++ b).toList = a.toList ++ '\n' :: b.toList := by
    rw [String.toList_append, String.toList_append, List.append_assoc]
    rfl
  have hoffset : 0 + Text.byteLength a.toList + 1 = 0 + (a.utf8ByteSize + 1) := by
    rw [Text.byteLength_toList, Nat.add_assoc]
  rw [parse_eq, htext, splits_newline, scanFrom_newline, parseLexemes_append_newline, hoffset,
    scanFrom_add, parseLexemes_moved]
  rfl

/-! ## The order of errors -/

/-- An error of a text stands within it. -/
theorem bounds_of_mem_errors {offset : Nat} {cs : List Char} {e : SyntaxError}
    (h : e ∈ (parseLexemes (scanFrom offset cs)).errors) :
    offset ≤ e.span.start ∧ e.span.start ≤ offset + Text.byteLength cs := by
  obtain ⟨parsed, hparsed, he⟩ := List.mem_filterMap.mp h
  obtain ⟨line, hline, rfl⟩ := List.mem_map.mp hparsed
  obtain ⟨l, hl, hstart⟩ := (place_of_error he).1
  have := bounds_of_mem_scanFrom (mem_of_tokenLines hline hl)
  omega

/-- A text of one line has at most one error. -/
theorem length_errors_le {line : List Char} (h : '\n' ∉ line) (offset : Nat) :
    (parseLexemes (scanFrom offset line)).errors.length ≤ 1 := by
  rw [parseLexemes, tokenLines_of_line fun l hl => ne_newline_of_mem_scanFrom h hl]
  refine (List.length_filterMap_le _ _).trans ?_
  rw [List.length_map]
  exact List.length_filter_le _ _

/-- Errors are in the order of their places, and no two start at one place. -/
theorem errors_increasing (offset : Nat) (cs : List Char) :
    ((parseLexemes (scanFrom offset cs)).errors.map (·.span.start)).Pairwise (· < ·) := by
  have hline : ∀ line offset, '\n' ∉ line →
      ((parseLexemes (scanFrom offset line)).errors.map (·.span.start)).Pairwise (· < ·) := by
    intro line offset hline
    have hle := length_errors_le hline offset
    generalize (parseLexemes (scanFrom offset line)).errors = errors at hle
    match errors with
    | [] => exact .nil
    | [e] => exact List.pairwise_singleton _ _
  induction cs using Text.lines_induction generalizing offset with
  | last line h => exact hline line offset h
  | newline line rest h ih =>
    rw [splits_newline, scanFrom_newline, parseLexemes_append_newline, List.map_append,
      List.pairwise_append]
    refine ⟨hline line offset h, ih _, ?_⟩
    -- the errors of the line end before the newline, the others start after it
    intro m hm n hn
    obtain ⟨e, he, rfl⟩ := List.mem_map.mp hm
    obtain ⟨e', he', rfl⟩ := List.mem_map.mp hn
    have hbefore := bounds_of_mem_errors he
    have hafter := bounds_of_mem_errors he'
    omega

/-- **Reading is local to lines.** The statements and the errors of a text with a newline in it are
those of the text before the newline, and those of the text after it with all places moved by as
many bytes as stand before it. So an error on one line changes nothing that another line gives.
The errors of a text are in the order of their places, no two at one place. -/
theorem parse_line_local :
    (∀ a b : String,
      (parse (a ++ "\n" ++ b)).statements = (parse a).statements ++
        (parse b).statements.map (Statement.moved (· + (a.utf8ByteSize + 1))) ∧
      (parse (a ++ "\n" ++ b)).errors = (parse a).errors ++
        (parse b).errors.map (SyntaxError.moved (· + (a.utf8ByteSize + 1)))) ∧
    ∀ source : String, ((parse source).errors.map (·.span.start)).Pairwise (· < ·) := by
  refine ⟨fun a b => ?_, fun source => errors_increasing 0 source.toList⟩
  rw [parse_append_newline]
  exact ⟨rfl, rfl⟩

end Nic
