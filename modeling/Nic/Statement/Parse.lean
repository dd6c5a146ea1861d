/-
From tokens to statements, line by line.

A line is any number of labels, each with its colon, and then at most one statement. Commas and
comments mean nothing. Each line has at most one error, and an error ends the reading of its line
only: the labels before it stay.
-/
import Nic.Statement.Read
import Nic.Token.Scan

set_option autoImplicit false

namespace Nic

/-! ## Lines of tokens -/

/-- Puts a piece of the source in front of lines: a newline starts a line, commas and comments are
left out. -/
def consLexeme (l : Lexeme) (lines : List (List Lexeme)) : List (List Lexeme) :=
  match l.value with
  | .ok .newline => [] :: lines
  | .ok .comma => lines
  | .ok .comment => lines
  | _ => match lines with
    | [] => [[l]]
    | line :: rest => (l :: line) :: rest

/-- The lines of a source that have anything on them (`split_lines`). -/
def tokenLines (lexemes : List Lexeme) : List (List Lexeme) :=
  (lexemes.foldr consLexeme [[]]).filter (!·.isEmpty)

/-- The tokens of a sequence of pieces, or its first fault. -/
def tokensOf (lexemes : List Lexeme) : Except (Located LexicalFault) (List (Located Token)) :=
  lexemes.mapM fun l => match l.value with
    | .ok token => .ok ⟨token, l.span⟩
    | .error fault => .error ⟨fault, l.span⟩

/-! ## One line -/

/-- What a line gives: its statements, and an error if it has one. -/
structure ParsedLine where
  statements : List Statement
  error : Option SyntaxError

/-- Splits off the labels at the start of a line, adding them to those found before
(`Parser::match_label_def`). -/
def takeLabels (found : Array Statement) :
    List (Located Token) → Array Statement × List (Located Token)
  | ⟨.name name, span⟩ :: ⟨.colon, colon⟩ :: rest =>
    takeLabels (found.push ⟨.label ⟨name, span.start⟩, ⟨span.start, colon.stop⟩⟩) rest
  | rest => (found, rest)

/-- Reads the one statement that is left of a line after its labels. -/
def parseBody (tokens : List (Located Token)) : Except SyntaxError Statement :=
  let line := Cursor.ofTokens tokens
  match Reader.body line with
  | .error e _ => .error e
  | .ok body left =>
    if left.atEnd then .ok ⟨body, ⟨line.here.start, line.stop⟩⟩
    else .error ⟨.unexpected, left.here⟩

/-- Reads what is left of a line after its labels: nothing, or a statement. -/
def parseRest : List (Located Token) → Except SyntaxError (Option Statement)
  | ⟨.register _, span⟩ :: ⟨.colon, _⟩ :: _ => .error ⟨.registerLabel, span⟩
  | [] => .ok none
  | rest => some <$> parseBody rest

/-- Reads a line (`Parser::parse_line`). -/
def parseLine (line : List Lexeme) : ParsedLine :=
  match tokensOf line with
  | .error fault => ⟨[], some ⟨.lexical fault.value, fault.span⟩⟩
  | .ok line =>
    let (labels, rest) := takeLabels #[] line
    match parseRest rest with
    | .error e => ⟨labels.toList, some e⟩
    | .ok statement => ⟨labels.toList ++ statement.toList, none⟩

/-! ## Programs -/

/-- The statements of a source and its errors, both in order. -/
structure Parsed where
  statements : List Statement
  errors : List SyntaxError

/-- Reads a source, going on after errors (`parse_all`). -/
def parse (source : String) : Parsed :=
  let lines := (tokenLines (Token.scan source)).map parseLine
  ⟨lines.flatMap (·.statements), lines.filterMap (·.error)⟩

/-- Reads a source without errors, or gives the first one (`parse_ast`). -/
def parseProgram (source : String) : Except SyntaxError (List Statement) :=
  let parsed := parse source
  match parsed.errors with
  | [] => .ok parsed.statements
  | e :: _ => .error e

end Nic
