/-
From text to tokens.

The character at hand decides what stands there, and each piece is as long as it can be:

    space, tab, carriage return, form feed      nothing
    newline  :  ,                               a token of its own
    //                                          a comment, up to the newline
    a decimal digit                             a number, over all word characters that follow
    -                                           a signed number, likewise
    a letter a-z, A-Z or _                      a name, likewise; with a displacement if a sign
                                                and a decimal digit follow, over all word
                                                characters after these
    anything else                               a fault of one character

A name of one `r` or `R` and decimal digits is a register, unless a displacement follows. No
piece but the newline itself contains a newline.
-/
import Nic.Text.DecimalDigit
import Nic.Text.WordChar
import Nic.Token.Number

set_option autoImplicit false

namespace Nic.Token

/-- What stands at the start of a text: a token or a fault, or nothing if the character is skipped;
and the number of characters after the first that belong to it. -/
structure Piece where
  content : Option (Except LexicalFault Token)
  more : Nat

/-- What a piece adds to the tokens and faults of a text. -/
def Piece.lexemes (piece : Piece) (span : Span) : List Lexeme :=
  piece.content.toList.map (⟨·, span⟩)

/-- The word characters at the start of a text. -/
def wordRun (cs : List Char) : List Char :=
  cs.takeWhile Text.isWordChar

/-- Whether a name may start with this character. -/
def isNameStart (c : Char) : Bool :=
  c.isAlpha || c == '_'

/-- The sign and the word characters of a displacement at the start of a text. -/
def displacement? : List Char → Option (Bool × List Char)
  | '+' :: d :: cs => if Text.isDecimalDigit d then some (false, d :: wordRun cs) else none
  | '-' :: d :: cs => if Text.isDecimalDigit d then some (true, d :: wordRun cs) else none
  | _ => none

/-- The digits of a register name. -/
def registerDigits? : List Char → Option (List Char)
  | c :: digits =>
    if (c == 'r' || c == 'R') && !digits.isEmpty && digits.all Text.isDecimalDigit then some digits
    else none
  | [] => none

/-- The token of a name without a displacement. -/
def ofName (cs : List Char) : Except LexicalFault Token :=
  match registerDigits? cs with
  | some digits => readRegister digits
  | none =>
    let name := String.ofList cs
    match Mnemonic.ofName? name with
    | some m => .ok (.mnemonic m)
    | none => .ok (.name name)

/-- What stands at the start of the text `c :: cs` (the patterns of `Token`). -/
def pieceAt (c : Char) (cs : List Char) : Piece :=
  if c == ' ' || c == '\t' || c == '\r' || c == '\x0c' then ⟨none, 0⟩
  else if c == '\n' then ⟨some (.ok .newline), 0⟩
  else if c == ':' then ⟨some (.ok .colon), 0⟩
  else if c == ',' then ⟨some (.ok .comma), 0⟩
  else if c == '/' then
    if cs.head? == some '/' then ⟨some (.ok .comment), (cs.takeWhile (· != '\n')).length⟩
    else ⟨some (.error .badSymbol), 0⟩
  else if Text.isDecimalDigit c then
    let run := wordRun cs
    ⟨some (readUnsigned (c :: run)), run.length⟩
  else if c == '-' then
    let run := wordRun cs
    ⟨some (readNegative run), run.length⟩
  else if isNameStart c then
    let run := wordRun cs
    -- the longer reading wins: `r1+2` is a displaced name, not a register
    match displacement? (cs.drop run.length) with
    | some (negative, digits) =>
      ⟨some (readDisplaced (c :: run) negative digits), run.length + 1 + digits.length⟩
    | none => ⟨some (ofName (c :: run)), run.length⟩
  else ⟨some (.error .badSymbol), 0⟩

/-- Adds the pieces of a text that starts at an offset to those found before. -/
def scanInto (found : Array Lexeme) (offset : Nat) : List Char → Array Lexeme
  | [] => found
  | c :: cs =>
    let piece := pieceAt c cs
    let stop := offset + Text.byteLength (c :: cs.take piece.more)
    scanInto (found ++ piece.lexemes ⟨offset, stop⟩) stop (cs.drop piece.more)
termination_by cs => cs.length

/-- The tokens and faults of a text, in order (`Token::lexer`). -/
def scan (source : String) : List Lexeme :=
  (scanInto #[] 0 source.toList).toList

end Nic.Token
