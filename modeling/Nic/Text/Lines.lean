/-
The lines of a source text.

A line ends before each newline, and the last one at the end of the text, so a text with `n`
newlines has `n + 1` lines. Lines are numbered from zero.
-/
import Nic.Text.Blank
import Nic.Text.Decimal
import Nic.Text.Span

set_option autoImplicit false

namespace Nic.Text

/-- One line of a text: where it starts, and its characters without the newline. -/
structure Line where
  start : Nat
  chars : List Char
deriving DecidableEq, Repr

namespace Line

/-- The place of the line without the white space around it (`SourceInfo::line_span`). A blank line
gives the empty place at its end. -/
def span (l : Line) : Span :=
  let lead := byteLength l.chars - byteLength (trimStart l.chars)
  ⟨l.start + lead, l.start + lead + byteLength (trim l.chars)⟩

/-- The line without the white space around it (`SourceInfo::read_line`). -/
def text (l : Line) : String :=
  String.ofList (trim l.chars)

end Line

/-- The offsets of the newlines, given the offset of the text. -/
def newlinesFrom (offset : Nat) (cs : List Char) : List Nat :=
  (cs.foldl (fun (found, offset) c =>
    (if c = '\n' then found.push offset else found, offset + c.utf8Size)) (#[], offset)).1.toList

/-- Splits a text at each newline. -/
def splitLines (cs : List Char) : List (List Char) :=
  cs.foldr (fun c lines =>
    if c = '\n' then [] :: lines
    else match lines with
      | [] => [[c]]
      | line :: rest => (c :: line) :: rest) [[]]

/-- A source text and its lines (`SourceInfo`). -/
structure Source where
  text : String
deriving DecidableEq, Repr

namespace Source

/-- The offset of each newline (`SourceInfo::new`). -/
def newlines (s : Source) : List Nat :=
  newlinesFrom 0 s.text.toList

/-- The number of lines (`SourceInfo::count_lines`). -/
def lineCount (s : Source) : Nat :=
  s.newlines.length + 1

/-- The lines, in order: the first starts with the text, each other one after a newline. -/
def lines (s : Source) : List Line :=
  List.zipWith Line.mk (0 :: s.newlines.map (· + 1)) (splitLines s.text.toList)

/-- The line with this number. -/
def line? (s : Source) (number : Nat) : Option Line :=
  s.lines[number]?

/-- The number of the line that an offset is on (`SourceInfo::get_line`): the newlines before it. A
newline is on the line that it ends. -/
def lineAt (s : Source) (offset : Nat) : Nat :=
  s.newlines.countP (· < offset)

/-- The number of bytes. -/
def size (s : Source) : Nat :=
  s.text.utf8ByteSize

/-- A summary that names the newlines only (`SourceInfo::fmt`). -/
def summary (s : Source) : String :=
  "SourceInfo \x7b nl_indices: [" ++ ", ".intercalate (s.newlines.map decimal) ++ "], .. \x7d"

end Source

end Nic.Text
