/-
The errors of a program, shown with the lines they are on.
-/
import Nic.Assembly.Fault
import Nic.Text.Lines

set_option autoImplicit false

namespace Nic

/-- Errors, in order, and the source that they are about. -/
structure Diagnostics where
  errors : List AssemblyError
  source : Text.Source
deriving DecidableEq

namespace Diagnostics

/-- The number of the line that an error is on, counted from one (`Diagnostics::line_of`). -/
def lineOf (d : Diagnostics) (e : AssemblyError) : Nat :=
  d.source.lineAt e.first.start + 1

/-- The line that an error is on, without the white space around it. -/
def lineText (d : Diagnostics) (e : AssemblyError) : String :=
  ((d.source.line? (d.source.lineAt e.first.start)).map (·.text)).getD ""

/-- One error: its line, what is wrong, and on a second line what would be right. -/
def entry (d : Diagnostics) (e : AssemblyError) : String :=
  "line " ++ Text.decimal (d.lineOf e) ++ ": " ++ d.lineText e ++ ": " ++ e.fault.message ++ "\n" ++
    match e.fault.help with
    | some help => "    help: " ++ help ++ "\n"
    | none => ""

/-- The errors as text (`Diagnostics::fmt`). -/
def render (d : Diagnostics) : String :=
  String.join (d.errors.map d.entry)

end Diagnostics

end Nic
