/-
The assembler: from a source to an executable, or to the errors of the source.

A source with errors in its lines is not laid out, since most of what would then be found follows
from these. Otherwise all errors of the definitions and of the operands are found together.
-/
import Nic.Assembly.Diagnostics
import Nic.Assembly.Emit
import Nic.Event
import Nic.Executable.Text
import Nic.Statement.Parse

set_option autoImplicit false

namespace Nic

/-! ## Statements -/

/-- The executable of a program, and the errors that make it void: those of the definitions, then
those of the operands. -/
def build (statements : List Statement) : Executable × List AssemblyError :=
  let (symbols, errors) := symbolsOf statements
  (⟨imageOf symbols statements, some symbols⟩, errors ++ operandErrors symbols statements)

/-- The executable of a program, or the error that comes first in the source (`assemble`). -/
def assembleStatements (statements : List Statement) : Except AssemblyError Executable :=
  match build statements with
  | (executable, errors) =>
    match AssemblyError.sort errors with
    | [] => .ok executable
    | e :: _ => .error e

/-! ## Sources -/

/-- The executable of a source, or all its errors, sorted by place. -/
def assembleAll (source : String) : Except (List AssemblyError) Executable :=
  let parsed := parse source
  if parsed.errors.isEmpty then
    match build parsed.statements with
    | (executable, errors) =>
      if errors.isEmpty then .ok executable else .error (AssemblyError.sort errors)
  else .error (AssemblyError.sort (parsed.errors.map AssemblyError.ofSyntax))

/-- The errors that are reported when at most so many are wanted: never none. -/
def reportedErrors (maxErrors : Nat) (errors : List AssemblyError) : List AssemblyError :=
  errors.take (max maxErrors 1)

/-- Assembles a source (`assemble_src`); of its errors, so many are reported, and at least one. -/
def assemble (source : String) (maxErrors : Nat) : Except Diagnostics Executable :=
  (assembleAll source).mapError fun errors => ⟨reportedErrors maxErrors errors, ⟨source⟩⟩

/-- Assembles a source to text (`assemble_text`); if there are errors, they are written to the sink
instead. -/
def assembleText {m : Type → Type} [Monad m] (sink : String → m Unit) (source : String)
    (maxErrors : Nat) : m (Option String) :=
  match assemble source maxErrors with
  | .ok executable => return some executable.toText
  | .error diagnostics => do
    sink diagnostics.render
    return none

/-! ## Events -/

/-- The warning about an instruction, if there is one. -/
def SourceInstr.warning? (s : Symbols) : SourceInstr → Option Event
  | .jumpIf cond a target =>
    match s.resolve target with
    | .ok address =>
      if address.aligned = address then none
      else some (.unalignedTarget cond a target address)
    | .error _ => none
  | _ => none

/-- The warnings about a statement. -/
def Statement.warnings (s : Symbols) (statement : Statement) : List Event :=
  match statement.body with
  | .instr i => (i.warning? s).toList
  | _ => []

/-- The events of laying a program out and making its image. -/
def buildEvents (statements : List Statement) : List Event :=
  let (symbols, _) := symbolsOf statements
  [.layingOut, .laidOut symbols.instrCount symbols.labels.size symbols.imageSize, .emitting] ++
    statements.flatMap (·.warnings symbols) ++
    [.emitted (imageOf symbols statements).length (operandErrors symbols statements).length]

/-- The events of assembling a source. -/
def assembleEvents (source : String) (maxErrors : Nat) : List Event :=
  let parsed := parse source
  [.parsing, .parsed parsed.statements.length parsed.errors.length] ++
    (if parsed.errors.isEmpty then buildEvents parsed.statements else []) ++
    match assemble source maxErrors with
    | .ok _ => []
    | .error diagnostics => [.failed diagnostics.errors.length]

end Nic
