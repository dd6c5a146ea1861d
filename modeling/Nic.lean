import Nic.Assembly
import Nic.Computer
import Nic.Executable.Binary
import Nic.Machine.Trace
import Nic.Proofs.Assembly.CaseInsensitive
import Nic.Proofs.Assembly.DefinitionOrder
import Nic.Proofs.Assembly.Disassembly
import Nic.Proofs.Assembly.ErrorLines
import Nic.Proofs.Assembly.Faults
import Nic.Proofs.Assembly.Image
import Nic.Proofs.Assembly.Insertion
import Nic.Proofs.Assembly.LabelSpans
import Nic.Proofs.Assembly.Layout
import Nic.Proofs.Assembly.NumericOperands
import Nic.Proofs.Assembly.Places
import Nic.Proofs.Assembly.Printed
import Nic.Proofs.Assembly.Relocation
import Nic.Proofs.Assembly.ReportedSize
import Nic.Proofs.Assembly.Stages
import Nic.Proofs.Assembly.SymbolTable
import Nic.Proofs.Computer.Events
import Nic.Proofs.Computer.Lifecycle
import Nic.Proofs.Computer.MidInstruction
import Nic.Proofs.Computer.Polling
import Nic.Proofs.Computer.Threads
import Nic.Proofs.Executable.Binary
import Nic.Proofs.Executable.Format
import Nic.Proofs.Executable.Obtainable
import Nic.Proofs.Executable.Text
import Nic.Proofs.Executable.Truncated
import Nic.Proofs.Instruction
import Nic.Proofs.Machine.Alignment
import Nic.Proofs.Machine.BoundedRuns
import Nic.Proofs.Machine.Delivery
import Nic.Proofs.Machine.ExecuteIo
import Nic.Proofs.Machine.Loading
import Nic.Proofs.Machine.Meaning
import Nic.Proofs.Machine.Noticed
import Nic.Proofs.Machine.Notifications
import Nic.Proofs.Machine.Phases
import Nic.Proofs.Machine.Requests
import Nic.Proofs.Machine.Snapshot
import Nic.Proofs.Machine.Step
import Nic.Proofs.Machine.StraightLine
import Nic.Proofs.Machine.Told
import Nic.Proofs.Machine.Tripwire
import Nic.Proofs.Memory
import Nic.Proofs.Statement.ErrorPlaces
import Nic.Proofs.Statement.FaultyLines
import Nic.Proofs.Statement.Grammar
import Nic.Proofs.Statement.LabelTexts
import Nic.Proofs.Statement.LineGrammar
import Nic.Proofs.Statement.Lines
import Nic.Proofs.Statement.Places
import Nic.Proofs.Statement.Slot
import Nic.Proofs.Text.Blank
import Nic.Proofs.Text.Hex
import Nic.Proofs.Text.Lines
import Nic.Proofs.Text.NewlineBytes
import Nic.Proofs.Text.Uppercase
import Nic.Proofs.Token.Coverage
import Nic.Proofs.Token.Cut
import Nic.Proofs.Token.Kinds
import Nic.Proofs.Token.Lowercase
import Nic.Proofs.Token.Numbers
import Nic.Proofs.Token.Replace
import Nic.Proofs.Token.Scan
import Nic.Proofs.Token.Spelling
import Nic.Proofs.Token.Tiling
