/-
Reading statements from tokens.

Each operand is exactly one token. A token that is not the operand that was asked for is taken
all the same, and the error stands at its place; if no token is left, the error stands at the end
of the last one.
-/
import Nic.Statement
import Nic.Statement.Fault

set_option autoImplicit false

namespace Nic

/-- The tokens that are left of a line, and where the line ends (`Parser`). -/
structure Cursor where
  rest : List (Located Token)
  stop : Nat

namespace Cursor

/-- The start of a line (`Parser::new`). An empty one ends at offset 0. -/
def ofTokens (tokens : List (Located Token)) : Cursor :=
  ⟨tokens, match tokens.getLast? with
    | some last => last.span.stop
    | none => 0⟩

/-- Whether every token has been taken (`Parser::is_empty`). -/
def atEnd (c : Cursor) : Bool := c.rest.isEmpty

/-- The place of the next token, or the empty place at the end of the line (`Parser::cursor`). -/
def here (c : Cursor) : Span :=
  match c.rest with
  | token :: _ => token.span
  | [] => .empty c.stop

end Cursor

/-- Takes tokens from a cursor; what an error leaves of the line can still be read. -/
abbrev Reader := EStateM SyntaxError Cursor

namespace Reader

/-- Takes one token, which must be acceptable (`Parser::advance`). -/
def take {α : Type} (missing : SyntaxFault) (accept : Located Token → Except SyntaxFault α) :
    Reader α := fun c =>
  match c.rest with
  | [] => .error ⟨missing, c.here⟩ c
  | token :: rest =>
    match accept token with
    | .ok a => .ok a { c with rest }
    | .error fault => .error ⟨fault, token.span⟩ { c with rest }

/-- Takes every token of a line that ends at `stop`, up to the first that is not acceptable, and
adds what it finds to what was found before. -/
def takeAllInto {α : Type} (accept : Located Token → Except SyntaxFault α) (stop : Nat)
    (found : Array α) : List (Located Token) → EStateM.Result SyntaxError Cursor (List α)
  | [] => .ok found.toList ⟨[], stop⟩
  | token :: rest =>
    match accept token with
    | .ok a => takeAllInto accept stop (found.push a) rest
    | .error fault => .error ⟨fault, token.span⟩ ⟨rest, stop⟩

/-- Takes every token that is left, up to the first that is not acceptable. -/
def takeAll {α : Type} (accept : Located Token → Except SyntaxFault α) : Reader (List α) :=
  fun c => takeAllInto accept c.stop #[] c.rest

/-! ## Operands -/

/-- The register that a token is (`Reg::parse`). -/
def registerOf (token : Located Token) : Except SyntaxFault Reg :=
  match token.value with
  | .register r => .ok r
  | _ => .error (.expected .register)

/-- The byte operand of a number. -/
def literalOf (value : Int) : Except SyntaxFault Operand :=
  match Byte.fit? value with
  | some b => .ok (.literal b)
  | none => .error (.exceedsByte value)

/-- The byte operand that a token is (`ByteOperand::parse`). A displaced name is a label at the
start of its token. -/
def operandOf (token : Located Token) : Except SyntaxFault Operand :=
  match token.value with
  | .unsigned value => literalOf value
  | .signed value => literalOf value
  | .name name => .ok (.address ⟨name, token.span.start⟩ 0)
  | .displaced name offset => .ok (.address ⟨name, token.span.start⟩ offset)
  | _ => .error (.expected .byte)

/-- The name that a token is (`Label::parse`). -/
def nameOf (token : Located Token) : Except SyntaxFault Label :=
  match token.value with
  | .name name => .ok ⟨name, token.span.start⟩
  | _ => .error (.expected .name)

/-- The mnemonic that a token is. -/
def mnemonicOf (token : Located Token) : Except SyntaxFault Mnemonic :=
  match token.value with
  | .mnemonic m => .ok m
  | _ => .error .unknownMnemonic

/-- Reads a register. -/
def register : Reader Reg := take (.expected .register) registerOf

/-- Reads a byte operand. -/
def operand : Reader Operand := take (.expected .byte) operandOf

/-- Reads a name. -/
def name : Reader Label := take (.expected .name) nameOf

/-! ## Statements -/

/-- Reads an instruction or a `word` (`StmtKind::parse`): a mnemonic and its operands. -/
def body : Reader Statement.Body := do
  match ← take .unknownMnemonic mnemonicOf with
  | .halt => return .instr .halt
  | .noop => return .instr .noop
  | .imm op => return .instr (.imm op (← register) (← operand))
  | .pair op => return .instr (.pair op (← register) (← register))
  | .alu op => return .instr (.alu op (← register) (← register) (← register))
  | .jump => return .instr (.jump (← operand))
  | .jumpIf cond => return .instr (.jumpIf cond (← register) (← operand))
  | .word => return .word (← name) (← takeAll operandOf)

end Reader

end Nic
