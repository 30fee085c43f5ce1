import StackVM.Assembly.Lexeme
import StackVM.Token

/-!
# Statements

A line of assembly text holds one instruction or none. `lineLexemes` takes the comment off and reads
every word; `statement` reads the instruction from the lexemes; `lineProgram` is the two together.
The whole line is read as lexemes first, so a malformed number is found wherever on the line it
stands.
-/

set_option autoImplicit false

namespace StackVM.Assembly

inductive LineFault where
  | unknownOpcode (name : String)
  | missingArgument (opcode : Opcode) (expected : Nat)
  | invalidNumber (word : String)
  | unexpectedToken (word : String)
  deriving DecidableEq, Repr

def LineFault.message : LineFault → String
  | unknownOpcode name => s!"unknown opcode '{name}'"
  | missingArgument opcode expected => s!"{opcode.mnemonic} expects {expected} argument(s)"
  | invalidNumber word => s!"invalid number '{word}'"
  | unexpectedToken word => s!"unexpected token '{word}'"

/-- A line up to its first semicolon. -/
def dropComment (line : List Char) : List Char := line.takeWhile (· != ';')

def lexeme (word : List Char) : Except LineFault Lexeme :=
  match Lexeme.ofWord? word with
  | some lexeme => .ok lexeme
  | none => .error (.invalidNumber (String.ofList word))

def lineLexemes (line : List Char) : Except LineFault (List Lexeme) :=
  (Text.words (dropComment line)).mapM lexeme

/-- The word that a lexeme denotes as the argument of `PUSH`: a decimal number is a signed value, a
hexadecimal number a bit pattern. -/
def argument? : Lexeme → Option Word
  | .name _ => none
  | .decimal value =>
    if -0x80000000 ≤ value ∧ value < 0x80000000 then some (.ofInt value) else none
  | .hex value => if value < 0x100000000 then some (.ofPattern value) else none

/-- Completes an instruction, after which nothing may be left. -/
def complete (instruction : Program) : List Lexeme → Except LineFault Program
  | [] => .ok instruction
  | extra :: _ => .error (.unexpectedToken extra.text)

/-- The instruction that the lexemes of a line denote: none for an empty line. -/
def statement : List Lexeme → Except LineFault Program
  | [] => .ok []
  | .name name :: arguments =>
    match Opcode.ofMnemonic? name with
    | none => .error (.unknownOpcode name)
    | some .push =>
      match arguments with
      | [] => .error (.missingArgument .push 1)
      | number :: extra =>
        match argument? number with
        | none => .error (.invalidNumber number.text)
        | some value => complete (Token.push value) extra
    | some opcode => complete [.op opcode] arguments
  | number :: _ => .error (.unexpectedToken number.text)

def lineProgram (line : List Char) : Except LineFault Program := do
  statement (← lineLexemes line)

end StackVM.Assembly
