import StackVM.Assembly
import StackVM.Bytecode
import StackVM.CommandLine.Files

/-!
# Refusals

A command that does not do its job, for a fault in the arguments or in a file, ends in a `Refusal`.
`Refusal.text` is what it prints: the error, and for a wrong use of the command also how it is used.
-/

set_option autoImplicit false

namespace StackVM.CommandLine

inductive Command where
  | assemble
  | disassemble
  | run
  deriving DecidableEq, Repr

def Command.name : Command → String
  | assemble => "assemble"
  | disassemble => "disassemble"
  | run => "run"

def Command.usage : Command → String
  | assemble => "Usage: koa assemble <input.koa> [-o output.koab]"
  | disassemble => "Usage: koa disassemble <input.koab>"
  | run => "Usage: koa run <input.koab> [--max-steps N] [--memory BYTES]"

def usage : String :=
  "Usage: koa <command> [args]\n\nCommands:\n" ++
    "  assemble <input.koa> [-o output.koab]          Assemble text to bytecode\n" ++
    "  disassemble <input.koab>                       Disassemble bytecode to text\n" ++
    "  run <input.koab> [--max-steps N] [--memory B]  Execute bytecode\n"

/-- The size of the largest memory that `run` makes, in bytes. -/
def memoryLimit : Nat := 0x40000000

inductive Refusal where
  | noInput (command : Command)
  | unexpectedArgument (argument : String)
  | unknownOption (name : String)
  | missingValue (name : String)
  | invalidValue (name value : String)
  | memoryTooLarge (size : Nat)
  | unreadable (path : String) (error : FileError)
  | unwritable (path : String) (error : FileError)
  | assembly (error : AssemblyError)
  | bytecode (error : DecodeError)
  deriving DecidableEq, Repr

namespace Refusal

def message : Refusal → String
  | noInput command => s!"{command.name} requires an input file"
  | unexpectedArgument argument => s!"unexpected argument '{argument}'"
  | unknownOption name => s!"unknown option '{name}'"
  | missingValue name => s!"{name} requires a value"
  | invalidValue name value => s!"invalid {name} value '{value}'"
  | memoryTooLarge size => s!"--memory value {size} exceeds the maximum of {memoryLimit} bytes"
  | unreadable path error => s!"cannot read '{path}': {error.message}"
  | unwritable path error => s!"cannot write '{path}': {error.message}"
  | assembly error => error.message
  | bytecode error => s!"invalid bytecode: {error.message}"

/-- The command whose usage the error is followed by. -/
def hint? : Refusal → Option Command
  | noInput command => some command
  | unexpectedArgument _ => some .assemble
  | unknownOption _ => some .run
  | _ => none

/-- What is printed: the error, then the usage of the command where it helps. -/
def text (r : Refusal) : String :=
  s!"error: {r.message}\n" ++
    match r.hint? with
    | none => ""
    | some command => command.usage ++ "\n"

end Refusal

end StackVM.CommandLine
