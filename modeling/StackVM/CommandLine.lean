import StackVM.CommandLine.Options
import StackVM.Listing
import StackVM.Machine

/-!
# The command line

`invoke` is the program as a function of its arguments, in any monad with files. Each command reads
its arguments, then its input, and only then writes; the first fault on the way ends it. The answer
is a `Report`: exit code 0 for success, 1 for a refusal, 3 for a program that fails when it is run.

The events of a run (`Outcome.events`) can be logged to the standard error too, if the environment
asks for it by `RUST_LOG`. Here it is taken to be unset. Then only warnings and errors are logged,
and no event is one, so that a `Report` holds all that is printed.
-/

set_option autoImplicit false

namespace StackVM.CommandLine

/-- What the program prints and the code that it exits with. -/
structure Report where
  code : UInt8
  stdout : String := ""
  stderr : String := ""
  deriving DecidableEq, Repr

def Report.ofRefusal (r : Refusal) : Report := { code := 1, stderr := r.text }

/-- The report of a run: the final stack, or the error and the stack that was left. -/
def Report.ofRun : Except Failure Stack → Report
  | .ok stack => { code := 0, stdout := stack.text ++ "\n" }
  | .error failure =>
    { code := 3
      stderr := s!"runtime error: {failure.error.message}\nstack: {failure.stack.text}\n" }

/-- The text that bytes spell in UTF-8. -/
def decodeText (bytes : List UInt8) : Except FileError String :=
  match String.fromUTF8? ⟨bytes.toArray⟩ with
  | some text => .ok text
  | none => .error .notText

section Commands

variable {m : Type → Type} [Monad m] [MonadFiles m]

def readInput (path : String) : ExceptT Refusal m (List UInt8) := do
  match ← MonadFiles.readFile (m := m) path with
  | .ok bytes => return bytes
  | .error e => throw (.unreadable path e)

def readProgram (path : String) : ExceptT Refusal m Program := do
  MonadExcept.ofExcept ((Program.decode (← readInput path)).mapError .bytecode)

def assemble (arguments : List String) : ExceptT Refusal m Report := do
  let request ← MonadExcept.ofExcept (AssembleRequest.parse arguments)
  let bytes ← readInput request.input
  let text ← MonadExcept.ofExcept ((decodeText bytes).mapError (.unreadable request.input))
  let program ← MonadExcept.ofExcept ((Assembly.assemble text).mapError .assembly)
  let stream := program.encode
  match ← MonadFiles.writeFile (m := m) request.output stream with
  | .ok () => pure ()
  | .error e => throw (.unwritable request.output e)
  return {
    code := 0
    stderr :=
      s!"assembled {program.length} tokens ({stream.length} bytes) -> {request.output}\n" }

/-- Prints the listing of the byte stream in a file. Further arguments have no meaning. -/
def disassemble : List String → ExceptT Refusal m Report
  | [] => throw (.noInput .disassemble)
  | input :: _ => do
    return { code := 0, stdout := Listing.disassemble (← readProgram input) }

def run : List String → ExceptT Refusal m Report
  | [] => throw (.noInput .run)
  | input :: arguments => do
    let options ← MonadExcept.ofExcept (RunOptions.parse arguments)
    let memory ← MonadExcept.ofExcept options.memorySize
    let program ← readProgram input
    return .ofRun (program.run (.zeroed memory) {} options.maxSteps).result

/-- The report of a command that may be refused. -/
def settle (command : ExceptT Refusal m Report) : m Report := do
  match ← command.run with
  | .ok report => return report
  | .error refusal => return .ofRefusal refusal

def invoke : List String → m Report
  | [] => return { code := 1, stderr := usage }
  | "assemble" :: arguments => settle (assemble arguments)
  | "disassemble" :: arguments => settle (disassemble arguments)
  | "run" :: arguments => settle (run arguments)
  | "help" :: _ | "--help" :: _ | "-h" :: _ => return { code := 0, stderr := usage }
  | command :: _ =>
    return { code := 1, stderr := s!"error: unknown command '{command}'\n\n{usage}" }

end Commands

end StackVM.CommandLine
