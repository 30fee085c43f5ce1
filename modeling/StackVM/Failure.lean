import StackVM.Bytecode
import StackVM.Effect

/-!
# Failures of a run

A run that fails reports one `RuntimeError` and the stack as it stood then. Errors of an instruction
carry its position, the index of its token. `RuntimeError.message` and `Failure.text` are the two
printed forms.
-/

set_option autoImplicit false

namespace StackVM

inductive RuntimeError where
  | decode (error : DecodeError)
  | invalidOpcode (position : Nat)
  | invalidData (position : Nat)
  | stackUnderflow (position : Nat)
  | divisionByZero (position : Nat)
  | notImplemented (position : Nat) (opcode : Opcode)
  | stepLimitExceeded (limit : Nat)
  deriving DecidableEq, Repr

/-- The error of the instruction `o` at `position` that ends in a trap. -/
def RuntimeError.ofTrap (position : Nat) (o : Opcode) : Trap → RuntimeError
  | .stackUnderflow => stackUnderflow position
  | .divisionByZero => divisionByZero position
  | .missingLiteral => invalidData position
  | .reserved => notImplemented position o

def RuntimeError.message : RuntimeError → String
  | decode error => s!"decode error: {error.message}"
  | invalidOpcode position => s!"expected opcode, found data literal at instruction {position}"
  | invalidData position => s!"PUSH without data literal at instruction {position}"
  | stackUnderflow position => s!"stack underflow at instruction {position}"
  | divisionByZero position => s!"division by zero at instruction {position}"
  | notImplemented position opcode =>
    s!"{opcode.mnemonic} is not implemented (instruction {position})"
  | stepLimitExceeded limit => s!"step limit of {limit} instructions exceeded"

/-- A failed run: the error and the stack as it stood when it arose. -/
structure Failure where
  error : RuntimeError
  stack : Stack
  deriving DecidableEq, Repr

def Failure.text (f : Failure) : String := s!"{f.error.message} (stack: {f.stack.text})"

end StackVM
