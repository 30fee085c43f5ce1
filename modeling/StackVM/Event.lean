import StackVM.Failure

/-!
# Events of a run

A run reports its start, each instruction that it dispatches, the reserved opcodes that it meets,
and its end. An event is written as a level, a message and named fields.
-/

set_option autoImplicit false

namespace StackVM

inductive Event where
  | started (functionLength argumentsLength : Nat) (limit : Option Nat)
  | dispatched (position : Nat) (opcode : Opcode) (depth : Nat)
  | reserved (opcode : Opcode) (memorySize : Nat)
  | finished (steps depth : Nat)
  | failed (error : RuntimeError) (steps depth : Nat)
  deriving DecidableEq, Repr

inductive Level where
  | debug
  | trace
  deriving DecidableEq, Repr

def Level.name : Level → String
  | debug => "DEBUG"
  | trace => "TRACE"

def limitText : Option Nat → String
  | none => "None"
  | some limit => s!"Some({limit})"

namespace Event

def level : Event → Level
  | dispatched .. => .trace
  | _ => .debug

def message : Event → String
  | started .. => "execution started"
  | dispatched .. => "dispatch"
  | reserved .. => "reserved opcode"
  | finished .. => "execution finished"
  | failed .. => "execution failed"

def fields : Event → List (String × String)
  | started functionLength argumentsLength limit =>
    [("function_len", toString functionLength), ("args_len", toString argumentsLength),
      ("max_steps", limitText limit)]
  | dispatched position opcode depth =>
    [("at", toString position), ("opcode", opcode.mnemonic), ("depth", toString depth)]
  | reserved opcode memorySize =>
    [("opcode", opcode.mnemonic), ("memory_size", toString memorySize)]
  | finished steps depth => [("steps", toString steps), ("depth", toString depth)]
  | failed error steps depth =>
    [("error", error.message), ("steps", toString steps), ("depth", toString depth)]

end Event

end StackVM
