import StackVM.CommandLine.Refusal
import StackVM.Text.Numeral

/-!
# Arguments

The arguments of each command, read before anything is done: `AssembleRequest.parse` for `assemble`
and `RunOptions.parse` for what follows the input of `run`. The options of `run` are pairs of a name
and a count, read from the left up to the first fault; the last pair of a name counts.
-/

set_option autoImplicit false

namespace StackVM.CommandLine

structure AssembleRequest where
  input : String
  output : String
  deriving DecidableEq, Repr

namespace AssembleRequest

/-- The output path if none is given: the input path with `b` added to its extension, or with the
whole extension if it has another one. -/
def defaultOutput (input : String) : String :=
  if ".koa".toList.isSuffixOf input.toList then input ++ "b" else input ++ ".koab"

def parse : List String → Except Refusal AssembleRequest
  | [] => .error (.noInput .assemble)
  | [input] => .ok ⟨input, defaultOutput input⟩
  | [_, "-o"] => .error (.missingValue "-o")
  | [input, "-o", output] => .ok ⟨input, output⟩
  | _ :: argument :: _ => .error (.unexpectedArgument argument)

end AssembleRequest

inductive RunOption where
  | maxSteps
  | memory
  deriving DecidableEq, Repr

def RunOption.name : RunOption → String
  | maxSteps => "--max-steps"
  | memory => "--memory"

def RunOption.ofName? (name : String) : Option RunOption :=
  [maxSteps, memory].find? (·.name == name)

/-- The count that the value of an option denotes: digits with or without a plus sign, of at most
64 bits. -/
def count? (value : String) : Option Nat :=
  (Numeral.unsigned? 10 value.toList).filter (· < 0x10000000000000000)

structure RunOptions where
  maxSteps : Option Nat := none
  memory : Option Nat := none
  deriving DecidableEq, Repr

namespace RunOptions

def set (options : RunOptions) (option : RunOption) (count : Nat) : RunOptions :=
  match option with
  | .maxSteps => { options with maxSteps := some count }
  | .memory => { options with memory := some count }

/-- Reads the options that follow `options`. -/
def parseAfter (options : RunOptions) : List String → Except Refusal RunOptions
  | [] => .ok options
  | name :: rest =>
    match RunOption.ofName? name with
    | none => .error (.unknownOption name)
    | some option =>
      match rest with
      | [] => .error (.missingValue name)
      | value :: rest =>
        match count? value with
        | none => .error (.invalidValue name value)
        | some count => parseAfter (options.set option count) rest

def parse (arguments : List String) : Except Refusal RunOptions := parseAfter {} arguments

def defaultMemory : Nat := 4096

/-- The size of the memory, if it is within the limit. -/
def memorySize (options : RunOptions) : Except Refusal Nat :=
  let size := options.memory.getD defaultMemory
  if size ≤ memoryLimit then .ok size else .error (.memoryTooLarge size)

end RunOptions

end StackVM.CommandLine
