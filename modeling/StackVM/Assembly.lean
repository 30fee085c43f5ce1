import StackVM.Assembly.Statement

/-!
# Assembly text

`assemble` reads a program from text, one instruction a line, and stops at the first line that is
wrong. Lines count from one. Each line is read by itself, so that what it denotes depends on nothing
around it.
-/

set_option autoImplicit false

namespace StackVM

/-- The first line that is wrong, counted from one, and how. -/
structure AssemblyError where
  line : Nat
  fault : Assembly.LineFault
  deriving DecidableEq, Repr

def AssemblyError.message (e : AssemblyError) : String := s!"line {e.line}: {e.fault.message}"

namespace Assembly

/-- The instruction on a line with a number. -/
def numberedLine (line : List Char) (number : Nat) : Except AssemblyError Program :=
  (lineProgram line).mapError (⟨number, ·⟩)

def assemble (text : String) : Except AssemblyError Program := do
  let instructions ← ((Text.lines text.toList).zipIdx 1).mapM fun (line, number) =>
    numberedLine line number
  return instructions.flatten

end Assembly

end StackVM
