import StackVM.Machine

/-!
# Trails

The trail of a program shows the stack after each instruction, by runs under the limits 0, 1, 2 and
so on. A run that the limit does not stop is the end of the trail; a program never dispatches more
instructions than it has tokens, so its length is a limit that stops no run.
-/

set_option autoImplicit false

namespace StackVM

/-- The stack at which the step limit stopped a run, if it did. -/
def Outcome.stopped? (o : Outcome) : Option Stack :=
  match o.result with
  | .error ⟨.stepLimitExceeded _, stack⟩ => some stack
  | _ => none

/-- The stacks at which the limits 0, 1, 2, … stop a run, and the outcome under the first limit that
does not. -/
def Program.trail (p : Program) (memory : Memory) (call : Call) : List Stack × Outcome :=
  let stops := (List.range p.length).filterMap fun k => (p.run memory call (some k)).stopped?
  (stops, p.run memory call (some stops.length))

end StackVM
