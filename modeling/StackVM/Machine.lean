import StackVM.Cursor
import StackVM.Event
import StackVM.Memory

/-!
# The machine

`Machine.step` is one turn of the dispatch loop: it looks at the token under the cursor, charges one
step, reports the dispatch and lets the instruction act on the stack. `Machine.run` turns until the
cursor is at the end or something fails; it ends because each turn shortens what is ahead of the
cursor (`Machine.ahead_lt_of_step`), and `Machine.run_of_next`, `Machine.run_of_halt` and
`Machine.run_of_fail` unfold it by one turn. `Program.run` starts a machine on a program, and
`Program.execute` on a byte stream.

Memory and call descriptor belong to the caller. No instruction uses them so far: the machine hands
the memory back, and both show in the events only.
-/

set_option autoImplicit false

namespace StackVM

/-- The external call on whose behalf a program runs. -/
structure Call where
  function : List UInt8 := []
  arguments : List UInt8 := []
  deriving DecidableEq, Repr

/-- A run in progress, with the events so far, the last one first. -/
structure Machine where
  cursor : Cursor
  stack : Stack
  memory : Memory
  steps : Nat
  log : List Event

/-- What one turn of the dispatch loop comes to. There is nothing to do if no token is left. -/
inductive Turn where
  | next (m : Machine)
  | halt
  | fail (error : RuntimeError) (m : Machine)

namespace Machine

def start (p : Program) (stack : Stack) (memory : Memory) : Machine :=
  ⟨.start p, stack, memory, 0, []⟩

def report (m : Machine) (e : Event) : Machine := { m with log := e :: m.log }

/-- Counts the instruction `o` under the cursor and reports it. -/
def charge (m : Machine) (o : Opcode) : Machine :=
  { m with steps := m.steps + 1 }.report (.dispatched m.cursor.position o m.stack.size)

/-- The cursor after the instruction `o` under it: `PUSH` takes its literal along. -/
def skip (c : Cursor) : Opcode → Cursor
  | .push => c.advance.advance
  | _ => c.advance

/-- Runs the instruction `o` under the cursor, which has been charged. -/
def perform (m : Machine) (o : Opcode) : Turn :=
  match (o.effect m.cursor.advance.current?).run m.stack with
  | .ok _ stack => .next { m with stack, cursor := skip m.cursor o }
  | .error .reserved stack =>
    .fail (.ofTrap m.cursor.position o .reserved)
      ({ m with stack }.report (.reserved o m.memory.size))
  | .error trap stack => .fail (.ofTrap m.cursor.position o trap) { m with stack }

/-- One turn of the dispatch loop, under a limit on the number of steps. -/
def step (m : Machine) (limit : Option Nat) : Turn :=
  match m.cursor.current? with
  | none => .halt
  | some (.data _) => .fail (.invalidOpcode m.cursor.position) m
  | some (.op o) =>
    match limit.filter (· ≤ m.steps) with
    | some bound => .fail (.stepLimitExceeded bound) m
    | none => (m.charge o).perform o

/-! ## The loop ends -/

theorem length_ahead_skip {c : Cursor} (o : Opcode) (h : c.ahead ≠ []) :
    (skip c o).ahead.length < c.ahead.length := by
  have := List.length_pos_iff.2 h
  cases o <;> simp [skip] <;> omega

theorem cursor_of_perform {m m' : Machine} {o : Opcode} (h : m.perform o = .next m') :
    m'.cursor = skip m.cursor o := by
  unfold perform at h
  split at h <;> simp_all
  rw [← h]

/-- A turn that completes leaves fewer tokens ahead. -/
theorem ahead_lt_of_step {limit : Option Nat} {m m' : Machine} (h : m.step limit = .next m') :
    m'.cursor.ahead.length < m.cursor.ahead.length := by
  unfold step at h
  split at h
  · simp at h
  · simp at h
  · next o ho =>
    split at h
    · simp at h
    · have hne : m.cursor.ahead ≠ [] := fun hnil => by simp [Cursor.current?, hnil] at ho
      rw [cursor_of_perform h]
      exact length_ahead_skip o hne

/--
Turns the dispatch loop to its end. The result is the machine as it is left, with the error if
there is one.
-/
def run (m : Machine) (limit : Option Nat) : Machine × Option RuntimeError :=
  match h : m.step limit with
  | .next m' =>
    have := ahead_lt_of_step h
    m'.run limit
  | .halt => (m, none)
  | .fail error m' => (m', some error)
termination_by m.cursor.ahead.length

theorem run_of_next {m m' : Machine} {limit : Option Nat} (h : m.step limit = .next m') :
    m.run limit = m'.run limit := by
  rw [run]; split <;> simp_all

theorem run_of_halt {m : Machine} {limit : Option Nat} (h : m.step limit = .halt) :
    m.run limit = (m, none) := by
  rw [run]; split <;> simp_all

theorem run_of_fail {m m' : Machine} {limit : Option Nat} {error : RuntimeError}
    (h : m.step limit = .fail error m') : m.run limit = (m', some error) := by
  rw [run]; split <;> simp_all

end Machine

/-- What a run leaves: the final stack or the failure, and what was reported, in order. -/
structure Outcome where
  result : Except Failure Stack
  memory : Memory
  events : List Event

namespace Program

def runOn (p : Program) (stack : Stack) (memory : Memory) (call : Call) (limit : Option Nat) :
    Outcome :=
  let started := Event.started call.function.length call.arguments.length limit
  let (m, error?) := (Machine.start p stack memory).run limit
  match error? with
  | none =>
    let finished := Event.finished m.steps m.stack.size
    ⟨.ok m.stack, m.memory, started :: (m.report finished).log.reverse⟩
  | some error =>
    let failed := Event.failed error m.steps m.stack.size
    ⟨.error ⟨error, m.stack⟩, m.memory, started :: (m.report failed).log.reverse⟩

def run (p : Program) (memory : Memory) (call : Call) (limit : Option Nat) : Outcome :=
  p.runOn .empty memory call limit

/-- Decodes a byte stream and runs it without a limit. A stream that is no program leaves an empty
stack and reports nothing. -/
def execute (bytes : List UInt8) (memory : Memory) (call : Call) : Outcome :=
  match decode bytes with
  | .ok p => p.run memory call none
  | .error error => ⟨.error ⟨.decode error, .empty⟩, memory, []⟩

end Program

end StackVM
