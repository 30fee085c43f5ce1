import StackVM.Stack
import StackVM.Token
import StackVM.Word.Division

/-!
# What an instruction does to the stack

`Opcode.effect` is the action of one instruction on the operand stack alone: where in the program it
stands and what the caller owns play no part. An instruction that cannot complete ends in a `Trap`
and leaves the stack as it was at that moment, so operands that it had popped by then are gone.
-/

set_option autoImplicit false

namespace StackVM

inductive Trap where
  | stackUnderflow
  | divisionByZero
  | missingLiteral
  | reserved
  deriving DecidableEq, Repr

/-- An action on the stack, which a trap leaves as it stands. -/
abbrev Effect (α : Type) := EStateM Trap Stack α

namespace Effect

def pop : Effect Word := do
  match (← get).pop? with
  | some (w, rest) => set rest; return w
  | none => throw .stackUnderflow

def push (w : Word) : Effect Unit := modify (·.push w)

def unary (f : Word → Word) : Effect Unit := do
  push (f (← pop))

/-- Replaces the two top words `x`, `y`, of which `y` is the upper one. -/
def binary (f : Word → Word → Word) : Effect Unit := do
  let y ← pop
  let x ← pop
  push (f x y)

/-- Replaces the two top words by a part of their division. -/
def division (part : Word × Word → Word) : Effect Unit := do
  let y ← pop
  let x ← pop
  match Word.divMod? x y with
  | some parts => push (part parts)
  | none => throw .divisionByZero

def literal (next? : Option Token) : Effect Unit :=
  match next? with
  | some (.data v) => push v
  | _ => throw .missingLiteral

/-! ## Actions on stacks of a known shape -/

@[simp] theorem run_pop_empty : pop.run .empty = .error .stackUnderflow .empty := rfl

@[simp] theorem run_pop_push (s : Stack) (w : Word) : pop.run (s.push w) = .ok w s := rfl

@[simp] theorem run_discard_pop_empty :
    (discard pop).run .empty = .error .stackUnderflow .empty := rfl

@[simp] theorem run_discard_pop_push (s : Stack) (w : Word) :
    (discard pop).run (s.push w) = .ok () s := rfl

@[simp] theorem run_unary_empty (f : Word → Word) :
    (unary f).run .empty = .error .stackUnderflow .empty := rfl

@[simp] theorem run_unary_push (f : Word → Word) (s : Stack) (x : Word) :
    (unary f).run (s.push x) = .ok () (s.push (f x)) := rfl

@[simp] theorem run_binary_empty (f : Word → Word → Word) :
    (binary f).run .empty = .error .stackUnderflow .empty := rfl

/-- The upper operand is gone when the lower one is missing. -/
@[simp] theorem run_binary_push_empty (f : Word → Word → Word) (y : Word) :
    (binary f).run (Stack.empty.push y) = .error .stackUnderflow .empty := rfl

@[simp] theorem run_binary_push_push (f : Word → Word → Word) (s : Stack) (x y : Word) :
    (binary f).run ((s.push x).push y) = .ok () (s.push (f x y)) := rfl

@[simp] theorem run_division_empty (part : Word × Word → Word) :
    (division part).run .empty = .error .stackUnderflow .empty := rfl

@[simp] theorem run_division_push_empty (part : Word × Word → Word) (y : Word) :
    (division part).run (Stack.empty.push y) = .error .stackUnderflow .empty := rfl

/-- Both operands are gone when the divisor is zero. -/
theorem run_division_push_push (part : Word × Word → Word) (s : Stack) (x y : Word) :
    (division part).run ((s.push x).push y) =
      match Word.divMod? x y with
      | some parts => .ok () (s.push (part parts))
      | none => .error .divisionByZero s := by
  simp only [division, EStateM.run_bind, run_pop_push]
  cases Word.divMod? x y <;> rfl

end Effect

/-- What an opcode does to the stack, where `next?` is the token after it. -/
def Opcode.effect (next? : Option Token) : Opcode → Effect Unit
  | .add => Effect.binary (· + ·)
  | .mul => Effect.binary (· * ·)
  | .sub => Effect.binary (· - ·)
  | .div => Effect.division Prod.fst
  | .mod => Effect.division Prod.snd
  | .lt => Effect.binary fun x y => .ofBool (x < y)
  | .gt => Effect.binary fun x y => .ofBool (y < x)
  | .eq => Effect.binary fun x y => .ofBool (x == y)
  | .not => Effect.unary (~~~ ·)
  | .pop => discard Effect.pop
  | .push => Effect.literal next?
  | .mload | .mstore => throw .reserved

end StackVM
