import StackVM.Opcode
import StackVM.Word

/-!
# Tokens and programs

A program is a sequence of tokens: opcodes, and literals, each in a slot of its own, so that
`PUSH 42` takes two slots. Any sequence is a program. `Program.WellFormed` marks those that cut
into complete instructions, where a literal stands exactly after each `PUSH` and nowhere else.
-/

set_option autoImplicit false

namespace StackVM

/-- One slot of a program: an opcode or a literal. -/
inductive Token where
  | op (opcode : Opcode)
  | data (value : Word)
  deriving DecidableEq, Repr

/-- A sequence of tokens, well-formed or not. -/
abbrev Program := List Token

/-- How many operand bytes follow the byte of an opcode: those of a literal after `PUSH`. -/
def Opcode.operandWidth : Opcode → Nat
  | push => Word.width
  | _ => 0

theorem Opcode.operandWidth_eq_zero_iff {o : Opcode} : o.operandWidth = 0 ↔ o ≠ push := by
  cases o <;> decide

theorem Opcode.eq_push_of_operandWidth {o : Opcode} (h : o.operandWidth ≠ 0) : o = push := by
  rw [ne_eq, operandWidth_eq_zero_iff, ne_eq, Classical.not_not] at h
  exact h

namespace Token

def opcode? : Token → Option Opcode
  | op o => some o
  | data _ => none

def literal? : Token → Option Word
  | op _ => none
  | data v => some v

def push (v : Word) : Program := [op .push, data v]

/-- The bytes of a token: one for an opcode, four for a literal. -/
def bytes : Token → List UInt8
  | op o => [o.byte]
  | data v => v.bytes

end Token

/-- A concatenation of single opcodes other than `PUSH` and of `PUSH` with its literal. -/
inductive Program.WellFormed : Program → Prop
  | nil : WellFormed []
  | op {o : Opcode} {p : Program} : o ≠ .push → WellFormed p → WellFormed (.op o :: p)
  | push {v : Word} {p : Program} : WellFormed p → WellFormed (.op .push :: .data v :: p)

end StackVM
