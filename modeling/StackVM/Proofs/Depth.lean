import Mathlib.Algebra.BigOperators.Group.List.Basic
import Mathlib.Algebra.Ring.Int.Defs
import StackVM.Proofs.Action

/-!
# The depth of the stack

How many words an instruction leaves depends on its opcode and on how many words it finds, and not
on the words: `Opcode.gain` is the difference. An action that makes the same difference on every
stack on which it completes (`Effect.Gains`) keeps doing so in front of another one, and the
differences add up. So it is for single opcodes (`Opcode.gains_effect`) and for instructions in a
row (`gains_actAll`).
-/

set_option autoImplicit false

namespace StackVM

namespace Opcode

/-- The operators that put one word in the place of two. -/
def isBinary : Opcode → Bool
  | add | mul | sub | div | mod | lt | gt | eq => true
  | _ => false

/-- Whether an opcode leaves one word less. -/
def lowers (o : Opcode) : Bool := o == .pop || o.isBinary

/-- How many words more an opcode leaves than it finds, where it completes. -/
def gain (o : Opcode) : Int := if o = .push then 1 else if o.lowers then -1 else 0

/-- **The gains of several opcodes** are those that push less those that lower the stack. -/
theorem sum_gain (os : List Opcode) :
    (os.map gain).sum = os.countP (· == .push) - os.countP lowers := by
  induction os with
  | nil => rfl
  | cons o os ih =>
    rw [List.map_cons, List.sum_cons, ih, List.countP_cons, List.countP_cons]
    cases o <;> simp [gain, lowers, isBinary] <;> omega

end Opcode

/-- Where the action completes, it leaves `k` words more than it finds. -/
def Effect.Gains {α : Type} (e : Effect α) (k : Int) : Prop :=
  ∀ ⦃s t : Stack⦄ ⦃a : α⦄, e.run s = .ok a t → (t.size : Int) = s.size + k

namespace Effect

variable {α β : Type} {k l : Int}

theorem gains_pure (a : α) : Gains (pure a : Effect α) 0 := by
  intro s t b h
  cases h
  exact (Int.add_zero _).symm

theorem gains_throw (trap : Trap) (k : Int) : Gains (throw trap : Effect α) k := by
  intro s t a h
  cases h

theorem gains_push (w : Word) : Gains (push w) 1 := by
  intro s t a h
  cases h
  rw [Stack.size_push, Int.natCast_succ]

theorem gains_pop : Gains pop (-1) := by
  intro s t w h
  obtain rfl | ⟨r, x, rfl⟩ := s.eq_empty_or_push
  · cases h
  · rw [run_pop_push] at h
    cases h
    rw [Stack.size_push]
    omega

/-- **One after the other**, actions gain the sum. -/
theorem Gains.bind {e : Effect α} {g : α → Effect β} (he : e.Gains k) (hg : ∀ a, (g a).Gains l) :
    (e >>= g).Gains (k + l) := by
  intro s t b h
  rw [EStateM.run_bind] at h
  rcases hs : e.run s with ⟨a, u⟩ | ⟨trap, u⟩
  · rw [hs] at h
    rw [hg a h, he hs, Int.add_assoc]
  · rw [hs] at h
    cases h

theorem gains_unary (f : Word → Word) : (unary f).Gains 0 := gains_pop.bind fun _ => gains_push _

theorem gains_binary (f : Word → Word → Word) : (binary f).Gains (-1) :=
  gains_pop.bind fun _ => gains_pop.bind fun _ => gains_push _

theorem gains_division (part : Word × Word → Word) : (division part).Gains (-1) := by
  refine gains_pop.bind fun y => gains_pop.bind (l := 1) fun x => ?_
  rcases Word.divMod? x y with _ | parts
  · exact gains_throw _ _
  · exact gains_push _

theorem gains_literal (next? : Option Token) : (literal next?).Gains 1 := by
  rcases next? with _ | ⟨o | v⟩
  · exact gains_throw _ _
  · exact gains_throw _ _
  · exact gains_push v

end Effect

open Effect

/-- **An opcode that completes** changes the depth by its gain. -/
theorem Opcode.gains_effect (o : Opcode) (next? : Option Token) :
    (o.effect next?).Gains o.gain := by
  cases o with
  | add | mul | sub | lt | gt | eq => exact gains_binary _
  | div | mod => exact gains_division _
  | not => exact gains_unary _
  | pop => exact gains_pop.bind fun _ => gains_pure ()
  | push => exact gains_literal next?
  | mload | mstore => exact gains_throw _ _

theorem Instruction.gains_act (i : Instruction) : i.act.Gains i.opcode.gain := by
  cases i with
  | plain o _ => exact o.gains_effect none
  | push v => exact gains_push v

/-- **Instructions in a row** change the depth by the sum of their gains. -/
theorem gains_actAll (is : List Instruction) :
    (actAll is).Gains ((is.map Instruction.opcode).map Opcode.gain).sum := by
  induction is with
  | nil => exact gains_pure ()
  | cons i is ih => exact i.gains_act.bind fun _ => ih

end StackVM
