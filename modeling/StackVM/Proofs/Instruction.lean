import StackVM.Token

/-!
# Cutting a program into instructions

A program cuts, from the left and in one way, into complete instructions (`Program.instructions`)
and a remainder that is empty or starts with a token at which no instruction starts
(`Program.Stuck`): a literal, or a `PUSH` without one.

* `exists_eq_append_remainder`: every program is its instructions and such a remainder.
* `instructions_append_stuck`: and in no other way.
* `wellFormed_iff`: a program is well-formed exactly if it is made of instructions alone.
* `longestWellFormed_append`: what stands before a remainder is the longest well-formed prefix.
-/

set_option autoImplicit false

namespace StackVM

/-- An opcode other than `PUSH`, or a `PUSH` with its literal. -/
inductive Instruction where
  | plain (o : Opcode) (ne_push : o ≠ .push)
  | push (v : Word)
  deriving DecidableEq

namespace Instruction

def opcode : Instruction → Opcode
  | plain o _ => o
  | push _ => .push

/-- The literal that goes with the opcode. -/
def literals : Instruction → List Word
  | plain _ _ => []
  | push v => [v]

def tokens (i : Instruction) : Program := .op i.opcode :: i.literals.map .data

@[simp] theorem tokens_plain {o : Opcode} (h : o ≠ .push) : (plain o h).tokens = [.op o] := rfl

@[simp] theorem tokens_push (v : Word) : (push v).tokens = [.op .push, .data v] := rfl

end Instruction

namespace Program

def ofInstructions (is : List Instruction) : Program := is.flatMap Instruction.tokens

@[simp] theorem ofInstructions_nil : ofInstructions [] = [] := rfl

@[simp] theorem ofInstructions_cons (i : Instruction) (is : List Instruction) :
    ofInstructions (i :: is) = i.tokens ++ ofInstructions is := rfl

@[simp] theorem ofInstructions_append (is js : List Instruction) :
    ofInstructions (is ++ js) = ofInstructions is ++ ofInstructions js := by
  simp [ofInstructions]

/-- The instructions that a program starts with, as far as they go. -/
def instructions : Program → List Instruction
  | .op .push :: .data v :: p => .push v :: instructions p
  | .op o :: p => if h : o = .push then [] else .plain o h :: instructions p
  | _ => []

/-- A program at whose first token no instruction starts. -/
inductive Stuck : Program → Prop
  | literal (v : Word) (p : Program) : Stuck (.data v :: p)
  | push {p : Program} (h : ∀ v, p.head? ≠ some (.data v)) : Stuck (.op .push :: p)

/-- `q` is the longest prefix of `p` that is well-formed. -/
structure LongestWellFormed (q p : Program) : Prop where
  isPrefix : q <+: p
  wellFormed : q.WellFormed
  longest : ∀ r : Program, r <+: p → r.WellFormed → r.length ≤ q.length

/-! ## Instructions come first -/

@[simp] theorem instructions_tokens_append (i : Instruction) (p : Program) :
    instructions (i.tokens ++ p) = i :: instructions p := by
  cases i with
  | plain o h => cases o <;> first | exact absurd rfl h | rfl
  | push v => rfl

theorem instructions_append (is : List Instruction) (p : Program) :
    instructions (ofInstructions is ++ p) = is ++ instructions p := by
  induction is with
  | nil => rfl
  | cons i is ih => simp [List.append_assoc, ih]

theorem Stuck.instructions {p : Program} (h : Stuck p) : instructions p = [] := by
  cases h with
  | literal v p => rfl
  | @push p h =>
    rcases p with _ | ⟨o | v, p⟩
    · rfl
    · rfl
    · exact absurd rfl (h v)

/-- **A program is its instructions and a remainder** that is empty or stuck. -/
theorem exists_eq_append_remainder (p : Program) :
    ∃ rest, p = ofInstructions p.instructions ++ rest ∧ (rest = [] ∨ Stuck rest) := by
  fun_induction Program.instructions p with
  | case1 v p ih =>
    obtain ⟨rest, hp, hr⟩ := ih
    exact ⟨rest, by rw [ofInstructions_cons, List.append_assoc, ← hp]; rfl, hr⟩
  | case2 p hp =>
    refine ⟨.op .push :: p, rfl, .inr (.push fun v hv => ?_)⟩
    obtain ⟨q, rfl⟩ := List.head?_eq_some_iff.1 hv
    exact hp v q rfl rfl
  | case3 o p _ ho ih =>
    obtain ⟨rest, hp, hr⟩ := ih
    exact ⟨rest, by rw [ofInstructions_cons, List.append_assoc, ← hp]; rfl, hr⟩
  | case4 p h1 h2 =>
    refine ⟨p, rfl, ?_⟩
    rcases p with _ | ⟨o | v, p⟩
    · exact .inl rfl
    · exact absurd rfl (h2 o p)
    · exact .inr (.literal v p)

/-- **The cut is unique**: no other instructions stand before a remainder. -/
theorem instructions_append_stuck (is : List Instruction) {rest : Program}
    (h : rest = [] ∨ Stuck rest) : instructions (ofInstructions is ++ rest) = is := by
  rw [instructions_append]
  obtain rfl | h := h
  · exact List.append_nil is
  · rw [h.instructions, List.append_nil]

@[simp] theorem instructions_ofInstructions (is : List Instruction) :
    instructions (ofInstructions is) = is := by
  simpa using instructions_append_stuck is (.inl rfl)

/-! ## Well-formed programs -/

theorem wellFormed_ofInstructions (is : List Instruction) : (ofInstructions is).WellFormed := by
  induction is with
  | nil => exact .nil
  | cons i is ih =>
    cases i with
    | plain o h => exact .op h ih
    | push v => exact .push ih

theorem WellFormed.ofInstructions_instructions {p : Program} (h : p.WellFormed) :
    ofInstructions p.instructions = p := by
  induction h with
  | nil => rfl
  | @op o p ho _ ih =>
    have hi := instructions_tokens_append (.plain o ho) p
    rw [Instruction.tokens_plain, List.singleton_append] at hi
    rw [hi, ofInstructions_cons, ih]
    rfl
  | @push v p _ ih => simp [Program.instructions, ih]

/-- **The well-formed programs** are those that are made of instructions. -/
theorem wellFormed_iff {p : Program} : p.WellFormed ↔ ∃ is, p = ofInstructions is :=
  ⟨fun h => ⟨_, h.ofInstructions_instructions.symm⟩,
    fun ⟨is, h⟩ => h ▸ wellFormed_ofInstructions is⟩

/-- The instructions of a well-formed prefix are the first ones of the program. -/
theorem WellFormed.instructions_prefix {q p : Program} (h : q.WellFormed) (hp : q <+: p) :
    q.instructions <+: p.instructions := by
  obtain ⟨r, rfl⟩ := hp
  conv => rhs; rw [← h.ofInstructions_instructions, instructions_append]
  exact List.prefix_append _ _

/-- **The instructions before a remainder** are the longest well-formed prefix. -/
theorem longestWellFormed_append (is : List Instruction) {rest : Program}
    (h : rest = [] ∨ Stuck rest) :
    LongestWellFormed (ofInstructions is) (ofInstructions is ++ rest) where
  isPrefix := List.prefix_append _ _
  wellFormed := wellFormed_ofInstructions is
  longest := by
    intro r hr hw
    have hi := hw.instructions_prefix hr
    rw [instructions_append_stuck is h] at hi
    obtain ⟨js, rfl⟩ := hi
    rw [ofInstructions_append, hw.ofInstructions_instructions]
    simp

end Program

end StackVM
