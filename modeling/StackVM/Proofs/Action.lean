import StackVM.Effect
import StackVM.Proofs.Instruction

/-!
# What instructions do to the stack

`Instruction.act` is the action of a complete instruction, which depends on nothing around it
(`effect_opcode`), and `actAll` that of several in a row. `Opcode.Traps` says when an opcode traps
and what stack it leaves: each trap finds the stack as it was, but for the operands that had been
taken off by then. These are the failures of its action, and all of them (`Opcode.traps_of_effect`,
`Opcode.effect_of_traps`).
-/

set_option autoImplicit false

namespace StackVM

def Instruction.act : Instruction → Effect Unit
  | plain o _ => o.effect none
  | push v => Effect.push v

/-- The actions of instructions, one after the other. -/
def actAll (is : List Instruction) : Effect Unit := is.forM Instruction.act

theorem actAll_nil_eq_ok {s t : Stack} : (actAll []).run s = .ok () t ↔ s = t := by
  simp [actAll, EStateM.run, pure, EStateM.pure]

theorem actAll_cons_eq_ok {i : Instruction} {is : List Instruction} {s t : Stack} :
    (actAll (i :: is)).run s = .ok () t ↔
      ∃ u, i.act.run s = .ok () u ∧ (actAll is).run u = .ok () t := by
  have h : actAll (i :: is) = i.act >>= fun _ => actAll is := rfl
  rw [h, EStateM.run_bind]
  cases i.act.run s with
  | ok _ u => simp
  | error e u => simp

theorem actAll_append_eq_ok {is js : List Instruction} {s t : Stack} :
    (actAll (is ++ js)).run s = .ok () t ↔
      ∃ u, (actAll is).run s = .ok () u ∧ (actAll js).run u = .ok () t := by
  induction is generalizing s with
  | nil => simp [actAll_nil_eq_ok]
  | cons i is ih =>
    simp only [List.cons_append, actAll_cons_eq_ok, ih]
    constructor
    · rintro ⟨u, hi, w, his, hjs⟩
      exact ⟨w, ⟨u, hi, his⟩, hjs⟩
    · rintro ⟨w, ⟨u, hi, his⟩, hjs⟩
      exact ⟨u, hi, w, his, hjs⟩

/-! ## The token after an opcode -/

theorem Opcode.effect_of_ne_push {o : Opcode} (h : o ≠ .push) (next? : Option Token) :
    o.effect next? = o.effect none := by
  cases o <;> first | exact absurd rfl h | rfl

/-- An instruction acts in a program as it does by itself. -/
theorem Instruction.effect_opcode (i : Instruction) (rest : Program) :
    i.opcode.effect (i.literals.map Token.data ++ rest).head? = i.act := by
  cases i with
  | plain o h => exact o.effect_of_ne_push h _
  | push v => rfl

/-- **An opcode that completes is part of an instruction**: a `PUSH` has its literal. -/
theorem Opcode.exists_instruction_of_effect {o : Opcode} {rest : Program} {s t : Stack}
    (h : (o.effect rest.head?).run s = .ok () t) :
    ∃ (i : Instruction) (tail : Program), .op o :: rest = i.tokens ++ tail ∧ i.opcode = o ∧
      i.act.run s = .ok () t := by
  by_cases ho : o = .push
  · subst ho
    rcases rest with _ | ⟨o | v, tail⟩
    · cases h
    · cases h
    · exact ⟨.push v, tail, rfl, rfl, h⟩
  · rw [o.effect_of_ne_push ho] at h
    exact ⟨.plain o ho, rest, rfl, rfl, h⟩

/-! ## Traps -/

/-- How many words an opcode takes off the stack. -/
def Opcode.operands : Opcode → Nat
  | .push | .mload | .mstore => 0
  | .not | .pop => 1
  | _ => 2

/-- How an opcode traps on a stack, and the stack that it leaves. -/
inductive Opcode.Traps (o : Opcode) (next? : Option Token) (s : Stack) : Trap → Stack → Prop
  | stackUnderflow : s.size < o.operands → Traps o next? s .stackUnderflow .empty
  | divisionByZero {t : Stack} {x : Word} : o = .div ∨ o = .mod → s = (t.push x).push 0 →
      Traps o next? s .divisionByZero t
  | missingLiteral : o = .push → (∀ v, next? ≠ some (.data v)) → Traps o next? s .missingLiteral s
  | reserved : o = .mload ∨ o = .mstore → Traps o next? s .reserved s

namespace Effect

variable {s s' : Stack} {t : Trap}

theorem run_pop_eq_error_iff :
    (discard pop).run s = .error t s' ↔ s.size < 1 ∧ t = .stackUnderflow ∧ s' = .empty := by
  obtain rfl | ⟨r, x, rfl⟩ := s.eq_empty_or_push
  · simp [eq_comm]
  · simp

theorem run_unary_eq_error_iff {f : Word → Word} :
    (unary f).run s = .error t s' ↔ s.size < 1 ∧ t = .stackUnderflow ∧ s' = .empty := by
  obtain rfl | ⟨r, x, rfl⟩ := s.eq_empty_or_push
  · simp [eq_comm]
  · simp

theorem run_binary_eq_error_iff {f : Word → Word → Word} :
    (binary f).run s = .error t s' ↔ s.size < 2 ∧ t = .stackUnderflow ∧ s' = .empty := by
  obtain rfl | ⟨r, y, rfl⟩ := s.eq_empty_or_push
  · simp [eq_comm]
  obtain rfl | ⟨r, x, rfl⟩ := r.eq_empty_or_push
  · simp [eq_comm]
  · have hs : ¬ r.size + 1 + 1 < 2 := by omega
    simp [hs]

theorem run_division_eq_error_iff {part : Word × Word → Word} :
    (division part).run s = .error t s' ↔ s.size < 2 ∧ t = .stackUnderflow ∧ s' = .empty ∨
      t = .divisionByZero ∧ ∃ x, s = (s'.push x).push 0 := by
  obtain rfl | ⟨r, y, rfl⟩ := s.eq_empty_or_push
  · simp [eq_comm]
  obtain rfl | ⟨r, x, rfl⟩ := r.eq_empty_or_push
  · simp [eq_comm]
  have hs : ¬ r.size + 1 + 1 < 2 := by omega
  rw [run_division_push_push]
  by_cases hy : y = 0
  · simp [hy, hs, Word.divMod?, eq_comm]
  · simp [hy, hs, Word.divMod?]

end Effect

namespace Opcode

variable {o : Opcode} {next? : Option Token} {s s' : Stack} {t : Trap}

theorem traps_of_effect (h : (o.effect next?).run s = .error t s') : o.Traps next? s t s' := by
  cases o with
  | add | mul | sub | lt | gt | eq =>
    obtain ⟨hs, rfl, rfl⟩ := Effect.run_binary_eq_error_iff.1 h
    exact .stackUnderflow hs
  | div =>
    obtain ⟨hs, rfl, rfl⟩ | ⟨rfl, x, hs⟩ := Effect.run_division_eq_error_iff.1 h
    · exact .stackUnderflow hs
    · exact .divisionByZero (.inl rfl) hs
  | mod =>
    obtain ⟨hs, rfl, rfl⟩ | ⟨rfl, x, hs⟩ := Effect.run_division_eq_error_iff.1 h
    · exact .stackUnderflow hs
    · exact .divisionByZero (.inr rfl) hs
  | not =>
    obtain ⟨hs, rfl, rfl⟩ := Effect.run_unary_eq_error_iff.1 h
    exact .stackUnderflow hs
  | pop =>
    obtain ⟨hs, rfl, rfl⟩ := Effect.run_pop_eq_error_iff.1 h
    exact .stackUnderflow hs
  | push =>
    rcases next? with _ | ⟨o | v⟩
    · cases h
      exact .missingLiteral rfl (by simp)
    · cases h
      exact .missingLiteral rfl (by simp)
    · cases h
  | mload =>
    cases h
    exact .reserved (.inl rfl)
  | mstore =>
    cases h
    exact .reserved (.inr rfl)

theorem effect_of_traps (h : o.Traps next? s t s') : (o.effect next?).run s = .error t s' := by
  cases h with
  | stackUnderflow hs =>
    cases o with
    | add | mul | sub | lt | gt | eq => exact Effect.run_binary_eq_error_iff.2 ⟨hs, rfl, rfl⟩
    | div | mod => exact Effect.run_division_eq_error_iff.2 (.inl ⟨hs, rfl, rfl⟩)
    | not => exact Effect.run_unary_eq_error_iff.2 ⟨hs, rfl, rfl⟩
    | pop => exact Effect.run_pop_eq_error_iff.2 ⟨hs, rfl, rfl⟩
    | push | mload | mstore => exact absurd hs (Nat.not_lt_zero _)
  | divisionByZero ho hs =>
    obtain rfl | rfl := ho
    · exact Effect.run_division_eq_error_iff.2 (.inr ⟨rfl, _, hs⟩)
    · exact Effect.run_division_eq_error_iff.2 (.inr ⟨rfl, _, hs⟩)
  | missingLiteral ho hn =>
    subst ho
    rcases next? with _ | ⟨o | v⟩
    · rfl
    · rfl
    · exact absurd rfl (hn v)
  | reserved ho =>
    obtain rfl | rfl := ho
    · rfl
    · rfl

/-- Only a `PUSH` looks at the token after it. -/
theorem Traps.of_next {next'? : Option Token} (h : o.Traps next? s t s')
    (hn : o = .push → next'? = next?) : o.Traps next'? s t s' := by
  cases h with
  | stackUnderflow hs => exact .stackUnderflow hs
  | divisionByZero ho hs => exact .divisionByZero ho hs
  | missingLiteral ho hl => exact .missingLiteral ho (hn ho ▸ hl)
  | reserved ho => exact .reserved ho

end Opcode

end StackVM
