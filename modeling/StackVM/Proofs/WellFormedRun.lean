import StackVM.Proofs.Codec
import StackVM.Proofs.FailurePoint

/-!
# Runs and well-formed programs

A run dispatches exactly the instructions that the program cuts into. So a program that runs to its
end is well-formed, and the two errors that say that no instruction starts at a token are raised
where the longest well-formed prefix ends (`Exec.of_invalidOpcode`, `Exec.of_invalidData`). Since
decoding gives well-formed programs only, a byte stream that is decoded can fail in three ways:
operands are missing, a divisor is zero, or an opcode is reserved (`Exec.error_of_wellFormed`).
-/

set_option autoImplicit false

namespace StackVM

namespace RuntimeError

variable {position n : Nat} {o : Opcode} {t : Trap}

/-- No trap is a literal in the place of an opcode: that is found before the dispatch. -/
theorem ofTrap_ne_invalidOpcode : ofTrap position o t ≠ .invalidOpcode n := by
  cases t <;> simp [ofTrap]

theorem ofTrap_eq_invalidData_iff :
    ofTrap position o t = .invalidData n ↔ t = .missingLiteral ∧ position = n := by
  cases t <;> simp [ofTrap]

end RuntimeError

namespace Program

/-! ## Well-formed prefixes -/

/-- A program is not well-formed if no instruction starts behind its first ones. -/
theorem not_wellFormed_append_stuck (is : List Instruction) {rest : Program} (h : Stuck rest) :
    ¬ (ofInstructions is ++ rest).WellFormed := by
  intro hw
  have hp := hw.ofInstructions_instructions
  rw [instructions_append_stuck is (.inr h), List.self_eq_append_right] at hp
  subst hp
  cases h

/-- The tokens before a remainder, and the token that it starts with. -/
theorem longestWellFormed_take (is : List Instruction) {t : Token} {rest : Program}
    (h : Stuck (t :: rest)) :
    LongestWellFormed ((ofInstructions is ++ t :: rest).take (ofInstructions is).length)
      (ofInstructions is ++ t :: rest) := by
  rw [List.take_left]
  exact longestWellFormed_append is (.inr h)

/-! ## The ends of a run -/

variable {p : Program} {s₀ s : Stack} {limit : Option Nat} {d n : Nat} {f : Failure}

/-- **A run that succeeds** has completed the whole program. -/
theorem Exec.wellFormed_of_ok (h : p.Exec s₀ limit d (.ok s)) : p.WellFormed := by
  obtain ⟨is, rest, s', rfl, -, -, he⟩ := h
  cases he
  rw [List.append_nil]
  exact wellFormed_ofInstructions is

/-- **A literal in the place of an opcode** stands behind complete instructions. -/
theorem Exec.of_invalidOpcode (h : p.Exec s₀ limit d (.error f))
    (hf : f.error = .invalidOpcode n) :
    ∃ is v rest, p = ofInstructions is ++ .data v :: rest ∧ n = (ofInstructions is).length := by
  obtain ⟨is, rest, s', rfl, -, -, he⟩ := h
  cases he with
  | literal v rest =>
    cases hf
    exact ⟨is, v, rest, rfl, rfl⟩
  | stepLimit => cases hf
  | trap => exact absurd hf RuntimeError.ofTrap_ne_invalidOpcode

/-- **A `PUSH` that fails for its literal** stands behind complete instructions and has none. -/
theorem Exec.of_invalidData (h : p.Exec s₀ limit d (.error f)) (hf : f.error = .invalidData n) :
    ∃ is rest, p = ofInstructions is ++ .op .push :: rest ∧ (∀ v, rest.head? ≠ some (.data v)) ∧
      n = (ofInstructions is).length := by
  obtain ⟨is, rest, s', rfl, -, -, he⟩ := h
  cases he with
  | literal => cases hf
  | stepLimit => cases hf
  | @trap o rest t s'' _ ht =>
    obtain ⟨rfl, rfl⟩ := RuntimeError.ofTrap_eq_invalidData_iff.1 hf
    cases ht with
    | missingLiteral ho hl =>
      subst ho
      exact ⟨is, rest, rfl, hl, rfl⟩

theorem Exec.ne_invalidOpcode (h : p.Exec s₀ limit d (.error f)) (hw : p.WellFormed) :
    f.error ≠ .invalidOpcode n := by
  intro hf
  obtain ⟨is, v, rest, rfl, -⟩ := h.of_invalidOpcode hf
  exact not_wellFormed_append_stuck is (.literal v rest) hw

theorem Exec.ne_invalidData (h : p.Exec s₀ limit d (.error f)) (hw : p.WellFormed) :
    f.error ≠ .invalidData n := by
  intro hf
  obtain ⟨is, rest, rfl, hl, -⟩ := h.of_invalidData hf
  exact not_wellFormed_append_stuck is (.push hl) hw

/-- **The failures of a well-formed program** that runs without a limit. -/
theorem Exec.error_of_wellFormed (h : p.Exec s₀ none d (.error f)) (hw : p.WellFormed) :
    (∃ n, f.error = .stackUnderflow n) ∨ (∃ n, f.error = .divisionByZero n) ∨
      ∃ n o, f.error = .notImplemented n o := by
  have hdata := fun n => h.ne_invalidData (n := n) hw
  have hopcode := fun n => h.ne_invalidOpcode (n := n) hw
  obtain ⟨is, rest, s', -, -, -, he⟩ := h
  cases he with
  | literal => exact absurd rfl (hopcode _)
  | stepLimit _ _ hl => cases hl
  | @trap o rest t =>
    cases t with
    | stackUnderflow => exact .inl ⟨_, rfl⟩
    | divisionByZero => exact .inr (.inl ⟨_, rfl⟩)
    | missingLiteral => exact absurd rfl (hdata _)
    | reserved => exact .inr (.inr ⟨_, _, rfl⟩)

/-- **Malformed programs and no others** raise the errors for a literal in the place of an opcode
and for a `PUSH` without a literal, and those name the token behind the longest well-formed prefix.
No byte stream raises them: what it decodes to is well-formed. -/
theorem run_malformed_exact (p : Program) (memory : Memory) (call : Call) (limit : Option Nat) :
    (p.WellFormed → ∀ n s,
      (p.run memory call limit).result ≠ .error ⟨.invalidOpcode n, s⟩ ∧
      (p.run memory call limit).result ≠ .error ⟨.invalidData n, s⟩) ∧
    (∀ s, (p.run memory call limit).result = .ok s → p.WellFormed) ∧
    (∀ n s, (p.run memory call limit).result = .error ⟨.invalidOpcode n, s⟩ →
      LongestWellFormed (p.take n) p ∧ ∃ v, p[n]? = some (.data v)) ∧
    (∀ n s, (p.run memory call limit).result = .error ⟨.invalidData n, s⟩ →
      LongestWellFormed (p.take n) p ∧ p[n]? = some (.op .push) ∧
        ∀ v, p[n + 1]? ≠ some (.data v)) ∧
    (∀ bytes f, (execute bytes memory call).result = .error f →
      (∃ e, decode bytes = .error e ∧ f = ⟨.decode e, .empty⟩) ∨
      (∃ n, f.error = .stackUnderflow n) ∨ (∃ n, f.error = .divisionByZero n) ∨
      ∃ n o, f.error = .notImplemented n o) := by
  refine ⟨fun hw n s => ⟨fun h => ?_, fun h => ?_⟩, fun s h => ?_, fun n s h => ?_,
    fun n s h => ?_, fun bytes f h => ?_⟩
  · obtain ⟨d, he⟩ := exec_of_result h
    exact he.ne_invalidOpcode hw rfl
  · obtain ⟨d, he⟩ := exec_of_result h
    exact he.ne_invalidData hw rfl
  · obtain ⟨d, he⟩ := exec_of_result h
    exact he.wellFormed_of_ok
  · obtain ⟨d, he⟩ := exec_of_result h
    obtain ⟨is, v, rest, rfl, rfl⟩ := he.of_invalidOpcode rfl
    obtain ⟨hat, -⟩ := getElem?_after (ofInstructions is) rest (.data v)
    exact ⟨longestWellFormed_take is (.literal v rest), v, hat⟩
  · obtain ⟨d, he⟩ := exec_of_result h
    obtain ⟨is, rest, rfl, hl, rfl⟩ := he.of_invalidData rfl
    obtain ⟨hat, hnext⟩ := getElem?_after (ofInstructions is) rest (.op .push)
    refine ⟨longestWellFormed_take is (.push hl), hat, fun v => ?_⟩
    rw [hnext]
    exact hl v
  · unfold execute at h
    split at h
    · next p hp =>
      obtain ⟨d, he⟩ := exec_of_result h
      exact .inr (he.error_of_wellFormed (decode_eq_ok_iff.1 hp).1)
    · next e hd =>
      cases h
      exact .inl ⟨e, hd, rfl⟩

theorem run_malformed_exact_stray_literal :
    (run (Token.push 1 ++ [.op .pop, .data 1, .op .add]) (.zeroed 0) {} none).result =
      .error ⟨.invalidOpcode 3, .empty⟩ ∧
    LongestWellFormed (Token.push 1 ++ [.op .pop])
      (Token.push 1 ++ [.op .pop, .data 1, .op .add]) ∧
    ¬ (Token.push 1 ++ [.op .pop, .data 1, .op .add] : Program).WellFormed := by
  have h : (run (Token.push 1 ++ [.op .pop, .data 1, .op .add]) (.zeroed 0) {} none).result =
      .error ⟨.invalidOpcode 3, .empty⟩ := by cbv
  obtain ⟨hw, -, hopcode, -⟩ :=
    run_malformed_exact (Token.push 1 ++ [.op .pop, .data 1, .op .add]) (.zeroed 0) {} none
  exact ⟨h, (hopcode 3 .empty h).1, fun hp => (hw hp 3 .empty).1 h⟩

end Program

end StackVM
