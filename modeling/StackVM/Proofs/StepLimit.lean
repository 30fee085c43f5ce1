import StackVM.Proofs.Exec

/-!
# Runs under a step limit

A limit that is not below the number of instructions that the free run dispatches changes nothing
(`Exec.of_le`). A lower limit stops the run right before the next instruction, with the stack that
the instructions up to there leave when they run alone (`Exec.cut`). At the boundary it matters what
is charged: a trap is that of an instruction that was dispatched, a literal in the place of an
opcode is found without a charge.
-/

set_option autoImplicit false

namespace StackVM

theorem Ends.le_dispatches {limit : Option Nat} {n position d : Nat} {s : Stack} {rest : Program}
    {r : Except Failure Stack} (h : Ends limit n position s rest d r) : n ≤ d := by
  cases h with
  | finished => exact Nat.le_refl _
  | literal => exact Nat.le_refl _
  | stepLimit => exact Nat.le_refl _
  | trap => exact Nat.le_succ _

/-- A free run ends in the same way under a limit that is not below its dispatches. -/
theorem Ends.of_le {n position d k : Nat} {s : Stack} {rest : Program} {r : Except Failure Stack}
    (h : Ends none n position s rest d r) (hk : d ≤ k) : Ends (some k) n position s rest d r := by
  cases h with
  | finished => exact .finished
  | literal v rest => exact .literal v rest
  | stepLimit _ _ hl => cases hl
  | trap _ ht =>
    refine .trap (fun b hb => ?_) ht
    obtain rfl := Option.mem_some.1 hb
    exact hk

namespace Program

variable {p : Program} {s₀ : Stack} {r : Except Failure Stack} {d k : Nat}

theorem Exec.of_le (h : p.Exec s₀ none d r) (hk : d ≤ k) : p.Exec s₀ (some k) d r := by
  obtain ⟨is, rest, s, hp, hs, -, he⟩ := h
  refine ⟨is, rest, s, hp, hs, fun b hb => ?_, he.of_le hk⟩
  obtain rfl := Option.mem_some.1 hb
  exact Nat.le_trans he.le_dispatches hk

/-- An opcode stands behind the first `k` instructions if more than `k` are dispatched. -/
theorem exists_op_behind {is : List Instruction} {rest : Program} {position : Nat} {s : Stack}
    (he : Ends none is.length position s rest d r) (hk : k < d) :
    ∃ o tail, ofInstructions (is.drop k) ++ rest = .op o :: tail := by
  by_cases hlt : k < is.length
  · rw [List.drop_eq_getElem_cons hlt]
    exact ⟨_, _, rfl⟩
  · rw [List.drop_eq_nil_of_le (Nat.le_of_not_lt hlt)]
    cases he with
    | finished => exact absurd hk hlt
    | literal => exact absurd hk hlt
    | stepLimit o tail hl => cases hl
    | @trap o tail t s' => exact ⟨o, tail, rfl⟩

/-- **A limit below the dispatches** of the free run stops it behind as many instructions. -/
theorem Exec.cut (h : p.Exec s₀ none d r) (hk : k < d) :
    k ≤ p.instructions.length ∧ ∃ s, (actAll (p.instructions.take k)).run s₀ = .ok () s ∧
      p.Exec s₀ (some k) k (.error ⟨.stepLimitExceeded k, s⟩) := by
  obtain ⟨is, rest, s, rfl, hs, -, he⟩ := h
  have hle : k ≤ is.length := by
    cases he with
    | finished => exact Nat.le_of_lt hk
    | literal => exact Nat.le_of_lt hk
    | stepLimit => exact Nat.le_of_lt hk
    | trap => exact Nat.le_of_lt_succ hk
  have htake : (is ++ instructions rest).take k = is.take k := List.take_append_of_le_length hle
  have hlen : (is.take k).length = k := by rw [List.length_take, Nat.min_eq_left hle]
  rw [← List.take_append_drop k is] at hs
  obtain ⟨u, hu, -⟩ := actAll_append_eq_ok.1 hs
  obtain ⟨o, tail, hop⟩ := exists_op_behind he hk
  rw [instructions_append, htake]
  refine ⟨?_, u, hu, is.take k, .op o :: tail, u, ?_, hu, fun b hb => ?_, ?_⟩
  · rw [List.length_append]
    omega
  · rw [← hop, ← List.append_assoc, ← ofInstructions_append, List.take_append_drop]
  · obtain rfl := Option.mem_some.1 hb
    exact Nat.le_of_eq hlen
  · rw [hlen]
    exact .stepLimit o tail rfl (Nat.le_refl k)

/-- **The step limit cuts the free run.** From the number of its dispatches on, a limit changes
nothing. Under a lower limit `k` the run stops with the stack to which the first `k` instructions of
the program run alone. -/
theorem run_under_limit (p : Program) (memory : Memory) (call : Call) (k : Nat) :
    ((p.run memory call none).dispatches ≤ k →
      (p.run memory call (some k)).result = (p.run memory call none).result) ∧
    (k < (p.run memory call none).dispatches →
      k ≤ p.instructions.length ∧
      ∃ s, (run (ofInstructions (p.instructions.take k)) memory call none).result = .ok s ∧
        (p.run memory call (some k)).result = .error ⟨.stepLimitExceeded k, s⟩) := by
  have hfree := p.exec_runOn .empty memory call none
  refine ⟨fun hk => ((hfree.of_le hk).runOn memory call).1, fun hk => ?_⟩
  obtain ⟨hle, s, hs, hcut⟩ := hfree.cut hk
  exact ⟨hle, s, (run_ofInstructions hs memory call).1, (hcut.runOn memory call).1⟩

/-- The second `POP` traps. Its trap passes under the limit that lets it be dispatched. -/
theorem run_under_limit_trap :
    let p : Program := Token.push 1 ++ [.op .pop, .op .pop]
    (p.run (.zeroed 0) {} (some 3)).result = .error ⟨.stackUnderflow 3, .empty⟩ ∧
    (p.run (.zeroed 0) {} (some 2)).result = .error ⟨.stepLimitExceeded 2, .empty⟩ := by
  intro p
  have hdispatches : (p.run (.zeroed 0) {} none).dispatches = 3 := by cbv
  refine ⟨((run_under_limit p (.zeroed 0) {} 3).1 (Nat.le_of_eq hdispatches)).trans (by cbv), ?_⟩
  have hlt : 2 < (p.run (.zeroed 0) {} none).dispatches := by rw [hdispatches]; decide
  obtain ⟨-, s, hs, hcut⟩ := (run_under_limit p (.zeroed 0) {} 2).2 hlt
  have hempty : (run (ofInstructions (p.instructions.take 2)) (.zeroed 0) {} none).result =
      .ok .empty := by cbv
  rw [hempty] at hs
  cases hs
  exact hcut

-- A literal in its place is found under the lower limit already.
example : (run (Token.push 1 ++ [.op .pop, .data 1]) (.zeroed 0) {} (some 2)).result =
    .error ⟨.invalidOpcode 3, .empty⟩ := by cbv

end Program

end StackVM
