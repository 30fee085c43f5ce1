import StackVM.Proofs.Exec

/-!
# The point of a failure

An error that carries a position says everything about the failed run: the tokens before the
position run by themselves, without a limit, to a stack `s`, and the token at the position fails on
`s` in the one way that its opcode allows (`Program.FailsAt`). The tokens behind it play no part,
but for the one after a `PUSH`.

The completed instructions of the run (`Program.exec_runOn`) are the tokens before the position, so
both halves exchange what follows them.
-/

set_option autoImplicit false

namespace StackVM

/-- The position that an error carries. -/
def RuntimeError.position? : RuntimeError → Option Nat
  | invalidOpcode n | invalidData n | stackUnderflow n | divisionByZero n | notImplemented n _ =>
    some n
  | decode _ | stepLimitExceeded _ => none

@[simp] theorem RuntimeError.position?_ofTrap (n : Nat) (o : Opcode) (t : Trap) :
    (ofTrap n o t).position? = some n := by
  cases t <;> rfl

namespace Program

/-- How the token at position `n` fails on the stack `s`. Operands that were missing leave nothing
behind; those of a division by zero are gone; in the other cases the stack is as it was. -/
inductive FailsAt (p : Program) (n : Nat) (s : Stack) : Failure → Prop
  | invalidOpcode {v : Word} : p[n]? = some (.data v) → FailsAt p n s ⟨.invalidOpcode n, s⟩
  | invalidData : p[n]? = some (.op .push) → (∀ v, p[n + 1]? ≠ some (.data v)) →
      FailsAt p n s ⟨.invalidData n, s⟩
  | notImplemented {o : Opcode} : p[n]? = some (.op o) → o = .mload ∨ o = .mstore →
      FailsAt p n s ⟨.notImplemented n o, s⟩
  | stackUnderflow {o : Opcode} : p[n]? = some (.op o) → s.size < o.operands →
      FailsAt p n s ⟨.stackUnderflow n, .empty⟩
  | divisionByZero {o : Opcode} {t : Stack} {x : Word} : p[n]? = some (.op o) →
      o = .div ∨ o = .mod → s = (t.push x).push 0 → FailsAt p n s ⟨.divisionByZero n, t⟩

theorem FailsAt.of_traps {p : Program} {n : Nat} {o : Opcode} {s s' : Stack} {t : Trap}
    (ho : p[n]? = some (.op o)) (ht : o.Traps p[n + 1]? s t s') :
    p.FailsAt n s ⟨.ofTrap n o t, s'⟩ := by
  cases ht with
  | stackUnderflow hs => exact .stackUnderflow ho hs
  | divisionByZero hd hs => exact .divisionByZero ho hd hs
  | missingLiteral hp hn =>
    subst hp
    exact .invalidData ho hn
  | reserved hr => exact .notImplemented ho hr

/-- A program that agrees with `a ++ t :: b` up to and with `t` starts in the same way. -/
theorem eq_append_of_take_eq {q a b : Program} {t : Token}
    (h : q.take (a.length + 1) = (a ++ t :: b).take (a.length + 1)) :
    ∃ c, q = a ++ t :: c := by
  have ht : (a ++ t :: b).take (a.length + 1) = a ++ [t] := by
    rw [List.take_append, List.take_of_length_le (by omega)]
    simp
  refine ⟨q.drop (a.length + 1), ?_⟩
  conv => lhs; rw [← List.take_append_drop (a.length + 1) q, h, ht]
  simp

/-- The tokens around the one behind completed instructions. -/
theorem getElem?_after (a tail : Program) (t : Token) :
    (a ++ t :: tail)[a.length]? = some t ∧ (a ++ t :: tail)[a.length + 1]? = tail.head? := by
  constructor
  · simp
  · rw [List.getElem?_append_right (by omega), List.head?_eq_getElem?]
    simp

/-- **A failure at a position is determined** by the stack to which the tokens before it run and by
the token itself, with the token after it if it is a `PUSH`. -/
theorem failure_determined {p : Program} {memory : Memory} {call : Call} {limit : Option Nat}
    {f : Failure} {n : Nat} (h : (p.run memory call limit).result = .error f)
    (hn : f.error.position? = some n) :
    (∃ s, (run (p.take n) memory call none).result = .ok s ∧ p.FailsAt n s f) ∧
    ∀ q : Program, q.take (n + 1) = p.take (n + 1) →
      (p[n]? = some (.op .push) → q[n + 1]? = p[n + 1]?) →
      (q.run memory call limit).result = .error f := by
  obtain ⟨_, is, rest, s, rfl, hs, hl, he⟩ := exec_of_result h
  have hprefix := run_ofInstructions hs memory call
  cases he with
  | literal v tail =>
    obtain rfl : (ofInstructions is).length = n := Option.some.inj hn
    obtain ⟨h1, -⟩ := getElem?_after (ofInstructions is) tail (.data v)
    refine ⟨⟨s, ?_, .invalidOpcode h1⟩, fun q hq _ => ?_⟩
    · rw [List.take_left]
      exact hprefix.1
    · obtain ⟨c, rfl⟩ := eq_append_of_take_eq hq
      exact (Exec.runOn memory call ⟨is, _, s, rfl, hs, hl, .literal v c⟩).1
  | stepLimit => cases hn
  | @trap o tail t s' hroom ht =>
    rw [RuntimeError.position?_ofTrap] at hn
    obtain rfl : (ofInstructions is).length = n := Option.some.inj hn
    obtain ⟨h1, h2⟩ := getElem?_after (ofInstructions is) tail (.op o)
    refine ⟨⟨s, ?_, .of_traps h1 (h2 ▸ ht)⟩, fun q hq hpush => ?_⟩
    · rw [List.take_left]
      exact hprefix.1
    · obtain ⟨c, rfl⟩ := eq_append_of_take_eq hq
      obtain ⟨-, h3⟩ := getElem?_after (ofInstructions is) c (.op o)
      have ht' : o.Traps c.head? s t s' := by
        refine ht.of_next fun ho => ?_
        rw [← h2, ← h3]
        exact hpush (ho ▸ h1)
      exact (Exec.runOn memory call ⟨is, _, s, rfl, hs, hl, .trap hroom ht'⟩).1

theorem failure_determined_mod_by_zero :
    (run (Token.push 5 ++ Token.push 7 ++ Token.push 0 ++ [.op .mod, .op .add]) (.zeroed 0) {}
      (some 4)).result = .error ⟨.divisionByZero 6, .ofList [5]⟩ ∧
    (RuntimeError.divisionByZero 6).position? = some 6 ∧
    (∃ s, (run (Token.push 5 ++ Token.push 7 ++ Token.push 0) (.zeroed 0) {} none).result = .ok s ∧
      FailsAt (Token.push 5 ++ Token.push 7 ++ Token.push 0 ++ [.op .mod, .op .add]) 6 s
        ⟨.divisionByZero 6, .ofList [5]⟩) ∧
    (run (Token.push 5 ++ Token.push 7 ++ Token.push 0 ++ [.op .mod, .data 1]) (.zeroed 0) {}
      (some 4)).result = .error ⟨.divisionByZero 6, .ofList [5]⟩ := by
  have h : (run (Token.push 5 ++ Token.push 7 ++ Token.push 0 ++ [.op .mod, .op .add]) (.zeroed 0)
      {} (some 4)).result = .error ⟨.divisionByZero 6, .ofList [5]⟩ := by cbv
  obtain ⟨hs, hq⟩ := failure_determined h rfl
  exact ⟨h, rfl, hs, hq _ rfl fun hpush => absurd hpush (by decide)⟩

end Program

end StackVM
