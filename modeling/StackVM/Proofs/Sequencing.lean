import StackVM.Proofs.Exec

/-!
# Programs that run one after the other

A run of `p ++ q` is a run of `p` and then, if that succeeds, a run of `q` from the stack that `p`
leaves, under what `p` leaves of the limit (`Exec.append_of_ok`). What `q` reports comes out with
positions that count the tokens of `p`, and with the limit on the whole run (`RuntimeError.after`).
If `p` fails, `q` is not reached (`Exec.append_of_error`): only a `PUSH` looks at the token after
it, so only a `PUSH` at the end of `p` can fail alone and go on in front of `q`.
-/

set_option autoImplicit false

namespace StackVM

/-! ## Errors of a later part -/

/-- The error of a run with `tokens` further tokens before it, under `limit` in place of what they
leave of it. -/
def RuntimeError.after (tokens : Nat) (limit : Option Nat) : RuntimeError → RuntimeError
  | decode error => decode error
  | invalidOpcode n => invalidOpcode (tokens + n)
  | invalidData n => invalidData (tokens + n)
  | stackUnderflow n => stackUnderflow (tokens + n)
  | divisionByZero n => divisionByZero (tokens + n)
  | notImplemented n o => notImplemented (tokens + n) o
  | stepLimitExceeded bound => stepLimitExceeded (limit.getD bound)

/-- The failure of a run with `tokens` further tokens before it; the stack is the same. -/
def Failure.after (tokens : Nat) (limit : Option Nat) (f : Failure) : Failure :=
  ⟨f.error.after tokens limit, f.stack⟩

@[simp] theorem RuntimeError.after_ofTrap (tokens n : Nat) (limit : Option Nat) (o : Opcode)
    (t : Trap) : (ofTrap n o t).after tokens limit = ofTrap (tokens + n) o t := by
  cases t <;> rfl

/-! ## The seam -/

variable {limit : Option Nat} {s : Stack} {rest : Program} {r : Except Failure Stack}

/-- **A run ends in the same way** behind `tokens` more tokens and `used` more dispatches that the
limit has room for. -/
theorem Ends.after {n position d used : Nat} (tokens : Nat)
    (h : Ends (limit.map (· - used)) n position s rest d r) (hused : ∀ b ∈ limit, used ≤ b) :
    Ends limit (used + n) (tokens + position) s rest (used + d)
      (r.mapError (Failure.after tokens limit)) := by
  cases h with
  | finished => exact .finished
  | literal v rest => exact .literal v rest
  | stepLimit o rest hl hb =>
    obtain ⟨b, rfl, rfl⟩ := Option.map_eq_some_iff.1 hl
    have hle : b ≤ used + n := by omega
    exact .stepLimit o rest rfl hle
  | @trap o rest t s' hroom ht =>
    have hroom' : ∀ b ∈ limit, used + n < b := by
      intro b hb
      have hub := hused b hb
      have hnb := hroom (b - used) (Option.mem_map_of_mem _ hb)
      omega
    rw [← Nat.add_assoc]
    show Ends limit _ _ s _ _ (.error ⟨(RuntimeError.ofTrap position o t).after tokens limit, s'⟩)
    rw [RuntimeError.after_ofTrap]
    exact .trap hroom' ht

/-- An opcode that traps at the end of a program does so in front of any other tokens, unless it is
a `PUSH`, which misses its literal. -/
theorem Opcode.Traps.append {o : Opcode} {t : Trap} {s' : Stack} {q : Program}
    (h : o.Traps rest.head? s t s') (hlit : rest = [] → t ≠ .missingLiteral) :
    o.Traps (rest ++ q).head? s t s' := by
  refine h.of_next fun ho => ?_
  rcases rest with _ | ⟨token, rest⟩
  · -- A `PUSH` takes no operands, so this is the one way in which it can trap.
    subst ho
    cases h with
    | stackUnderflow hs => exact absurd hs (Nat.not_lt_zero _)
    | divisionByZero hd => simp at hd
    | missingLiteral => exact absurd rfl (hlit rfl)
    | reserved hr => simp at hr
  · rfl

/-- **A run that fails** does so in front of any other tokens. -/
theorem Ends.append_of_error {n position d : Nat} {f : Failure} {q : Program}
    (h : Ends limit n position s rest d (.error f))
    (hlit : f.error = .invalidData position → rest.length ≠ 1) :
    Ends limit n position s (rest ++ q) d (.error f) := by
  cases h with
  | literal v rest => exact .literal v (rest ++ q)
  | stepLimit o rest hl hb => exact .stepLimit o (rest ++ q) hl hb
  | @trap o rest t s' hroom ht =>
    refine .trap hroom (ht.append fun hr hm => ?_)
    subst hr hm
    exact hlit rfl rfl

namespace Program

variable {p q : Program} {s₀ : Stack} {d d' : Nat} {f : Failure}

/-- **Behind a program that succeeds** the next one goes on with the stack and with what is left of
the limit. -/
theorem Exec.append_of_ok (hp : p.Exec s₀ limit d (.ok s))
    (hq : q.Exec s (limit.map (· - d)) d' r) :
    (p ++ q).Exec s₀ limit (d + d') (r.mapError (Failure.after p.length limit)) := by
  obtain ⟨is, rest, s', rfl, his, hl, he⟩ := hp
  obtain ⟨js, rest', s'', rfl, hjs, hl', he'⟩ := hq
  cases he
  rw [List.append_nil]
  refine ⟨is ++ js, rest', s'', ?_, actAll_append_eq_ok.2 ⟨s, his, hjs⟩, fun b hb => ?_, ?_⟩
  · rw [ofInstructions_append, List.append_assoc]
  · have hb' := hl b hb
    have hjb := hl' (b - is.length) (Option.mem_map_of_mem _ hb)
    rw [List.length_append]
    omega
  · rw [ofInstructions_append, List.length_append, List.length_append]
    exact he'.after (ofInstructions is).length hl

/-- **Behind a program that fails** nothing is reached. -/
theorem Exec.append_of_error (hp : p.Exec s₀ limit d (.error f))
    (hlast : ∀ n, f.error = .invalidData n → n + 1 ≠ p.length) :
    (p ++ q).Exec s₀ limit d (.error f) := by
  obtain ⟨is, rest, s', rfl, his, hl, he⟩ := hp
  refine ⟨is, rest ++ q, s', List.append_assoc .., his, hl, he.append_of_error fun hd h1 => ?_⟩
  have hne := hlast _ hd
  rw [List.length_append, h1] at hne
  exact hne rfl

/-- **Runs compose.** If `p` succeeds, `p ++ q` goes on as `q` does alone from the stack that `p`
leaves, under the rest of the limit; its errors carry positions in `p ++ q` and the whole limit. If
`p` fails, other than for the literal of a `PUSH` at its end, `p ++ q` fails in the same way. -/
theorem runOn_append (p q : Program) (s₀ : Stack) (memory : Memory) (call : Call)
    (limit : Option Nat) :
    (∀ s, (p.runOn s₀ memory call limit).result = .ok s →
      let first := p.runOn s₀ memory call limit
      let second := q.runOn s first.memory call (limit.map (· - first.dispatches))
      let whole := (p ++ q).runOn s₀ memory call limit
      whole.result = second.result.mapError (Failure.after p.length limit) ∧
        whole.dispatches = first.dispatches + second.dispatches ∧
        whole.memory = second.memory) ∧
    (∀ f, (p.runOn s₀ memory call limit).result = .error f →
      (∀ n, f.error = .invalidData n → n + 1 ≠ p.length) →
      ((p ++ q).runOn s₀ memory call limit).result = .error f) := by
  have hp := p.exec_runOn s₀ memory call limit
  refine ⟨fun s hs => ?_, fun f hf hlast => ?_⟩
  · intro first second whole
    rw [hs] at hp
    have hq := q.exec_runOn s first.memory call (limit.map (· - first.dispatches))
    obtain ⟨hresult, hdispatches⟩ := (hp.append_of_ok hq).runOn memory call
    refine ⟨hresult, hdispatches, ?_⟩
    rw [memory_runOn, memory_runOn, memory_runOn]
  · rw [hf] at hp
    exact ((hp.append_of_error hlast).runOn memory call).1

theorem runOn_append_division :
    (run (Token.push 5 ++ Token.push 0) (.zeroed 0) {} (some 3)).result = .ok (.ofList [5, 0]) ∧
    (runOn [.op .div, .op .pop] (.ofList [5, 0]) (.zeroed 0) {} (some 1)).result =
      .error ⟨.divisionByZero 0, .empty⟩ ∧
    (run (Token.push 5 ++ Token.push 0 ++ [.op .div, .op .pop]) (.zeroed 0) {} (some 3)).result =
      .error ⟨.divisionByZero 4, .empty⟩ := by
  have hp : (run (Token.push 5 ++ Token.push 0) (.zeroed 0) {} (some 3)).result =
      .ok (.ofList [5, 0]) := by cbv
  have hd : (runOn (Token.push 5 ++ Token.push 0) .empty (.zeroed 0) {} (some 3)).dispatches = 2 :=
    by cbv
  have hq : (runOn [.op .div, .op .pop] (.ofList [5, 0]) (.zeroed 0) {} (some 1)).result =
      .error ⟨.divisionByZero 0, .empty⟩ := by cbv
  obtain ⟨hresult, -, -⟩ := (runOn_append (Token.push 5 ++ Token.push 0) [.op .div, .op .pop] .empty
    (.zeroed 0) {} (some 3)).1 _ hp
  rw [memory_runOn, hd] at hresult
  exact ⟨hp, hq, hresult.trans (congrArg _ hq)⟩

-- Alone the `PUSH` has no literal; it takes the one that comes to stand after it.
example : (run [.op .push] (.zeroed 0) {} none).result = .error ⟨.invalidData 0, .empty⟩ ∧
    (run ([.op .push] ++ [.data 7]) (.zeroed 0) {} none).result = .ok (.ofList [7]) := by
  constructor <;> cbv

end Program

end StackVM
