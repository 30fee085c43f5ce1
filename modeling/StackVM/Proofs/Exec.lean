import StackVM.Machine
import StackVM.Proofs.Action

/-!
# Runs by instructions

A run completes some instructions, which stand at the front of what is ahead of the cursor
(`Completes`), and then ends: at the end of the program, at a literal, at the step limit or in a
trap (`Ends`). Neither relation mentions the machine, the memory or the call.

* `step_eq_next_iff`, `step_ends`, `step_of_ends`: one turn of the dispatch loop.
* `Completes.ahead`, `Completes.acts` and the lemmas beside them: what the completed instructions
  have changed. `exists_completes` is the converse, from any machine with the same instructions
  ahead, so that what follows them, the limit and the memory can be exchanged.
* `Program.exec_runOn`: every run of a program is of this form (`Program.Exec`), with the number of
  instructions that were dispatched, and by `Program.Exec.runOn` this form determines the result.
-/

set_option autoImplicit false

namespace StackVM

/-! ## Ends -/

/-- How a run ends that has completed `steps` instructions, stands at `position` with the tokens of
the last argument but two ahead, and has the stack `s`: with how many instructions dispatched, and
with which result. -/
inductive Ends (limit : Option Nat) (steps position : Nat) (s : Stack) :
    Program → Nat → Except Failure Stack → Prop
  | finished : Ends limit steps position s [] steps (.ok s)
  | literal (v : Word) (rest : Program) :
      Ends limit steps position s (.data v :: rest) steps (.error ⟨.invalidOpcode position, s⟩)
  | stepLimit (o : Opcode) (rest : Program) {bound : Nat} : limit = some bound → bound ≤ steps →
      Ends limit steps position s (.op o :: rest) steps (.error ⟨.stepLimitExceeded bound, s⟩)
  | trap {o : Opcode} {rest : Program} {t : Trap} {s' : Stack} : (∀ b ∈ limit, steps < b) →
      o.Traps rest.head? s t s' →
      Ends limit steps position s (.op o :: rest) (steps + 1) (.error ⟨.ofTrap position o t, s'⟩)

namespace Machine

/-! ## One turn -/

/-- The machine after the instruction `i`, with the tokens `rest` ahead and the stack `s`. -/
def complete (m : Machine) (i : Instruction) (rest : Program) (s : Stack) : Machine :=
  { m.charge i.opcode with stack := s, cursor := ⟨m.cursor.position + i.tokens.length, rest⟩ }

/-- The machine after the trap `t` of the opcode `o`, which has been charged. -/
def trapped (m : Machine) (o : Opcode) (t : Trap) (s : Stack) : Machine :=
  if t = .reserved then ({ m with stack := s }).report (.reserved o m.memory.size)
  else { m with stack := s }

variable {m m' m'' : Machine} {limit : Option Nat}

theorem filter_eq_none_iff {n : Nat} : limit.filter (· ≤ n) = none ↔ ∀ b ∈ limit, n < b := by
  simp [Option.filter_eq_none_iff]

theorem filter_eq_some_iff {n b : Nat} :
    limit.filter (· ≤ n) = some b ↔ limit = some b ∧ b ≤ n := by
  simp [Option.filter_eq_some_iff]

theorem current?_eq {t : Token} {rest : Program} (h : m.cursor.ahead = t :: rest) :
    m.cursor.current? = some t := by
  simp [Cursor.current?, h]

theorem perform_eq_fail {o : Opcode} {rest : Program} {t : Trap} {s : Stack}
    (ha : m.cursor.ahead = .op o :: rest) (ht : (o.effect rest.head?).run m.stack = .error t s) :
    m.perform o = .fail (.ofTrap m.cursor.position o t) (m.trapped o t s) := by
  have hc : m.cursor.advance.current? = rest.head? := by simp [Cursor.current?, ha]
  unfold perform
  rw [hc, ht]
  cases t <;> rfl

theorem skip_tokens (c : Cursor) (i : Instruction) {rest : Program}
    (h : c.ahead = i.tokens ++ rest) :
    skip c i.opcode = ⟨c.position + i.tokens.length, rest⟩ := by
  obtain ⟨n, ahead⟩ := c
  subst h
  cases i with
  | plain o ho => cases o <;> first | exact absurd rfl ho | rfl
  | push v => rfl

theorem perform_eq_next {i : Instruction} {rest : Program} {s : Stack}
    (ha : m.cursor.ahead = i.tokens ++ rest) (hs : i.act.run m.stack = .ok () s) :
    m.perform i.opcode =
      .next { m with stack := s, cursor := ⟨m.cursor.position + i.tokens.length, rest⟩ } := by
  have hc : m.cursor.advance.current? = (i.literals.map Token.data ++ rest).head? := by
    simp [Cursor.current?, ha, Instruction.tokens]
  unfold perform
  rw [hc, i.effect_opcode, hs, skip_tokens m.cursor i ha]

/-- **A turn completes** exactly if an instruction stands under the cursor, the limit leaves room
for it and it does not trap. -/
theorem step_eq_next_iff :
    m.step limit = .next m' ↔ ∃ i rest s, m.cursor.ahead = i.tokens ++ rest ∧
      (∀ b ∈ limit, m.steps < b) ∧ i.act.run m.stack = .ok () s ∧ m' = m.complete i rest s := by
  constructor
  · intro h
    unfold step at h
    split at h
    · cases h
    · cases h
    next o ho =>
    split at h
    · cases h
    next hl =>
    obtain ⟨rest, ha⟩ := List.head?_eq_some_iff.1 ho
    rcases he : (o.effect rest.head?).run m.stack with ⟨⟨⟩, s⟩ | ⟨t, s⟩
    · obtain ⟨i, tail, hi, rfl, hs⟩ := o.exists_instruction_of_effect he
      rw [hi] at ha
      rw [perform_eq_next (m := m.charge i.opcode) ha hs] at h
      exact ⟨i, tail, s, ha, filter_eq_none_iff.1 hl, hs, (Turn.next.inj h).symm⟩
    · rw [perform_eq_fail (m := m.charge o) ha he] at h
      cases h
  · rintro ⟨i, rest, s, ha, hl, hs, rfl⟩
    unfold step
    rw [current?_eq ha, filter_eq_none_iff.2 hl]
    exact perform_eq_next (m := m.charge i.opcode) ha hs

theorem step_eq_halt_iff : m.step limit = .halt ↔ m.cursor.ahead = [] := by
  constructor
  · intro h
    unfold step at h
    split at h
    next hc => exact List.head?_eq_none_iff.1 hc
    · cases h
    · split at h
      · cases h
      next o _ _ _ =>
      unfold perform at h
      split at h <;> cases h
  · intro h
    simp [step, Cursor.current?, h]

/-- **A turn fails** at a literal, at the limit or in a trap; only the trap is of an instruction
that was dispatched. -/
theorem step_eq_fail_iff {e : RuntimeError} :
    m.step limit = .fail e m' ↔
      (∃ v rest, m.cursor.ahead = .data v :: rest ∧ e = .invalidOpcode m.cursor.position ∧
        m' = m) ∨
      (∃ o rest b, m.cursor.ahead = .op o :: rest ∧ limit = some b ∧ b ≤ m.steps ∧
        e = .stepLimitExceeded b ∧ m' = m) ∨
      (∃ o rest t s, m.cursor.ahead = .op o :: rest ∧ (∀ b ∈ limit, m.steps < b) ∧
        o.Traps rest.head? m.stack t s ∧ e = .ofTrap m.cursor.position o t ∧
        m' = (m.charge o).trapped o t s) := by
  constructor
  · intro h
    unfold step at h
    split at h
    · cases h
    · next v hv =>
      obtain ⟨rest, ha⟩ := List.head?_eq_some_iff.1 hv
      cases h
      exact .inl ⟨v, rest, ha, rfl, rfl⟩
    next o ho =>
    obtain ⟨rest, ha⟩ := List.head?_eq_some_iff.1 ho
    split at h
    · next b hb =>
      obtain ⟨hl, hle⟩ := filter_eq_some_iff.1 hb
      cases h
      exact .inr (.inl ⟨o, rest, b, ha, hl, hle, rfl, rfl⟩)
    next hl =>
    rcases he : (o.effect rest.head?).run m.stack with ⟨⟨⟩, s⟩ | ⟨t, s⟩
    · obtain ⟨i, tail, hi, rfl, hs⟩ := o.exists_instruction_of_effect he
      rw [hi] at ha
      rw [perform_eq_next (m := m.charge i.opcode) ha hs] at h
      cases h
    · rw [perform_eq_fail (m := m.charge o) ha he] at h
      cases h
      exact .inr (.inr ⟨o, rest, t, s, ha, filter_eq_none_iff.1 hl, Opcode.traps_of_effect he,
        rfl, rfl⟩)
  · rintro (⟨v, rest, ha, rfl, rfl⟩ | ⟨o, rest, b, ha, hl, hb, rfl, rfl⟩ |
      ⟨o, rest, t, s, ha, hl, ht, rfl, rfl⟩)
    · simp [step, current?_eq ha]
    · unfold step
      rw [current?_eq ha, filter_eq_some_iff.2 ⟨hl, hb⟩]
    · unfold step
      rw [current?_eq ha, filter_eq_none_iff.2 hl]
      exact perform_eq_fail (m := m.charge o) ha (Opcode.effect_of_traps ht)

@[simp] theorem stack_trapped (o : Opcode) (t : Trap) (s : Stack) :
    (m.trapped o t s).stack = s := by
  unfold trapped
  split <;> rfl

@[simp] theorem steps_trapped (o : Opcode) (t : Trap) (s : Stack) :
    (m.trapped o t s).steps = m.steps := by
  unfold trapped
  split <;> rfl

@[simp] theorem cursor_trapped (o : Opcode) (t : Trap) (s : Stack) :
    (m.trapped o t s).cursor = m.cursor := by
  unfold trapped
  split <;> rfl

@[simp] theorem memory_trapped (o : Opcode) (t : Trap) (s : Stack) :
    (m.trapped o t s).memory = m.memory := by
  unfold trapped
  split <;> rfl

theorem memory_of_step_fail {e : RuntimeError} (h : m.step limit = .fail e m') :
    m'.memory = m.memory := by
  obtain ⟨_, _, _, _, rfl⟩ | ⟨_, _, _, _, _, _, _, rfl⟩ | ⟨o, _, t, s, _, _, _, _, rfl⟩ :=
    step_eq_fail_iff.1 h
  · rfl
  · rfl
  · exact memory_trapped o t s

theorem step_ends {e : RuntimeError} (h : m.step limit = .fail e m') :
    Ends limit m.steps m.cursor.position m.stack m.cursor.ahead m'.steps
      (.error ⟨e, m'.stack⟩) := by
  obtain ⟨v, rest, ha, rfl, rfl⟩ | ⟨o, rest, b, ha, hl, hb, rfl, rfl⟩ |
    ⟨o, rest, t, s, ha, hl, ht, rfl, rfl⟩ := step_eq_fail_iff.1 h
  · rw [ha]
    exact .literal v rest
  · rw [ha]
    exact .stepLimit o rest hl hb
  · rw [ha, steps_trapped, stack_trapped]
    exact .trap hl ht

theorem step_of_ends {d : Nat} {f : Failure}
    (h : Ends limit m.steps m.cursor.position m.stack m.cursor.ahead d (.error f)) :
    ∃ m', m.step limit = .fail f.error m' ∧ m'.stack = f.stack ∧ m'.steps = d := by
  generalize ha : m.cursor.ahead = ahead at h
  cases h with
  | literal v rest => exact ⟨m, step_eq_fail_iff.2 (.inl ⟨v, rest, ha, rfl, rfl⟩), rfl, rfl⟩
  | stepLimit o rest hl hb =>
    exact ⟨m, step_eq_fail_iff.2 (.inr (.inl ⟨o, rest, _, ha, hl, hb, rfl, rfl⟩)), rfl, rfl⟩
  | @trap o rest t s hl ht =>
    exact ⟨_, step_eq_fail_iff.2 (.inr (.inr ⟨o, rest, t, s, ha, hl, ht, rfl, rfl⟩)),
      stack_trapped .., steps_trapped ..⟩

/-! ## Several turns -/

/-- Under this limit, instructions are completed one after the other and lead from machine to
machine. -/
inductive Completes (limit : Option Nat) : Machine → List Instruction → Machine → Prop
  | nil (m : Machine) : Completes limit m [] m
  | cons {m m' : Machine} {i : Instruction} {is : List Instruction} {rest : Program} {s : Stack} :
      m.cursor.ahead = i.tokens ++ rest → (∀ b ∈ limit, m.steps < b) →
      i.act.run m.stack = .ok () s → Completes limit (m.complete i rest s) is m' →
      Completes limit m (i :: is) m'

namespace Completes

variable {is : List Instruction}

theorem ahead (h : Completes limit m is m') :
    m.cursor.ahead = Program.ofInstructions is ++ m'.cursor.ahead := by
  induction h with
  | nil => rfl
  | cons ha _ _ _ ih => rw [ha, Program.ofInstructions_cons, List.append_assoc, ← ih]; rfl

theorem position (h : Completes limit m is m') :
    m'.cursor.position = m.cursor.position + (Program.ofInstructions is).length := by
  induction h with
  | nil => rfl
  | cons _ _ _ _ ih =>
    rw [ih, Program.ofInstructions_cons, List.length_append, ← Nat.add_assoc]
    rfl

theorem steps (h : Completes limit m is m') : m'.steps = m.steps + is.length := by
  induction h with
  | nil => rfl
  | cons _ _ _ _ ih =>
    rw [ih, List.length_cons, Nat.add_comm _ 1, ← Nat.add_assoc]
    rfl

theorem memory (h : Completes limit m is m') : m'.memory = m.memory := by
  induction h with
  | nil => rfl
  | cons _ _ _ _ ih => rw [ih]; rfl

theorem acts (h : Completes limit m is m') : (actAll is).run m.stack = .ok () m'.stack := by
  induction h with
  | nil => rfl
  | cons _ _ hs _ ih => exact actAll_cons_eq_ok.2 ⟨_, hs, ih⟩

theorem within (h : Completes limit m is m') {b : Nat} (hb : b ∈ limit) (hm : m.steps ≤ b) :
    m'.steps ≤ b := by
  induction h with
  | nil => exact hm
  | cons _ hl _ _ ih => exact ih (hl b hb)

/-- **The run goes on** from where the completed instructions lead. -/
theorem run (h : Completes limit m is m') : m.run limit = m'.run limit := by
  induction h with
  | nil => rfl
  | cons ha hl hs _ ih =>
    rw [run_of_next (step_eq_next_iff.2 ⟨_, _, _, ha, hl, hs, rfl⟩), ih]

end Completes

/-- **Instructions are completed from every machine** that has them ahead, a stack on which they
act and room for them under the limit. -/
theorem exists_completes {is : List Instruction} {rest : Program} {s : Stack}
    (ha : m.cursor.ahead = Program.ofInstructions is ++ rest)
    (hl : ∀ b ∈ limit, m.steps + is.length ≤ b) (hs : (actAll is).run m.stack = .ok () s) :
    ∃ m', Completes limit m is m' ∧ m'.cursor.ahead = rest ∧ m'.stack = s := by
  induction is generalizing m with
  | nil => exact ⟨m, .nil m, ha, actAll_nil_eq_ok.1 hs⟩
  | cons i is ih =>
    obtain ⟨u, hi, hu⟩ := actAll_cons_eq_ok.1 hs
    rw [Program.ofInstructions_cons, List.append_assoc] at ha
    have hroom : ∀ b ∈ limit, m.steps < b := by
      intro b hb
      have := hl b hb
      rw [List.length_cons] at this
      omega
    have hnext : ∀ b ∈ limit, (m.complete i (Program.ofInstructions is ++ rest) u).steps +
        is.length ≤ b := by
      intro b hb
      have := hl b hb
      rw [List.length_cons] at this
      show m.steps + 1 + is.length ≤ b
      omega
    obtain ⟨m', hc, hr, ht⟩ := ih rfl hnext hu
    exact ⟨m', .cons ha hroom hi hc, hr, ht⟩

/-- **Every run completes some instructions and then halts or fails.** -/
theorem exists_completes_run (m : Machine) (limit : Option Nat) :
    ∃ is m', Completes limit m is m' ∧
      (m'.step limit = .halt ∧ m.run limit = (m', none) ∨
        ∃ e m'', m'.step limit = .fail e m'' ∧ m.run limit = (m'', some e)) := by
  fun_induction run m limit with
  | case1 m m' h _ ih =>
    obtain ⟨is, m₁, hc, hr⟩ := ih
    obtain ⟨i, rest, s, ha, hl, hs, rfl⟩ := step_eq_next_iff.1 h
    exact ⟨i :: is, m₁, .cons ha hl hs hc, hr⟩
  | case2 m h => exact ⟨[], m, .nil m, .inl ⟨h, rfl⟩⟩
  | case3 m e m' h => exact ⟨[], m, .nil m, .inr ⟨e, m', h, rfl⟩⟩

end Machine

/-! ## Dispatches -/

/-- Whether an event is the dispatch of an instruction. -/
def Event.isDispatch : Event → Bool
  | .dispatched .. => true
  | _ => false

/-- How many instructions a run dispatched. -/
def Outcome.dispatches (o : Outcome) : Nat := o.events.countP Event.isDispatch

namespace Machine

variable {m m' : Machine} {limit : Option Nat}

/-- As many steps were charged as dispatches reported. -/
def Tallied (m : Machine) : Prop := m.log.countP Event.isDispatch = m.steps

theorem Tallied.charge (h : m.Tallied) (o : Opcode) : (m.charge o).Tallied := by
  unfold Tallied Machine.charge Machine.report
  rw [List.countP_cons_of_pos rfl, h]

theorem Tallied.trapped (h : m.Tallied) (o : Opcode) (t : Trap) (s : Stack) :
    (m.trapped o t s).Tallied := by
  unfold Machine.trapped
  split
  · exact (List.countP_cons_of_neg (by simp [Event.isDispatch])).trans h
  · exact h

theorem Completes.tallied {is : List Instruction} (h : Completes limit m is m')
    (hm : m.Tallied) : m'.Tallied := by
  induction h with
  | nil => exact hm
  | @cons m _ i _ _ _ _ _ _ _ ih => exact ih (hm.charge i.opcode)

theorem Tallied.step_fail {e : RuntimeError} (hm : m.Tallied) (h : m.step limit = .fail e m') :
    m'.Tallied := by
  obtain ⟨_, _, _, _, rfl⟩ | ⟨_, _, _, _, _, _, _, rfl⟩ | ⟨o, _, t, s, _, _, _, _, rfl⟩ :=
    step_eq_fail_iff.1 h
  · exact hm
  · exact hm
  · exact (hm.charge o).trapped o t s

theorem Tallied.run (hm : m.Tallied) (limit : Option Nat) : (m.run limit).1.Tallied := by
  obtain ⟨is, m', hc, ⟨_, hr⟩ | ⟨e, m'', hs, hr⟩⟩ := exists_completes_run m limit
  · rw [hr]
    exact hc.tallied hm
  · rw [hr]
    exact (hc.tallied hm).step_fail hs

/-- The result of a run that leaves this machine and this error. -/
def result : Machine × Option RuntimeError → Except Failure Stack
  | (m, none) => .ok m.stack
  | (m, some e) => .error ⟨e, m.stack⟩

end Machine

/-! ## Runs of programs -/

namespace Program

/-- A run of `p` on the stack `s₀` with `d` dispatches and the result `r`, by the instructions that
it completes and the way it ends after them. -/
def Exec (p : Program) (s₀ : Stack) (limit : Option Nat) (d : Nat) (r : Except Failure Stack) :
    Prop :=
  ∃ is rest s, p = ofInstructions is ++ rest ∧ (actAll is).run s₀ = .ok () s ∧
    (∀ b ∈ limit, is.length ≤ b) ∧ Ends limit is.length (ofInstructions is).length s rest d r

variable (p : Program) (s₀ : Stack) (memory : Memory) (call : Call) (limit : Option Nat)

theorem result_runOn :
    (p.runOn s₀ memory call limit).result =
      Machine.result ((Machine.start p s₀ memory).run limit) := by
  unfold runOn
  rcases (Machine.start p s₀ memory).run limit with ⟨m, _ | e⟩
  · rfl
  · rfl

theorem dispatches_runOn :
    (p.runOn s₀ memory call limit).dispatches =
      ((Machine.start p s₀ memory).run limit).1.steps := by
  have ht : (Machine.start p s₀ memory).Tallied := rfl
  rw [← ht.run limit]
  unfold runOn Outcome.dispatches
  rcases (Machine.start p s₀ memory).run limit with ⟨m, _ | e⟩
  · simp [Machine.report, Event.isDispatch]
  · simp [Machine.report, Event.isDispatch]

/-- **The caller gets the memory back** as it was. -/
theorem memory_runOn : (p.runOn s₀ memory call limit).memory = memory := by
  have hm : (p.runOn s₀ memory call limit).memory =
      ((Machine.start p s₀ memory).run limit).1.memory := by
    unfold runOn
    rcases (Machine.start p s₀ memory).run limit with ⟨m, _ | e⟩
    · rfl
    · rfl
  rw [hm]
  obtain ⟨is, m, hc, ⟨-, hr⟩ | ⟨e, m', hs, hr⟩⟩ :=
    Machine.exists_completes_run (Machine.start p s₀ memory) limit
  · rw [hr]
    exact hc.memory
  · rw [hr]
    exact (Machine.memory_of_step_fail hs).trans hc.memory

/-- **Every run** is of the form `Exec`. -/
theorem exec_runOn :
    p.Exec s₀ limit (p.runOn s₀ memory call limit).dispatches
      (p.runOn s₀ memory call limit).result := by
  obtain ⟨is, m, hc, hr⟩ := Machine.exists_completes_run (Machine.start p s₀ memory) limit
  have hsteps : m.steps = is.length := hc.steps.trans (Nat.zero_add _)
  have hpos : m.cursor.position = (ofInstructions is).length := hc.position.trans (Nat.zero_add _)
  refine ⟨is, m.cursor.ahead, m.stack, hc.ahead, hc.acts,
    fun b hb => hsteps ▸ hc.within hb (Nat.zero_le b), ?_⟩
  rw [dispatches_runOn, result_runOn, ← hsteps, ← hpos]
  obtain ⟨hs, hr⟩ | ⟨e, m', hs, hr⟩ := hr
  · rw [hr, Machine.step_eq_halt_iff.1 hs]
    exact .finished
  · rw [hr]
    exact Machine.step_ends hs

variable {p s₀ memory call limit}

theorem exec_of_result {r : Except Failure Stack}
    (h : (p.runOn s₀ memory call limit).result = r) : ∃ d, p.Exec s₀ limit d r :=
  ⟨_, h ▸ exec_runOn p s₀ memory call limit⟩

variable (memory call)

/-- **The form determines the run**, whatever the memory and the call. -/
theorem Exec.runOn {d : Nat} {r : Except Failure Stack} (h : p.Exec s₀ limit d r) :
    (p.runOn s₀ memory call limit).result = r ∧ (p.runOn s₀ memory call limit).dispatches = d := by
  obtain ⟨is, rest, s, ha, hs, hl, he⟩ := h
  obtain ⟨m, hc, hrest, hstack⟩ := Machine.exists_completes (m := Machine.start p s₀ memory) ha
    (fun b hb => (Nat.zero_add is.length).symm ▸ hl b hb) hs
  have hsteps : m.steps = is.length := hc.steps.trans (Nat.zero_add _)
  have hpos : m.cursor.position = (ofInstructions is).length := hc.position.trans (Nat.zero_add _)
  rw [← hsteps, ← hpos, ← hrest, ← hstack] at he
  rw [dispatches_runOn, result_runOn]
  rcases r with f | s'
  · obtain ⟨m', hf, hs', hd⟩ := Machine.step_of_ends he
    rw [hc.run.trans (Machine.run_of_fail hf), Machine.result, hs']
    exact ⟨rfl, hd⟩
  · generalize ha' : m.cursor.ahead = ahead at he
    cases he
    rw [hc.run.trans (Machine.run_of_halt (Machine.step_eq_halt_iff.2 ha'))]
    exact ⟨rfl, rfl⟩

theorem Exec.unique {d d' : Nat} {r r' : Except Failure Stack} (h : p.Exec s₀ limit d r)
    (h' : p.Exec s₀ limit d' r') : d = d' ∧ r = r' := by
  obtain ⟨hr, hd⟩ := h.runOn (.zeroed 0) {}
  obtain ⟨hr', hd'⟩ := h'.runOn (.zeroed 0) {}
  exact ⟨hd.symm.trans hd', hr.symm.trans hr'⟩

/-- The completed instructions succeed by themselves, without a limit. -/
theorem exec_ofInstructions {is : List Instruction} {s₀ s : Stack}
    (hs : (actAll is).run s₀ = .ok () s) :
    (ofInstructions is).Exec s₀ none is.length (.ok s) := by
  refine ⟨is, [], s, ?_, hs, ?_, .finished⟩
  · rw [List.append_nil]
  · intro b hb
    cases hb

theorem run_ofInstructions {is : List Instruction} {s₀ s : Stack}
    (hs : (actAll is).run s₀ = .ok () s) (memory : Memory) (call : Call) :
    ((ofInstructions is).runOn s₀ memory call none).result = .ok s ∧
      ((ofInstructions is).runOn s₀ memory call none).dispatches = is.length :=
  (exec_ofInstructions hs).runOn memory call

end Program

end StackVM
