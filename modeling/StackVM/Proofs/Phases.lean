import Mathlib.Logic.Function.Iterate
import StackVM.Proofs.Exec

/-!
# The phases of a turn

A turn of the dispatch loop goes through phases: at the head of the loop it looks for an opcode and
charges it, then the handler of the opcode acts, then the loop moves the cursor on. So the cursor is
moved in two places, by the loop and, before that, by the handler of `PUSH`, which looks for its
literal from the new place. `Machine.step` does all of a turn at once; the phases show what stands
in between.

* `Phase.head_of_step`, `Phase.ended_of_halt`, `Phase.ended_of_fail`: the phases of a turn lead to
  where `Machine.step` leads, but that a `PUSH` without a literal ends with the cursor behind it.
  So three phases lead from head to head exactly if the turn completes (`phase_three_eq_head_iff`).
* `Machine.EndsAfter`: how many turns the loop begins. By `Machine.EndsAfter.phase`, the phases end
  with what `Machine.run` leaves.
-/

set_option autoImplicit false

namespace StackVM

/-- A state of the dispatch loop, by how far the turn has got. -/
inductive Phase where
  | head (m : Machine)
  | charged (o : Opcode) (m : Machine)
  | handled (m : Machine)
  | ended (m : Machine) (error? : Option RuntimeError)

/-- The cursor as the handler of an opcode leaves it: that of `PUSH` moves it on to the literal. -/
def Cursor.handle (c : Cursor) : Opcode → Cursor
  | .push => c.advance
  | _ => c

namespace Phase

def machine : Phase → Machine
  | head m | charged _ m | handled m | ended m _ => m

/-- The phase after this one. A loop that has ended stays as it is. -/
def next (limit : Option Nat) : Phase → Phase
  | head m =>
    match m.cursor.current? with
    | none => ended m none
    | some (.data _) => ended m (some (.invalidOpcode m.cursor.position))
    | some (.op o) =>
      match limit.filter (· ≤ m.steps) with
      | some bound => ended m (some (.stepLimitExceeded bound))
      | none => charged o (m.charge o)
  | charged o m =>
    match (o.effect (m.cursor.handle o).current?).run m.stack with
    | .ok _ stack => handled { m with stack, cursor := m.cursor.handle o }
    | .error trap stack =>
      ended ({ m with cursor := m.cursor.handle o }.trapped o trap stack)
        (some (.ofTrap m.cursor.position o trap))
  | handled m => head { m with cursor := m.cursor.advance }
  | ended m error? => ended m error?

end Phase

/-- The phase of the loop after `k` others, from the head with this machine on. -/
def Machine.phase (m : Machine) (limit : Option Nat) (k : Nat) : Phase :=
  (Phase.next limit)^[k] (.head m)

/-- From `m` on, the loop begins `n` turns, of which only the last one may fail, and leaves `r`. The
look at the end of the program is no turn. -/
inductive Machine.EndsAfter (limit : Option Nat) :
    Nat → Machine → Machine × Option RuntimeError → Prop
  | halt {m : Machine} : m.step limit = .halt → EndsAfter limit 0 m (m, none)
  | fail {m m' : Machine} {e : RuntimeError} : m.step limit = .fail e m' →
      EndsAfter limit 1 m (m', some e)
  | next {n : Nat} {m m' : Machine} {r : Machine × Option RuntimeError} :
      m.step limit = .next m' → EndsAfter limit n m' r → EndsAfter limit (n + 1) m r

/-! ## Where the handler leaves the cursor -/

namespace Cursor

variable (c : Cursor) (o : Opcode)

theorem advance_handle : (c.handle o).advance = Machine.skip c o := by
  cases o <;> rfl

/-- Only `PUSH` looks at a token, and at the one after it. -/
theorem effect_current?_handle :
    o.effect (c.handle o).current? = o.effect c.advance.current? := by
  cases o <;> rfl

end Cursor

/-! ## From phase to phase -/

namespace Phase

variable {m m' : Machine} {limit : Option Nat} {o : Opcode} {e : RuntimeError}

theorem next_head_of_none (hc : m.cursor.current? = none) :
    (head m).next limit = ended m none := by
  simp only [next, hc]

theorem next_head_of_data {v : Word} (hc : m.cursor.current? = some (.data v)) :
    (head m).next limit = ended m (some (.invalidOpcode m.cursor.position)) := by
  simp only [next, hc]

theorem next_head_of_limit {b : Nat} (hc : m.cursor.current? = some (.op o)) (hl : limit = some b)
    (hb : b ≤ m.steps) : (head m).next limit = ended m (some (.stepLimitExceeded b)) := by
  simp only [next, hc, Machine.filter_eq_some_iff.2 ⟨hl, hb⟩]

theorem next_head_of_op (hc : m.cursor.current? = some (.op o)) (hl : ∀ b ∈ limit, m.steps < b) :
    (head m).next limit = charged o (m.charge o) := by
  simp only [next, hc, Machine.filter_eq_none_iff.2 hl]

/-- **At the head** the loop ends with the machine as it is, or charges the opcode there. -/
theorem next_head_cases (m : Machine) (limit : Option Nat) :
    (∃ error?, (head m).next limit = ended m error?) ∨
      ∃ o, m.cursor.current? = some (.op o) ∧ (∀ b ∈ limit, m.steps < b) ∧
        (head m).next limit = charged o (m.charge o) := by
  rcases hc : m.cursor.current? with _ | ⟨o | v⟩
  · exact .inl ⟨_, next_head_of_none hc⟩
  · rcases hl : limit.filter (· ≤ m.steps) with _ | b
    · have hroom := Machine.filter_eq_none_iff.1 hl
      exact .inr ⟨o, rfl, hroom, next_head_of_op hc hroom⟩
    · obtain ⟨hlimit, hb⟩ := Machine.filter_eq_some_iff.1 hl
      exact .inl ⟨_, next_head_of_limit hc hlimit hb⟩
  · exact .inl ⟨_, next_head_of_data hc⟩

theorem next_charged_of_ok {s : Stack}
    (h : (o.effect (m.cursor.handle o).current?).run m.stack = .ok () s) :
    (charged o m).next limit = handled { m with stack := s, cursor := m.cursor.handle o } := by
  simp only [next, h]

theorem next_charged_of_error {t : Trap} {s : Stack}
    (h : (o.effect (m.cursor.handle o).current?).run m.stack = .error t s) :
    (charged o m).next limit =
      ended ({ m with cursor := m.cursor.handle o }.trapped o t s)
        (some (.ofTrap m.cursor.position o t)) := by
  simp only [next, h]

/-- **The handler** completes, or a trap ends the loop. -/
theorem next_charged_cases (o : Opcode) (m : Machine) (limit : Option Nat) :
    (∃ s, (o.effect (m.cursor.handle o).current?).run m.stack = .ok () s ∧
      (charged o m).next limit = handled { m with stack := s, cursor := m.cursor.handle o }) ∨
    ∃ t s, o.Traps (m.cursor.handle o).current? m.stack t s ∧
      (charged o m).next limit =
        ended ({ m with cursor := m.cursor.handle o }.trapped o t s)
          (some (.ofTrap m.cursor.position o t)) := by
  rcases he : (o.effect (m.cursor.handle o).current?).run m.stack with ⟨⟨⟩, s⟩ | ⟨t, s⟩
  · exact .inl ⟨s, rfl, next_charged_of_ok he⟩
  · exact .inr ⟨t, s, Opcode.traps_of_effect he, next_charged_of_error he⟩

@[simp] theorem next_handled :
    (handled m).next limit = head { m with cursor := m.cursor.advance } := rfl

@[simp] theorem next_ended (error? : Option RuntimeError) :
    (ended m error?).next limit = ended m error? := rfl

/-! ## A turn -/

/-- Only `PUSH` looks at the token after it. -/
theorem run_effect_handle {rest : Program} (h : m.cursor.ahead = .op o :: rest) :
    (o.effect (m.cursor.handle o).current?).run m.stack = (o.effect rest.head?).run m.stack := by
  rw [Cursor.effect_current?_handle, Cursor.current?, Cursor.ahead_advance, h, List.tail_cons]

/-- **A turn that completes** has three phases. The handler and the loop together move the cursor
behind the instruction. -/
theorem head_of_step (h : m.step limit = .next m') : m.phase limit 3 = head m' := by
  obtain ⟨i, rest, s, ha, hl, hs, rfl⟩ := Machine.step_eq_next_iff.1 h
  have heffect : (i.opcode.effect (m.cursor.handle i.opcode).current?).run m.stack = .ok () s := by
    rw [← i.effect_opcode rest] at hs
    exact (run_effect_handle ha).trans hs
  rw [Machine.phase, Function.iterate_succ_apply', Function.iterate_succ_apply',
    Function.iterate_one, next_head_of_op (Machine.current?_eq ha) hl,
    next_charged_of_ok (m := m.charge i.opcode) heffect, next_handled]
  unfold Machine.complete
  rw [← Machine.skip_tokens m.cursor i ha, ← Cursor.advance_handle]
  rfl

/-- **A turn that halts** ends the loop at its head. -/
theorem ended_of_halt (h : m.step limit = .halt) : m.phase limit 1 = ended m none :=
  next_head_of_none (List.head?_eq_none_iff.2 (Machine.step_eq_halt_iff.1 h))

/-- **A turn that fails** ends the loop at its head or in the handler, which may have moved the
cursor by then. -/
theorem ended_of_fail (h : m.step limit = .fail e m') :
    ∃ k ≤ 2, ∃ c, m.phase limit k = ended { m' with cursor := c } (some e) := by
  obtain ⟨v, rest, ha, rfl, rfl⟩ | ⟨o, rest, b, ha, hl, hb, rfl, rfl⟩ |
    ⟨o, rest, t, s, ha, hl, ht, rfl, rfl⟩ := Machine.step_eq_fail_iff.1 h
  · exact ⟨1, by decide, m'.cursor, next_head_of_data (Machine.current?_eq ha)⟩
  · exact ⟨1, by decide, m'.cursor, next_head_of_limit (Machine.current?_eq ha) hl hb⟩
  · have heffect : (o.effect (m.cursor.handle o).current?).run m.stack = .error t s := by
      rw [run_effect_handle ha, Opcode.effect_of_traps ht]
    refine ⟨2, Nat.le_refl _, m.cursor.handle o, ?_⟩
    rw [Machine.phase, Function.iterate_succ_apply', Function.iterate_one,
      next_head_of_op (Machine.current?_eq ha) hl, next_charged_of_error (m := m.charge o) heffect]
    unfold Machine.trapped
    split
    · rfl
    · rfl

end Phase

/-! ## The whole loop -/

namespace Machine

variable {m m' : Machine} {limit : Option Nat}

theorem phase_succ (m : Machine) (limit : Option Nat) (k : Nat) :
    m.phase limit (k + 1) = (m.phase limit k).next limit :=
  Function.iterate_succ_apply' _ _ _

/-- The phases go on from a head as if the loop started there. -/
theorem phase_add_of_head {k : Nat} (h : m.phase limit k = .head m') (l : Nat) :
    m.phase limit (k + l) = m'.phase limit l := by
  rw [Nat.add_comm, phase, Function.iterate_add_apply]
  exact congrArg _ h

/-- A loop that has ended stays so. -/
theorem phase_of_ended {k : Nat} {error? : Option RuntimeError}
    (h : m.phase limit k = .ended m' error?) (l : Nat) :
    m.phase limit (k + l) = .ended m' error? := by
  induction l with
  | zero => exact h
  | succ l ih => rw [← Nat.add_assoc, phase_succ, ih, Phase.next_ended]

/-- **From head to head** it is three phases, if the turn completes. -/
theorem phase_three_eq_head_iff : m.phase limit 3 = .head m' ↔ m.step limit = .next m' := by
  refine ⟨fun h => ?_, Phase.head_of_step⟩
  rcases hs : m.step limit with m₁ | _ | ⟨e, m₁⟩
  · rw [Phase.head_of_step hs] at h
    cases h
    rfl
  · rw [phase_of_ended (Phase.ended_of_halt hs) 2] at h
    cases h
  · obtain ⟨k, hk, c, he⟩ := Phase.ended_of_fail hs
    have hended := phase_of_ended he (3 - k)
    rw [Nat.add_sub_of_le (Nat.le_succ_of_le hk), h] at hended
    cases hended

/-- **The loop ends**: `run` begins no more turns than tokens are ahead. -/
theorem exists_endsAfter (m : Machine) (limit : Option Nat) :
    ∃ n ≤ m.cursor.ahead.length, EndsAfter limit n m (m.run limit) := by
  fun_induction run m limit with
  | case1 m m' h _ ih =>
    obtain ⟨n, hn, he⟩ := ih
    exact ⟨n + 1, Nat.lt_of_le_of_lt hn (ahead_lt_of_step h), .next h he⟩
  | case2 m h => exact ⟨0, Nat.zero_le _, .halt h⟩
  | case3 m e m' h =>
    refine ⟨1, List.length_pos_iff.2 fun hnil => ?_, .fail h⟩
    rw [step_eq_halt_iff.2 hnil] at h
    cases h

/-- **The phases end** as the turns do, after three for each turn and one more at the most. -/
theorem EndsAfter.phase {n : Nat} {r : Machine × Option RuntimeError} (h : EndsAfter limit n m r) :
    ∃ k ≤ 3 * n + 1, ∃ c, m.phase limit k = .ended { r.1 with cursor := c } r.2 := by
  induction h with
  | @halt m h => exact ⟨1, Nat.le_refl _, m.cursor, Phase.ended_of_halt h⟩
  | fail h =>
    obtain ⟨k, hk, c, he⟩ := Phase.ended_of_fail h
    exact ⟨k, by omega, c, he⟩
  | next h _ ih =>
    obtain ⟨k, hk, c, he⟩ := ih
    refine ⟨3 + k, by omega, c, ?_⟩
    rw [phase_add_of_head (Phase.head_of_step h), he]

end Machine

end StackVM
