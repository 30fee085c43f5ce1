import StackVM.Proofs.Depth
import StackVM.Proofs.Phases

/-!
# Bounds of the dispatch loop

In every phase of a loop over a program the cursor stands in it (`Cursor.IsIn`), the steps are
within the limit, and the stack is no deeper than the steps (`Machine.InBounds`). At the head of the
loop the steps are no more than the tokens behind the cursor. A step that has been charged is one
ahead of them until the loop has moved the cursor on, and until the handler is done there is room on
the stack for one word more: `Phase.Invariant` says so for each phase, and `Phase.Invariant.next` is
its step lemma.

`Machine.phases_bounded` puts the bounds together with the way that the cursor makes: forward in
every turn, so that the loop ends.
-/

set_option autoImplicit false

namespace StackVM

/-! ## The cursor -/

namespace Cursor

variable {c : Cursor} {p : Program}

/-- As many tokens of `p` are behind the cursor as its position says, and the others are ahead. -/
def IsIn (c : Cursor) (p : Program) : Prop :=
  ∃ behind, p = behind ++ c.ahead ∧ c.position = behind.length

theorem isIn_start (p : Program) : (start p).IsIn p := ⟨[], rfl, rfl⟩

theorem IsIn.advance (h : c.IsIn p) : c.advance.IsIn p := by
  rcases c with ⟨n, _ | ⟨t, ts⟩⟩
  · exact h
  · obtain ⟨behind, hp, hn⟩ := h
    refine ⟨behind ++ [t], ?_, ?_⟩
    · rw [hp, List.append_assoc]
      rfl
    · rw [List.length_append, ← hn]
      rfl

theorem IsIn.handle (h : c.IsIn p) (o : Opcode) : (c.handle o).IsIn p := by
  cases o with
  | push => exact h.advance
  | _ => exact h

theorem IsIn.position_le (h : c.IsIn p) : c.position ≤ p.length := by
  obtain ⟨behind, hp, hn⟩ := h
  rw [hp, hn, List.length_append]
  exact Nat.le_add_right _ _

/-- The token under the cursor is the one that its position counts to. -/
theorem IsIn.getElem?_position (h : c.IsIn p) : p[c.position]? = c.current? := by
  obtain ⟨behind, hp, hn⟩ := h
  rw [hp, hn, List.getElem?_append_right (Nat.le_refl _), Nat.sub_self, current?,
    List.head?_eq_getElem?]

theorem IsIn.position_lt {t : Token} (h : c.IsIn p) (hc : c.current? = some t) :
    c.position < p.length := by
  rw [← h.getElem?_position] at hc
  exact (List.getElem?_eq_some_iff.1 hc).1

theorem position_advance_of_ne (h : c.ahead ≠ []) : c.advance.position = c.position + 1 := by
  rcases c with ⟨n, _ | ⟨t, ts⟩⟩
  · exact absurd rfl h
  · rfl

theorem position_le_advance (c : Cursor) : c.position ≤ c.advance.position := by
  rcases c with ⟨n, _ | ⟨t, ts⟩⟩
  · exact Nat.le_refl _
  · exact Nat.le_succ _

theorem position_le_handle (c : Cursor) (o : Opcode) : c.position ≤ (c.handle o).position := by
  cases o with
  | push => exact c.position_le_advance
  | _ => exact Nat.le_refl _

theorem ahead_ne_nil_of_current? {t : Token} (h : c.current? = some t) : c.ahead ≠ [] := by
  intro hnil
  rw [current?, hnil] at h
  cases h

end Cursor

/-! ## The stack -/

theorem Opcode.gain_le_one (o : Opcode) : o.gain ≤ 1 := by
  cases o <;> decide

/-- An opcode that completes leaves one word more at the most. -/
theorem Opcode.size_le_of_effect {o : Opcode} {next? : Option Token} {s t : Stack}
    (h : (o.effect next?).run s = .ok () t) : t.size ≤ s.size + 1 := by
  have hgain := o.gains_effect next? h
  have hone := o.gain_le_one
  omega

/-- A trap leaves no more words than the opcode found. -/
theorem Opcode.Traps.size_le {o : Opcode} {next? : Option Token} {s s' : Stack} {t : Trap}
    (h : o.Traps next? s t s') : s'.size ≤ s.size := by
  cases h with
  | stackUnderflow => exact Nat.zero_le _
  | divisionByZero _ hs =>
    rw [hs, Stack.size_push, Stack.size_push]
    omega
  | missingLiteral => exact Nat.le_refl _
  | reserved => exact Nat.le_refl _

/-- A `PUSH` that completes stands on its literal by then, any other opcode on itself. -/
theorem Opcode.ahead_handle_ne_nil {o : Opcode} {c : Cursor} {s t : Stack}
    (hc : c.current? = some (.op o)) (h : (o.effect (c.handle o).current?).run s = .ok () t) :
    (c.handle o).ahead ≠ [] := by
  cases o with
  | push =>
    rcases hnext : (c.handle .push).current? with _ | t
    · rw [hnext] at h
      cases h
    · exact Cursor.ahead_ne_nil_of_current? hnext
  | _ => exact Cursor.ahead_ne_nil_of_current? hc

/-! ## The invariant -/

/-- What holds of the machine in every phase of a loop over `p`. -/
structure Machine.InBounds (p : Program) (limit : Option Nat) (m : Machine) : Prop where
  cursor_isIn : m.cursor.IsIn p
  steps_le : m.steps ≤ p.length
  steps_le_limit : ∀ b ∈ limit, m.steps ≤ b
  size_le : m.stack.size ≤ m.steps

namespace Phase

/-- What holds in a phase of a loop over `p`. -/
def Invariant (p : Program) (limit : Option Nat) : Phase → Prop
  | head m => m.InBounds p limit ∧ m.steps ≤ m.cursor.position
  | charged o m => m.InBounds p limit ∧ m.cursor.current? = some (.op o) ∧
      m.steps ≤ m.cursor.position + 1 ∧ m.stack.size < m.steps
  | handled m => m.InBounds p limit ∧ m.cursor.ahead ≠ [] ∧ m.steps ≤ m.cursor.position + 1
  | ended m _ => m.InBounds p limit

variable {p : Program} {limit : Option Nat} {m : Machine} {ph : Phase}

/-- The head of the loop: it ends there or charges the opcode under the cursor. -/
theorem Invariant.next_head (h : (head m).Invariant p limit) :
    ((head m).next limit).Invariant p limit := by
  obtain ⟨hm, hsteps⟩ := h
  obtain ⟨error?, hnext⟩ | ⟨o, hc, hroom, hnext⟩ := next_head_cases m limit
  · rw [hnext]
    exact hm
  rw [hnext]
  have hcharge : m.steps < p.length := Nat.lt_of_le_of_lt hsteps (hm.cursor_isIn.position_lt hc)
  refine ⟨⟨hm.cursor_isIn, hcharge, hroom, Nat.le_succ_of_le hm.size_le⟩, hc, ?_, ?_⟩
  · exact Nat.succ_le_succ hsteps
  · exact Nat.lt_succ_of_le hm.size_le

/-- The handler: it completes, or a trap ends the loop. -/
theorem Invariant.next_charged {o : Opcode} (h : (charged o m).Invariant p limit) :
    ((charged o m).next limit).Invariant p limit := by
  obtain ⟨hm, hc, hsteps, hsize⟩ := h
  have hcursor := hm.cursor_isIn.handle o
  obtain ⟨s, he, hnext⟩ | ⟨t, s, ht, hnext⟩ := next_charged_cases o m limit
  · rw [hnext]
    have hgrowth : s.size ≤ m.steps := Nat.le_trans (Opcode.size_le_of_effect he) hsize
    refine ⟨⟨hcursor, hm.steps_le, hm.steps_le_limit, hgrowth⟩, ?_, ?_⟩
    · exact Opcode.ahead_handle_ne_nil hc he
    · exact Nat.le_trans hsteps (Nat.succ_le_succ (m.cursor.position_le_handle o))
  · rw [hnext]
    have hloss : s.size ≤ m.steps := Nat.le_trans ht.size_le (Nat.le_of_lt hsize)
    constructor
    · rw [Machine.cursor_trapped]
      exact hcursor
    · rw [Machine.steps_trapped]
      exact hm.steps_le
    · rw [Machine.steps_trapped]
      exact hm.steps_le_limit
    · rw [Machine.steps_trapped, Machine.stack_trapped]
      exact hloss

/-- **Each phase keeps the invariant.** -/
theorem Invariant.next (h : ph.Invariant p limit) : (ph.next limit).Invariant p limit := by
  cases ph with
  | head m => exact h.next_head
  | charged o m => exact h.next_charged
  | handled m =>
    obtain ⟨hm, hahead, hsteps⟩ := h
    refine ⟨⟨hm.cursor_isIn.advance, hm.steps_le, hm.steps_le_limit, hm.size_le⟩, ?_⟩
    exact Nat.le_trans hsteps (Nat.le_of_eq (Cursor.position_advance_of_ne hahead).symm)
  | ended m error? => exact h

theorem Invariant.inBounds (h : ph.Invariant p limit) : ph.machine.InBounds p limit := by
  cases ph with
  | head m => exact h.1
  | charged o m => exact h.1
  | handled m => exact h.1
  | ended m error? => exact h

/-! ## The way of the cursor -/

/-- **No phase moves the cursor back.** -/
theorem position_le_next (ph : Phase) (limit : Option Nat) :
    ph.machine.cursor.position ≤ (ph.next limit).machine.cursor.position := by
  cases ph with
  | head m =>
    obtain ⟨error?, hnext⟩ | ⟨o, -, -, hnext⟩ := next_head_cases m limit
    · rw [hnext]
      exact Nat.le_refl _
    · rw [hnext]
      exact Nat.le_refl _
  | charged o m =>
    obtain ⟨s, -, hnext⟩ | ⟨t, s, -, hnext⟩ := next_charged_cases o m limit
    · rw [hnext]
      exact m.cursor.position_le_handle o
    · rw [hnext]
      show _ ≤ (Machine.trapped _ o t s).cursor.position
      rw [Machine.cursor_trapped]
      exact m.cursor.position_le_handle o
  | handled m => exact m.cursor.position_le_advance
  | ended m error? => exact Nat.le_refl _

end Phase

namespace Machine

variable {m m' m'' : Machine} {limit : Option Nat}

/-- **Every phase of the loop** keeps the invariant. -/
theorem invariant_phase {p : Program} (h : (Phase.head m).Invariant p limit) (k : Nat) :
    (m.phase limit k).Invariant p limit := by
  induction k with
  | zero => exact h
  | succ k ih =>
    rw [phase_succ]
    exact ih.next

theorem invariant_start (p : Program) (memory : Memory) (limit : Option Nat) :
    (Phase.head (start p .empty memory)).Invariant p limit where
  left := {
    cursor_isIn := Cursor.isIn_start p
    steps_le := Nat.zero_le _
    steps_le_limit := fun _ _ => Nat.zero_le _
    size_le := Nat.le_refl _ }
  right := Nat.le_refl _

theorem position_phase_le (m : Machine) (limit : Option Nat) {i j : Nat} (h : i ≤ j) :
    (m.phase limit i).machine.cursor.position ≤ (m.phase limit j).machine.cursor.position := by
  induction h with
  | refl => exact Nat.le_refl _
  | step _ ih =>
    rw [phase_succ]
    exact Nat.le_trans ih (Phase.position_le_next _ _)

/-- **A turn that completes** moves the cursor behind the instruction: by two for a `PUSH`, by one
for any other opcode. -/
theorem position_of_step (h : m.step limit = .next m') :
    ∃ o, m.cursor.current? = some (.op o) ∧
      m'.cursor.position = m.cursor.position + if o = .push then 2 else 1 := by
  obtain ⟨i, rest, s, ha, -, -, rfl⟩ := step_eq_next_iff.1 h
  refine ⟨i.opcode, current?_eq ha, ?_⟩
  cases i with
  | plain o ho =>
    rw [Instruction.opcode, if_neg ho]
    rfl
  | push v => rfl

/-- **A later dispatch** is of a later token. -/
theorem position_lt_of_charged {p : Program} {i j : Nat} {o o' : Opcode}
    (hinv : (Phase.head m).Invariant p limit) (hij : i < j)
    (hi : m.phase limit i = .charged o m') (hj : m.phase limit j = .charged o' m'') :
    m'.cursor.position < m''.cursor.position := by
  obtain ⟨s, he, hnext⟩ | ⟨t, s, -, hnext⟩ := Phase.next_charged_cases o m' limit
  · -- The handler completes, so the next opcode is charged after the loop has moved the cursor on.
    have hhandled := (phase_succ m limit i).trans ((congrArg _ hi).trans hnext)
    have hhead := (phase_succ m limit (i + 1)).trans (congrArg _ hhandled)
    have hne : j ≠ i + 1 := by
      rintro rfl
      rw [hhandled] at hj
      cases hj
    have hc := (hi ▸ invariant_phase hinv i).2.1
    have hle := position_phase_le m limit (show i + 1 + 1 ≤ j by omega)
    rw [hhead, hj] at hle
    calc m'.cursor.position
      _ ≤ (m'.cursor.handle o).position := m'.cursor.position_le_handle o
      _ < (m'.cursor.handle o).advance.position := by
        rw [Cursor.position_advance_of_ne (Opcode.ahead_handle_ne_nil hc he)]
        exact Nat.lt_succ_self _
      _ ≤ m''.cursor.position := hle
  · -- A trap ends the loop, and nothing is charged after that.
    have hended := (phase_succ m limit i).trans ((congrArg _ hi).trans hnext)
    obtain ⟨l, rfl⟩ : ∃ l, j = i + 1 + l := ⟨j - (i + 1), by omega⟩
    rw [phase_of_ended hended] at hj
    cases hj

/-- **The dispatch loop stays within bounds.** In every phase the cursor is in the program, and no
more steps are charged than the program has tokens, so that a counter of 64 bits holds them, nor
than the limit allows; the stack has no more words than steps were charged. At the head, the steps
are no more than the tokens behind the cursor, and a turn that completes moves the cursor behind the
instruction. So no token is dispatched twice, and the loop ends, with what `run` leaves, after no
more turns than the program has tokens. -/
theorem phases_bounded (p : Program) (memory : Memory) (limit : Option Nat) :
    let m₀ := start p .empty memory
    (∀ k, let m := (m₀.phase limit k).machine
      m.cursor.position ≤ p.length ∧ m.steps ≤ p.length ∧ (∀ b ∈ limit, m.steps ≤ b) ∧
      m.stack.size ≤ m.steps ∧
      (p.length < UInt64.size → (UInt64.ofNat m.steps).toNat = m.steps)) ∧
    (∀ k m, m₀.phase limit k = .head m → m.steps ≤ m.cursor.position ∧
      ∀ m', (m₀.phase limit (k + 3) = .head m' ↔ m.step limit = .next m') ∧
        (m.step limit = .next m' → ∃ o, m.cursor.current? = some (.op o) ∧
          m'.cursor.position = m.cursor.position + if o = .push then 2 else 1)) ∧
    (∀ k o m, m₀.phase limit k = .charged o m → p[m.cursor.position]? = some (.op o)) ∧
    (∀ i j o o' m m', i < j → m₀.phase limit i = .charged o m →
      m₀.phase limit j = .charged o' m' → m.cursor.position < m'.cursor.position) ∧
    ∃ n ≤ p.length, m₀.EndsAfter limit n (m₀.run limit) ∧ ∃ k ≤ 3 * n + 1, ∃ c,
      m₀.phase limit k = .ended { (m₀.run limit).1 with cursor := c } (m₀.run limit).2 := by
  intro m₀
  have hstart := invariant_start p memory limit
  refine ⟨fun k => ?_, fun k m hk => ?_, fun k o m hk => ?_, fun i j o o' m m' hij hi hj => ?_, ?_⟩
  · have hm := (invariant_phase hstart k).inBounds
    refine ⟨hm.cursor_isIn.position_le, hm.steps_le, hm.steps_le_limit, hm.size_le, fun hp => ?_⟩
    exact UInt64.toNat_ofNat_of_lt' (Nat.lt_of_le_of_lt hm.steps_le hp)
  · have hm : (Phase.head m).Invariant p limit := hk ▸ invariant_phase hstart k
    refine ⟨hm.2, fun m' => ⟨?_, position_of_step⟩⟩
    rw [phase_add_of_head hk, phase_three_eq_head_iff]
  · have hm : (Phase.charged o m).Invariant p limit := hk ▸ invariant_phase hstart k
    rw [hm.1.cursor_isIn.getElem?_position, hm.2.1]
  · exact position_lt_of_charged hstart hij hi hj
  · obtain ⟨n, hn, hends⟩ := exists_endsAfter m₀ limit
    exact ⟨n, hn, hends, hends.phase⟩

-- A `PUSH` without a literal ends the loop with the cursor behind it, in the third phase.
example : ((start [.op .push] .empty (.zeroed 0)).phase none 2).machine.cursor.position = 1 := by
  rfl

end Machine

end StackVM
