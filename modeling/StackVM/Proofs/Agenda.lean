import StackVM.Proofs.Depth

/-!
# The agenda of a program

The agenda lists the dispatches of a run in which every instruction completes: each opcode with its
position and with the depth of the stack in front of it. It follows from the opcodes alone. Behind
instructions that complete, it says what the run finds there (`getElem?_agenda`); it goes forward
through the program (`pairwise_agenda`), and each entry stands for an opcode of the program
(`getElem?_of_mem_agenda`).
-/

set_option autoImplicit false

namespace StackVM

/-- The dispatch of an instruction, as it is reported. -/
structure Dispatch where
  position : Nat
  opcode : Opcode
  depth : Nat
  deriving DecidableEq, Repr

namespace Program

/-- The dispatches from position `n` on, in front of which the stack has the given depth, as if each
instruction completed. -/
def agenda (n : Nat) (depth : Int) : Program → List Dispatch
  | .op .push :: .data _ :: p => ⟨n, .push, depth.toNat⟩ :: agenda (n + 2) (depth + 1) p
  | .op o :: p => ⟨n, o, depth.toNat⟩ :: agenda (n + 1) (depth + o.gain) p
  | _ => []

variable {n : Nat} {depth : Int}

theorem agenda_tokens_append (i : Instruction) (p : Program) :
    agenda n depth (i.tokens ++ p) =
      ⟨n, i.opcode, depth.toNat⟩ :: agenda (n + i.tokens.length) (depth + i.opcode.gain) p := by
  cases i with
  | plain o h => cases o <;> first | exact absurd rfl h | rfl
  | push v => rfl

/-- An opcode is dispatched whatever stands after it. -/
theorem exists_agenda_op (n : Nat) (depth : Int) (o : Opcode) (p : Program) :
    ∃ later, agenda n depth (.op o :: p) = ⟨n, o, depth.toNat⟩ :: later := by
  unfold agenda
  split
  · next heq =>
    cases heq
    exact ⟨_, rfl⟩
  · next heq =>
    cases heq
    exact ⟨_, rfl⟩
  · next hop => exact absurd rfl (hop o p)

theorem length_agenda (is : List Instruction) :
    (agenda n depth (ofInstructions is)).length = is.length := by
  induction is generalizing n depth with
  | nil => rfl
  | cons i is ih =>
    rw [ofInstructions_cons, agenda_tokens_append, List.length_cons, ih, List.length_cons]

/-- **Behind instructions** the agenda goes on at their end and with what they gain. -/
theorem agenda_append (is : List Instruction) (p : Program) :
    agenda n depth (ofInstructions is ++ p) =
      agenda n depth (ofInstructions is) ++
        agenda (n + (ofInstructions is).length)
          (depth + ((is.map Instruction.opcode).map Opcode.gain).sum) p := by
  induction is generalizing n depth with
  | nil => simp [agenda]
  | cons i is ih =>
    rw [ofInstructions_cons, List.append_assoc, agenda_tokens_append, ih, agenda_tokens_append,
      List.length_append, List.map_cons, List.map_cons, List.sum_cons, ← Nat.add_assoc,
      ← Int.add_assoc]
    rfl

theorem map_opcode_agenda (is : List Instruction) :
    (agenda n depth (ofInstructions is)).map Dispatch.opcode = is.map Instruction.opcode := by
  induction is generalizing n depth with
  | nil => rfl
  | cons i is ih => rw [ofInstructions_cons, agenda_tokens_append, List.map_cons, ih, List.map_cons]

/-- The agenda of instructions is the front of the agenda of what they start. -/
theorem take_agenda_append (is : List Instruction) (p : Program) :
    (agenda n depth (ofInstructions is ++ p)).take is.length =
      agenda n depth (ofInstructions is) := by
  have hlen : (agenda n depth (ofInstructions is)).length = is.length := length_agenda is
  rw [agenda_append, ← hlen, List.take_left]

/-- **The opcode behind completed instructions** finds the stack that they leave. -/
theorem getElem?_agenda {is : List Instruction} {s s' : Stack} (hs : (actAll is).run s = .ok () s')
    (o : Opcode) (p : Program) :
    (agenda n s.size (ofInstructions is ++ .op o :: p))[is.length]? =
      some ⟨n + (ofInstructions is).length, o, s'.size⟩ := by
  have hdepth : (s.size + ((is.map Instruction.opcode).map Opcode.gain).sum : Int) = s'.size :=
    (gains_actAll is hs).symm
  have hlen : (agenda n s.size (ofInstructions is)).length = is.length := length_agenda is
  obtain ⟨later, hlater⟩ :=
    exists_agenda_op (n + (ofInstructions is).length) s'.size o p
  rw [agenda_append, hdepth, hlater, List.getElem?_append_right (Nat.le_of_eq hlen), hlen,
    Nat.sub_self]
  rfl

/-- **Each entry stands for an opcode** of the program. -/
theorem getElem?_of_mem_agenda {p : Program} {d : Dispatch} (h : d ∈ agenda n depth p) :
    n ≤ d.position ∧ p[d.position - n]? = some (.op d.opcode) := by
  fun_induction agenda n depth p with
  | case1 n depth v p ih =>
    rcases List.mem_cons.1 h with rfl | h
    · simp
    · obtain ⟨hle, hp⟩ := ih h
      refine ⟨by omega, ?_⟩
      rw [show d.position - n = d.position - (n + 2) + 1 + 1 by omega, List.getElem?_cons_succ,
        List.getElem?_cons_succ, hp]
  | case2 n depth o p _ ih =>
    rcases List.mem_cons.1 h with rfl | h
    · simp
    · obtain ⟨hle, hp⟩ := ih h
      refine ⟨by omega, ?_⟩
      rw [show d.position - n = d.position - (n + 1) + 1 by omega, List.getElem?_cons_succ, hp]
  | case3 => cases h

theorem pairwise_agenda (p : Program) :
    (agenda n depth p).Pairwise fun d e => d.position < e.position := by
  fun_induction agenda n depth p with
  | case1 n depth v p ih =>
    refine List.pairwise_cons.2 ⟨fun d hd => ?_, ih⟩
    have hle := (getElem?_of_mem_agenda hd).1
    show n < d.position
    omega
  | case2 n depth o p _ ih =>
    exact List.pairwise_cons.2 ⟨fun d hd => (getElem?_of_mem_agenda hd).1, ih⟩
  | case3 => exact .nil

end Program

end StackVM
