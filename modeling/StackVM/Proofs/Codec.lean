import Mathlib.Data.Set.Function
import StackVM.Bytecode
import StackVM.Proofs.Instruction

/-!
# Reading back what is written

`Program.decode` inverts `Program.encode` on well-formed programs and on nothing else. Both
directions go by the instructions of the program: a stream that starts with the bytes of
instructions is read from behind them (`decodeFrom_encode_append`), and a stream that is accepted
is made of the bytes of instructions (`encode_of_decodeFrom`).
-/

set_option autoImplicit false

namespace StackVM.Program

theorem decodeFrom_tokens_append (i : Instruction) (offset : Nat) (done : Program)
    (bytes : List UInt8) :
    decodeFrom offset done (encode i.tokens ++ bytes) =
      decodeFrom (offset + (encode i.tokens).length) (i.tokens.reverse ++ done) bytes := by
  cases i with
  | plain o h => exact decodeFrom_op h
  | push v => exact decodeFrom_push

/-- **Complete instructions are read** whatever bytes follow them: the operand of a `PUSH` is taken
as a whole. -/
theorem decodeFrom_encode_append (is : List Instruction) (offset : Nat) (done : Program)
    (bytes : List UInt8) :
    decodeFrom offset done (encode (ofInstructions is) ++ bytes) =
      decodeFrom (offset + (encode (ofInstructions is)).length)
        ((ofInstructions is).reverse ++ done) bytes := by
  induction is generalizing offset done with
  | nil => rfl
  | cons i is ih =>
    rw [ofInstructions_cons, encode_append, List.append_assoc, decodeFrom_tokens_append, ih,
      List.length_append, List.reverse_append, List.append_assoc, Nat.add_assoc]

/-- **An accepted stream is made of instructions**, the bytes of which it holds. -/
theorem encode_of_decodeFrom {offset : Nat} {done p : Program} {bytes : List UInt8}
    (h : decodeFrom offset done bytes = .ok p) :
    ∃ is, p = done.reverse ++ ofInstructions is ∧ encode (ofInstructions is) = bytes := by
  fun_induction decodeFrom offset done bytes with
  | case1 offset done =>
    cases h
    exact ⟨[], by simp, rfl⟩
  | case2 => cases h
  | case3 offset done b rest o ho hwidth ih =>
    obtain ⟨is, rfl, hbytes⟩ := ih h
    obtain rfl := Opcode.byte_of_ofByte? ho
    refine ⟨.plain o (Opcode.operandWidth_eq_zero_iff.1 hwidth) :: is, by simp, ?_⟩
    simp [Token.bytes, hbytes]
  | case4 offset done b o ho hwidth w x y z rest ih =>
    obtain ⟨is, rfl, hbytes⟩ := ih h
    obtain rfl := Opcode.byte_of_ofByte? ho
    obtain rfl := Opcode.eq_push_of_operandWidth hwidth
    refine ⟨.push (.ofBytes w x y z) :: is, by simp, ?_⟩
    simp [Token.bytes, hbytes]
  | case5 => cases h

theorem decode_encode_ofInstructions (is : List Instruction) :
    decode (encode (ofInstructions is)) = .ok (ofInstructions is) := by
  have h := decodeFrom_encode_append is 0 [] []
  rw [List.append_nil] at h
  rw [decode, h]
  simp [decodeFrom]

/-- A stream is read as a program exactly if the program is well-formed and is written as that
stream. -/
theorem decode_eq_ok_iff {bytes : List UInt8} {p : Program} :
    decode bytes = .ok p ↔ p.WellFormed ∧ p.encode = bytes := by
  constructor
  · intro h
    obtain ⟨is, rfl, hbytes⟩ := encode_of_decodeFrom h
    exact ⟨wellFormed_ofInstructions is, hbytes⟩
  · rintro ⟨hw, rfl⟩
    obtain ⟨is, rfl⟩ := wellFormed_iff.1 hw
    exact decode_encode_ofInstructions is

/-- **Decoding is exact.** It accepts the streams of the well-formed programs and gives back the
program that was written; no other program survives the trip, and no two well-formed ones are
written alike. -/
theorem decode_exact :
    (∀ (bytes : List UInt8) (p : Program),
      decode bytes = .ok p ↔ p.WellFormed ∧ p.encode = bytes) ∧
    (∀ p : Program, decode p.encode = .ok p ↔ p.WellFormed) ∧
    Set.InjOn encode {p : Program | p.WellFormed} := by
  refine ⟨fun _ _ => decode_eq_ok_iff, fun p => ?_, ?_⟩
  · rw [decode_eq_ok_iff, and_iff_left rfl]
  · intro p hp q hq h
    have hd : decode p.encode = .ok p := decode_eq_ok_iff.2 ⟨hp, rfl⟩
    rw [h, decode_eq_ok_iff.2 ⟨hq, rfl⟩] at hd
    exact (Except.ok.inj hd).symm

end StackVM.Program
