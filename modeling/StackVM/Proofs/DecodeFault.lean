import StackVM.Proofs.Codec

/-!
# Where decoding fails

A byte stream that is no program is the stream of a well-formed program and a rest at whose first
byte no instruction starts (`Program.Fault`): a zero, a byte that no opcode has, or a `PUSH` that
the end of the stream leaves without its four bytes. The bytes of an operand are never looked at
for themselves.

* `fault_of_decodeFrom`, `decodeFrom_of_fault`: decoding fails at a fault and nowhere else.
* `Fault.eq_of_append_eq`: the program before a fault is determined by the stream.
* `exists_take_encode`: a stream that is cut ends between two instructions, or in an operand.
* `decode_encode_append`: what follows a program is decoded as it is alone, but for the offset of an
  operand that is cut.
-/

set_option autoImplicit false

namespace StackVM

/-- The error of a stream with `bytes` further bytes before it. -/
def DecodeError.after (bytes : Nat) : DecodeError → DecodeError
  | illegalOpcode => illegalOpcode
  | unknownOpcode b => unknownOpcode b
  | truncatedOperand offset expected found => truncatedOperand (bytes + offset) expected found

theorem DecodeError.after_ofByte (bytes : Nat) (b : UInt8) : (ofByte b).after bytes = ofByte b := by
  unfold ofByte
  split <;> rfl

theorem Opcode.ofByte?_eq_none_iff {b : UInt8} : ofByte? b = none ↔ ∀ o : Opcode, o.byte ≠ b := by
  simp [Option.eq_none_iff_forall_ne_some, ofByte?_eq_some_iff]

namespace Program

/-- Why no instruction starts at the first of these bytes, before which `offset` bytes stand. -/
inductive Fault (offset : Nat) : List UInt8 → DecodeError → Prop
  | illegal (rest : List UInt8) : Fault offset (0 :: rest) .illegalOpcode
  | unknown {b : UInt8} (rest : List UInt8) : b ≠ 0 → (∀ o : Opcode, o.byte ≠ b) →
      Fault offset (b :: rest) (.unknownOpcode b)
  | truncated {rest : List UInt8} : rest.length < 4 →
      Fault offset (Opcode.push.byte :: rest) (.truncatedOperand (offset + 1) 4 rest.length)

variable {offset n : Nat} {bytes rest rest' : List UInt8} {e e' : DecodeError}

/-! ## Faults -/

theorem fault_of_ofByte? {b : UInt8} (h : Opcode.ofByte? b = none) :
    Fault offset (b :: rest) (.ofByte b) := by
  by_cases hb : b = 0
  · subst hb
    exact .illegal rest
  · rw [DecodeError.ofByte, if_neg hb]
    exact .unknown rest hb (Opcode.ofByte?_eq_none_iff.1 h)

/-- **Decoding fails at a fault.** -/
theorem decodeFrom_of_fault (done : Program) (h : Fault offset bytes e) :
    decodeFrom offset done bytes = .error e := by
  cases h with
  | illegal rest => exact decodeFrom_none Opcode.ofByte?_zero
  | @unknown b rest hb ho =>
    rw [decodeFrom_none (Opcode.ofByte?_eq_none_iff.2 ho), DecodeError.ofByte, if_neg hb]
  | truncated hlen => exact decodeFrom_truncated hlen

/-- **Decoding fails nowhere else**: it has read instructions up to there. -/
theorem fault_of_decodeFrom {done : Program} (h : decodeFrom offset done bytes = .error e) :
    ∃ is rest, bytes = encode (ofInstructions is) ++ rest ∧
      Fault (offset + (encode (ofInstructions is)).length) rest e := by
  fun_induction decodeFrom offset done bytes with
  | case1 => cases h
  | case2 offset done b rest hb =>
    cases h
    exact ⟨[], b :: rest, rfl, fault_of_ofByte? hb⟩
  | case3 offset done b tail o ho hwidth ih =>
    obtain ⟨is, rest, rfl, hf⟩ := ih h
    obtain rfl := Opcode.byte_of_ofByte? ho
    refine ⟨.plain o (Opcode.operandWidth_eq_zero_iff.1 hwidth) :: is, rest, rfl, ?_⟩
    rw [ofInstructions_cons, encode_append, List.length_append, ← Nat.add_assoc]
    exact hf
  | case4 offset done b o ho hwidth w x y z tail ih =>
    obtain ⟨is, rest, rfl, hf⟩ := ih h
    obtain rfl := Opcode.byte_of_ofByte? ho
    obtain rfl := Opcode.eq_push_of_operandWidth hwidth
    have hpush : encode (Instruction.push (.ofBytes w x y z)).tokens =
        [Opcode.push.byte, w, x, y, z] := by
      simp [Token.bytes]
    refine ⟨.push (.ofBytes w x y z) :: is, rest, ?_, ?_⟩
    · rw [ofInstructions_cons, encode_append, hpush]
      rfl
    · rw [ofInstructions_cons, encode_append, hpush, List.length_append, ← Nat.add_assoc]
      exact hf
  | case5 offset done b tail o ho hwidth hshort =>
    cases h
    obtain rfl := Opcode.byte_of_ofByte? ho
    obtain rfl := Opcode.eq_push_of_operandWidth hwidth
    exact ⟨[], Opcode.push.byte :: tail, rfl, .truncated (length_lt_of_short hshort)⟩

/-- The errors of decoding are those of the faults behind well-formed programs. -/
theorem decode_eq_error_iff :
    decode bytes = .error e ↔
      ∃ p rest, WellFormed p ∧ bytes = encode p ++ rest ∧ Fault (encode p).length rest e := by
  constructor
  · intro h
    obtain ⟨is, rest, rfl, hf⟩ := fault_of_decodeFrom h
    rw [Nat.zero_add] at hf
    exact ⟨ofInstructions is, rest, wellFormed_ofInstructions is, rfl, hf⟩
  · rintro ⟨p, rest, hw, rfl, hf⟩
    obtain ⟨is, rfl⟩ := wellFormed_iff.1 hw
    rw [decode, decodeFrom_encode_append, Nat.zero_add]
    exact decodeFrom_of_fault _ hf

/-! ## The program before a fault -/

theorem encode_tokens (i : Instruction) :
    encode i.tokens = i.opcode.byte :: i.literals.flatMap Word.bytes := by
  cases i with
  | plain o h => rfl
  | push v => simp [Token.bytes, Instruction.opcode, Instruction.literals]

/-- No complete instruction starts at a fault. -/
theorem Fault.ne_tokens_append (h : Fault offset bytes e) (i : Instruction) :
    bytes ≠ encode i.tokens ++ rest := by
  intro hbytes
  rw [encode_tokens, List.cons_append] at hbytes
  cases h with
  | illegal => exact i.opcode.byte_ne_zero (List.cons.inj hbytes).1.symm
  | unknown _ _ ho => exact ho i.opcode (List.cons.inj hbytes).1.symm
  | truncated hlen =>
    obtain ⟨hopcode, rfl⟩ := List.cons.inj hbytes
    cases i with
    | plain o ho => exact ho (Opcode.byte_injective hopcode).symm
    | push v =>
      have hfour : v.bytes.length = 4 := v.length_bytes
      simp only [Instruction.literals, List.flatMap_cons, List.flatMap_nil, List.append_nil,
        List.length_append, hfour] at hlen
      omega

/-- **Instructions are told apart by their bytes**, whatever stands behind them. -/
theorem encode_tokens_append_inj {i j : Instruction}
    (h : encode i.tokens ++ rest = encode j.tokens ++ rest') : i = j ∧ rest = rest' := by
  rw [encode_tokens, encode_tokens, List.cons_append, List.cons_append, List.cons.injEq] at h
  obtain ⟨hopcode, hrest⟩ := h
  have ho := Opcode.byte_injective hopcode
  cases i with
  | plain o hi =>
    cases j with
    | plain o' hj =>
      obtain rfl : o = o' := ho
      exact ⟨rfl, hrest⟩
    | push w => exact absurd ho hi
  | push v =>
    cases j with
    | plain o' hj => exact absurd ho.symm hj
    | push w =>
      simp only [Instruction.literals, List.flatMap_cons, List.flatMap_nil,
        List.append_nil] at hrest
      obtain ⟨hbytes, hrest⟩ := List.append_inj hrest rfl
      exact ⟨congrArg _ (Word.bytes_inj.1 hbytes), hrest⟩

/-- **The instructions before a fault** are determined by the stream. -/
theorem Fault.eq_of_append_eq {n' : Nat} {is js : List Instruction} (h : Fault n rest e)
    (h' : Fault n' rest' e')
    (heq : encode (ofInstructions is) ++ rest = encode (ofInstructions js) ++ rest') :
    is = js ∧ rest = rest' := by
  induction is generalizing js with
  | nil =>
    cases js with
    | nil => exact ⟨rfl, heq⟩
    | cons j js =>
      rw [ofInstructions_cons, encode_append, List.append_assoc] at heq
      exact absurd heq (h.ne_tokens_append j)
  | cons i is ih =>
    rw [ofInstructions_cons, encode_append, List.append_assoc] at heq
    cases js with
    | nil => exact absurd heq.symm (h'.ne_tokens_append i)
    | cons j js =>
      rw [ofInstructions_cons, encode_append, List.append_assoc] at heq
      obtain ⟨rfl, htail⟩ := encode_tokens_append_inj heq
      obtain ⟨rfl, hrest⟩ := ih htail
      exact ⟨rfl, hrest⟩

/-- The form of a fault determines its error. -/
theorem Fault.unique (h : Fault n rest e) (h' : Fault n rest e') : e = e' := by
  have hd := decodeFrom_of_fault [] h
  rw [decodeFrom_of_fault [] h'] at hd
  exact (Except.error.inj hd).symm

/-! ## Streams behind programs -/

/-- More bytes before a stream count in its offsets and change nothing else. -/
theorem decodeFrom_add (offset : Nat) (done : Program) (bytes : List UInt8) :
    decodeFrom (n + offset) done bytes =
      (decodeFrom offset done bytes).mapError (DecodeError.after n) := by
  fun_induction decodeFrom offset done bytes with
  | case1 => simp [decodeFrom, Except.mapError]
  | case2 offset done b rest hb =>
    rw [decodeFrom_none hb, Except.mapError, DecodeError.after_ofByte]
  | case3 offset done b rest o ho hwidth ih =>
    obtain rfl := Opcode.byte_of_ofByte? ho
    rw [← ih, ← Nat.add_assoc]
    exact decodeFrom_op (Opcode.operandWidth_eq_zero_iff.1 hwidth)
  | case4 offset done b o ho hwidth w x y z rest ih =>
    obtain rfl := Opcode.byte_of_ofByte? ho
    obtain rfl := Opcode.eq_push_of_operandWidth hwidth
    rw [← ih, decodeFrom_operand]
    rfl
  | case5 offset done b rest o ho hwidth hshort =>
    obtain rfl := Opcode.byte_of_ofByte? ho
    obtain rfl := Opcode.eq_push_of_operandWidth hwidth
    rw [decodeFrom_truncated (length_lt_of_short hshort), Nat.add_assoc]
    rfl

/-- **What follows a program** is decoded as it is alone. -/
theorem decode_encode_append {p : Program} (h : p.WellFormed) (bytes : List UInt8) :
    decode (encode p ++ bytes) =
      ((decode bytes).mapError (DecodeError.after (encode p).length)).map (p ++ ·) := by
  obtain ⟨is, rfl⟩ := wellFormed_iff.1 h
  have hread := decodeFrom_encode_append is 0 [] bytes
  have hdone := decodeFrom_append ((encode (ofInstructions is)).length + 0) []
    (ofInstructions is).reverse bytes
  have hshift := decodeFrom_add (n := (encode (ofInstructions is)).length) 0 [] bytes
  rw [List.nil_append, List.reverse_reverse, hshift] at hdone
  rw [Nat.add_comm, List.append_nil, hdone] at hread
  exact hread

/-! ## Streams that are cut -/

/-- **A stream that is cut** ends behind an instruction, or in the operand of a `PUSH`. -/
theorem exists_take_encode (is : List Instruction) (n : Nat) :
    ∃ js ks rest, is = js ++ ks ∧
      (encode (ofInstructions is)).take n = encode (ofInstructions js) ++ rest ∧
      (rest = [] ∨ ∃ v ls m, ks = .push v :: ls ∧ m < 4 ∧
        rest = Opcode.push.byte :: v.bytes.take m) := by
  induction is generalizing n with
  | nil => exact ⟨[], [], [], rfl, by simp, .inl rfl⟩
  | cons i is ih =>
    by_cases hn : (encode i.tokens).length ≤ n
    · obtain ⟨js, ks, rest, rfl, htake, hrest⟩ := ih (n - (encode i.tokens).length)
      refine ⟨i :: js, ks, rest, rfl, ?_, hrest⟩
      rw [ofInstructions_cons, encode_append, List.take_append, List.take_of_length_le hn, htake,
        ofInstructions_cons, encode_append, List.append_assoc]
    · refine ⟨[], i :: is, (encode i.tokens).take n, rfl, ?_, ?_⟩
      · rw [ofInstructions_cons, encode_append, List.take_append_of_le_length (by omega)]
        rfl
      · rw [encode_tokens] at hn ⊢
        cases n with
        | zero => exact .inl rfl
        | succ m =>
          cases i with
          | plain o ho => simp [Instruction.literals] at hn
          | push v =>
            have hfour : v.bytes.length = 4 := v.length_bytes
            refine .inr ⟨v, is, m, rfl, ?_, ?_⟩
            · simp only [Instruction.literals, List.flatMap_cons, List.flatMap_nil,
                List.append_nil, List.length_cons, hfour] at hn
              omega
            · simp [Instruction.literals, Instruction.opcode]

/-- **Decode errors are exact and leftmost.** Decoding fails exactly if the stream is that of a
well-formed program and of a fault, with the error of that fault; the stream determines both. What
is cut off a stream that can be decoded leaves the first tokens of its program, if the cut is
between two instructions, and an operand that is too short otherwise. What follows a program is
decoded as it is alone, with the bytes of the program counted in the offset of an operand. -/
theorem decode_error_exact :
    (∀ bytes e, decode bytes = .error e ↔
      ∃ p rest, WellFormed p ∧ bytes = encode p ++ rest ∧ Fault (encode p).length rest e) ∧
    (∀ p p' rest rest' e e', WellFormed p → WellFormed p' →
      encode p ++ rest = encode p' ++ rest' → Fault (encode p).length rest e →
      Fault (encode p').length rest' e' → p = p' ∧ rest = rest' ∧ e = e') ∧
    (∀ bytes p n, decode bytes = .ok p →
      (∃ q, q <+: p ∧ WellFormed q ∧ bytes.take n = encode q ∧ decode (bytes.take n) = .ok q) ∨
      ∃ q v m, q ++ Token.push v <+: p ∧ WellFormed q ∧ m < 4 ∧
        bytes.take n = encode q ++ Opcode.push.byte :: v.bytes.take m ∧
        decode (bytes.take n) = .error (.truncatedOperand ((encode q).length + 1) 4 m)) ∧
    ∀ p bytes, WellFormed p →
      decode (encode p ++ bytes) =
        ((decode bytes).mapError (DecodeError.after (encode p).length)).map (p ++ ·) := by
  refine ⟨fun bytes e => ?_, ?_, ?_, fun p bytes h => decode_encode_append h bytes⟩
  · exact decode_eq_error_iff
  · intro p p' rest rest' e e' hp hp' heq hf hf'
    obtain ⟨is, rfl⟩ := wellFormed_iff.1 hp
    obtain ⟨js, rfl⟩ := wellFormed_iff.1 hp'
    obtain ⟨rfl, rfl⟩ := hf.eq_of_append_eq hf' heq
    exact ⟨rfl, rfl, hf.unique hf'⟩
  · intro bytes p n h
    obtain ⟨hw, rfl⟩ := decode_eq_ok_iff.1 h
    obtain ⟨is, rfl⟩ := wellFormed_iff.1 hw
    obtain ⟨js, ks, rest, rfl, htake, hrest⟩ := exists_take_encode is n
    have hjs := wellFormed_ofInstructions js
    rw [htake]
    obtain rfl | ⟨v, ls, m, rfl, hm, rfl⟩ := hrest
    · rw [List.append_nil, ofInstructions_append]
      exact .inl ⟨ofInstructions js, List.prefix_append _ _, hjs, rfl,
        decode_encode_ofInstructions js⟩
    · have hlen : (v.bytes.take m).length = m := by
        rw [List.length_take, Word.length_bytes, Word.width]
        omega
      have hfault : Fault (encode (ofInstructions js)).length
          (Opcode.push.byte :: v.bytes.take m)
          (.truncatedOperand ((encode (ofInstructions js)).length + 1) 4 (v.bytes.take m).length) :=
        .truncated (by omega)
      rw [hlen] at hfault
      refine .inr ⟨ofInstructions js, v, m, ?_, hjs, hm, rfl, ?_⟩
      · exact ⟨ofInstructions ls, by rw [ofInstructions_append, List.append_assoc]; rfl⟩
      · exact decode_eq_error_iff.2 ⟨ofInstructions js, _, hjs, rfl, hfault⟩

theorem decode_error_exact_operands :
    Fault 5 [0x22, 0, 0x7f] (.truncatedOperand 6 4 2) ∧
    decode [0x22, 0, 0, 0, 0, 0x22, 0, 0x7f] = .error (.truncatedOperand 6 4 2) ∧
    decode [0x22, 0, 0x7f, 0, 0] = .ok (Token.push 0x7f0000) ∧
    decode ([0x22, 0, 0, 0, 0] ++ [0x22, 0, 0x7f, 0, 0]) =
      .ok (Token.push 0 ++ Token.push 0x7f0000) := by
  obtain ⟨herror, -, -, hbehind⟩ := decode_error_exact
  have hw : WellFormed (Token.push 0) := .push .nil
  have hfault : Fault 5 [0x22, 0, 0x7f] (.truncatedOperand 6 4 2) := .truncated (by decide)
  have hok : decode [0x22, 0, 0x7f, 0, 0] = .ok (Token.push 0x7f0000) := by decide
  have hcut : decode [0x22, 0, 0, 0, 0, 0x22, 0, 0x7f] = .error (.truncatedOperand 6 4 2) :=
    (herror _ _).2 ⟨Token.push 0, [0x22, 0, 0x7f], hw, by decide, hfault⟩
  have hboth := hbehind (Token.push 0) [0x22, 0, 0x7f, 0, 0] hw
  rw [hok] at hboth
  exact ⟨hfault, hcut, hok, hboth⟩

end Program

end StackVM
