import StackVM.Text.Hex
import StackVM.Token

/-!
# The byte stream of a program

`Program.encode` writes the bytes of the tokens one after the other. `Program.decode` reads them
back: an opcode byte at a time, and behind an opcode that has an operand the four bytes of a
literal, up to the end of the stream or the first fault from the left. Every program can be written,
also one that is not well-formed; reading gives well-formed programs only.
-/

set_option autoImplicit false

namespace StackVM

inductive DecodeError where
  | illegalOpcode
  | unknownOpcode (byte : UInt8)
  | truncatedOperand (offset expected found : Nat)
  deriving DecidableEq, Repr

namespace DecodeError

/-- The fault of a byte that stands for no opcode. -/
def ofByte (b : UInt8) : DecodeError := if b = 0 then illegalOpcode else unknownOpcode b

def message : DecodeError → String
  | illegalOpcode => "illegal opcode 0x00"
  | unknownOpcode b => s!"unknown opcode: 0x{Hex.ofBytes [b]}"
  | truncatedOperand offset expected found =>
    s!"truncated operand at byte {offset}: expected {expected} bytes, found {found}"

end DecodeError

namespace Program

def encode (p : Program) : List UInt8 := p.flatMap Token.bytes

/--
Decodes the rest of a stream of which `offset` bytes have been read. The tokens that they gave are
`done`, the last one first.
-/
def decodeFrom (offset : Nat) (done : Program) : List UInt8 → Except DecodeError Program
  | [] => .ok done.reverse
  | b :: rest =>
    match Opcode.ofByte? b with
    | none => .error (.ofByte b)
    | some o =>
      if o.operandWidth = 0 then decodeFrom (offset + 1) (.op o :: done) rest
      else
        match rest with
        | w :: x :: y :: z :: rest =>
          decodeFrom (offset + 1 + o.operandWidth) (.data (.ofBytes w x y z) :: .op o :: done) rest
        | _ => .error (.truncatedOperand (offset + 1) o.operandWidth rest.length)

/-- The program of a byte stream, or its first fault from the left. -/
def decode (bytes : List UInt8) : Except DecodeError Program := decodeFrom 0 [] bytes

/-! ## Writing -/

@[simp] theorem encode_nil : encode [] = [] := rfl

@[simp] theorem encode_cons (t : Token) (p : Program) : encode (t :: p) = t.bytes ++ encode p := by
  simp [encode]

@[simp] theorem encode_append (p q : Program) : encode (p ++ q) = encode p ++ encode q := by
  simp [encode]

/-! ## Reading -/

theorem decodeFrom_none {offset : Nat} {done : Program} {b : UInt8} {rest : List UInt8}
    (h : Opcode.ofByte? b = none) : decodeFrom offset done (b :: rest) = .error (.ofByte b) := by
  unfold decodeFrom; simp [h]

theorem decodeFrom_op {offset : Nat} {done : Program} {o : Opcode} {rest : List UInt8}
    (h : o ≠ .push) :
    decodeFrom offset done (o.byte :: rest) = decodeFrom (offset + 1) (.op o :: done) rest := by
  rw [decodeFrom, Opcode.ofByte?_byte]
  exact if_pos (Opcode.operandWidth_eq_zero_iff.2 h)

theorem decodeFrom_operand {offset : Nat} {done : Program} {w x y z : UInt8} {rest : List UInt8} :
    decodeFrom offset done (Opcode.push.byte :: w :: x :: y :: z :: rest) =
      decodeFrom (offset + 5) (.data (.ofBytes w x y z) :: .op .push :: done) rest := by
  rw [decodeFrom, Opcode.ofByte?_byte]
  rfl

theorem decodeFrom_push {offset : Nat} {done : Program} {v : Word} {rest : List UInt8} :
    decodeFrom offset done (Opcode.push.byte :: v.bytes ++ rest) =
      decodeFrom (offset + 5) (.data v :: .op .push :: done) rest := by
  refine decodeFrom_operand.trans ?_
  rw [Word.ofBytes_byte]
  rfl

theorem decodeFrom_truncated {offset : Nat} {done : Program} {rest : List UInt8}
    (h : rest.length < Word.width) :
    decodeFrom offset done (Opcode.push.byte :: rest) =
      .error (.truncatedOperand (offset + 1) Word.width rest.length) := by
  rw [decodeFrom, Opcode.ofByte?_byte]
  rcases rest with _ | ⟨w, _ | ⟨x, _ | ⟨y, _ | ⟨z, rest⟩⟩⟩⟩
  · rfl
  · rfl
  · rfl
  · rfl
  · exact absurd h (by simp [Word.width])

/-- Bytes that do not start with those of a word are fewer. -/
theorem length_lt_of_short {bytes : List UInt8}
    (h : ∀ w x y z tail, bytes = w :: x :: y :: z :: tail → False) :
    bytes.length < Word.width := by
  rcases bytes with _ | ⟨w, _ | ⟨x, _ | ⟨y, _ | ⟨z, tail⟩⟩⟩⟩
  · decide
  · exact Nat.lt_add_of_pos_right (by decide : 0 < 3)
  · exact Nat.lt_add_of_pos_right (by decide : 0 < 2)
  · exact Nat.lt_add_of_pos_right (by decide : 0 < 1)
  · exact (h w x y z tail rfl).elim

/-- The tokens that were read before stand before those that are read from here on. -/
theorem decodeFrom_append (offset : Nat) (done before : Program) (bytes : List UInt8) :
    decodeFrom offset (done ++ before) bytes =
      (decodeFrom offset done bytes).map (before.reverse ++ ·) := by
  fun_induction decodeFrom offset done bytes with
  | case1 => simp [decodeFrom, Except.map]
  | case2 offset done b rest h => rw [decodeFrom_none h]; rfl
  | case3 offset done b rest o ho hwidth ih =>
    obtain rfl := Opcode.byte_of_ofByte? ho
    rw [← ih, decodeFrom_op (Opcode.operandWidth_eq_zero_iff.1 hwidth), List.cons_append]
  | case4 offset done b o ho hwidth w x y z rest ih =>
    obtain rfl := Opcode.byte_of_ofByte? ho
    obtain rfl := Opcode.eq_push_of_operandWidth hwidth
    rw [← ih, decodeFrom_operand]
    rfl
  | case5 offset done b rest o ho hwidth hshort =>
    obtain rfl := Opcode.byte_of_ofByte? ho
    obtain rfl := Opcode.eq_push_of_operandWidth hwidth
    rw [decodeFrom_truncated (length_lt_of_short hshort)]
    rfl

end Program

end StackVM
