/-!
# Machine words

The machine computes on 32-bit words, read as signed integers in two's complement; every
operation wraps. In a byte stream and in memory a word takes four bytes, the most significant
first.

* `Word.bytes` and `Word.ofBytes` convert between the two forms. `Word.ofBytes_byte` and
  `Word.bytes_ofBytes` say that each undoes the other; both are arithmetic on the word's value
  below `0x100000000`, so that `omega` closes them.
-/

set_option autoImplicit false

namespace StackVM

abbrev Word := Int32

namespace Word

def width : Nat := 4

/-- The bit pattern of a word as a number below `0x100000000`. -/
def pattern (w : Word) : Nat := w.toUInt32.toNat

/-- The word with the bit pattern `n`, of which only the low 32 bits count. -/
def ofPattern (n : Nat) : Word := (UInt32.ofNat n).toInt32

/-- The byte of this weight in the pattern: the lowest byte has the weight 1, the next one `0x100`
and so on. -/
def byte (w : Word) (weight : Nat) : UInt8 := UInt8.ofNat (w.pattern / weight)

/-- The four bytes of a word, the most significant first. -/
def bytes (w : Word) : List UInt8 :=
  [w.byte 0x1000000, w.byte 0x10000, w.byte 0x100, w.byte 1]

/-- The word whose bytes are `a`, `b`, `c`, `d`, the most significant first. -/
def ofBytes (a b c d : UInt8) : Word :=
  ofPattern (((a.toNat * 0x100 + b.toNat) * 0x100 + c.toNat) * 0x100 + d.toNat)

/-- The word for a truth value: 1 or 0. -/
def ofBool (b : Bool) : Word := if b then 1 else 0

theorem ofBool_decide (p : Prop) [Decidable p] : ofBool (decide p) = if p then 1 else 0 := by
  simp only [ofBool, decide_eq_true_eq]

theorem ofBool_beq (x y : Word) : ofBool (x == y) = if x = y then 1 else 0 := by
  simp only [ofBool, beq_iff_eq]

/-! ## Patterns -/

theorem pattern_lt (w : Word) : w.pattern < 0x100000000 := w.toUInt32.toNat_lt

theorem pattern_ofPattern (n : Nat) : (ofPattern n).pattern = n % 0x100000000 := by
  simp [pattern, ofPattern]

@[simp] theorem ofPattern_pattern (w : Word) : ofPattern w.pattern = w := by
  simp [pattern, ofPattern]

theorem pattern_inj {v w : Word} : v.pattern = w.pattern ↔ v = w :=
  ⟨fun h => by rw [← ofPattern_pattern v, h, ofPattern_pattern], congrArg _⟩

/-! ## Bytes -/

@[simp] theorem length_bytes (w : Word) : w.bytes.length = width := rfl

theorem toNat_byte (w : Word) (weight : Nat) :
    (w.byte weight).toNat = w.pattern / weight % 0x100 := by
  simp [byte]

/-- Reading the four bytes of a word gives the word back. -/
@[simp] theorem ofBytes_byte (w : Word) :
    ofBytes (w.byte 0x1000000) (w.byte 0x10000) (w.byte 0x100) (w.byte 1) = w := by
  have h := w.pattern_lt
  rw [← pattern_inj, ofBytes, pattern_ofPattern]
  simp only [toNat_byte]
  omega

/-- Each list of four bytes is the list of a word's bytes. -/
@[simp] theorem bytes_ofBytes (a b c d : UInt8) : (ofBytes a b c d).bytes = [a, b, c, d] := by
  have ha := a.toNat_lt
  have hb := b.toNat_lt
  have hc := c.toNat_lt
  have hd := d.toNat_lt
  have h : (ofBytes a b c d).pattern =
      ((a.toNat * 0x100 + b.toNat) * 0x100 + c.toNat) * 0x100 + d.toNat := by
    rw [ofBytes, pattern_ofPattern]; omega
  simp only [bytes, List.cons.injEq, ← UInt8.toNat_inj, toNat_byte, h, and_true]
  omega

theorem bytes_inj {v w : Word} : v.bytes = w.bytes ↔ v = w := by
  refine ⟨fun h => ?_, congrArg _⟩
  simp only [bytes, List.cons.injEq, and_true] at h
  rw [← ofBytes_byte v, ← ofBytes_byte w, h.1, h.2.1, h.2.2.1, h.2.2.2]

end Word

end StackVM
