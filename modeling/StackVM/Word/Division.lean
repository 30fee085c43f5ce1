import StackVM.Word

/-!
# Division of words

`Word.divMod?` is the division behind `DIV` and `MOD`. The quotient is chosen by the signs of the
operands, starting from the quotient that is truncated toward zero, and the remainder is what the
identity `a = b * q + r` leaves. On most operands this is Euclidean division; on a negative
multiple of the divisor the remainder is the divisor's size instead of zero. All steps wrap.
-/

set_option autoImplicit false

namespace StackVM.Word

/--
The quotient of `a` by a nonzero `b`, by the signs of the two:

* `a < 0 < b`: one less than the truncated quotient;
* `0 < a`: the truncated quotient;
* `a < 0` and `b < 0`: the truncated quotient of `a + b`;
* `a = 0`: zero.
-/
def quotient (a b : Word) : Word :=
  if a = 0 then 0
  else if 0 < a then a / b
  else if 0 < b then a / b - 1
  else (a + b) / b

/-- Quotient and remainder of `a` by `b`; there are none when `b` is zero. -/
def divMod? (a b : Word) : Option (Word × Word) :=
  if b = 0 then none else some (quotient a b, a - b * quotient a b)

@[simp] theorem divMod?_eq_none_iff {a b : Word} : divMod? a b = none ↔ b = 0 := by
  simp [divMod?]

/-- Whatever the quotient, the remainder makes up the difference, as words. -/
theorem mul_add_of_divMod? {a b q r : Word} (h : divMod? a b = some (q, r)) : b * q + r = a := by
  unfold divMod? at h
  split at h
  · simp at h
  · simp only [Option.some.injEq, Prod.mk.injEq] at h
    rw [← h.2, ← h.1, Int32.add_comm, Int32.sub_add_cancel]

end StackVM.Word
