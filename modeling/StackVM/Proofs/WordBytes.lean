import Mathlib.Data.Nat.Digits.Defs
import StackVM.Word

/-!
# Words as numbers

A word is a number in two ways: the signed number that it stands for, and the number of its bit
pattern. `pattern_eq_emod` gets the second from the first, and `ofDigits_bytes` gets the pattern
from the bytes. Together they say that `Word.bytes` is the two's complement of the word, the most
significant byte first (`ofDigits_bytes_eq_emod`).
-/

set_option autoImplicit false

namespace StackVM

namespace Word

/-- The pattern of a word is its signed value in two's complement. -/
theorem pattern_eq_emod (v : Word) : (v.pattern : Int) = v.toInt % 0x100000000 := by
  have hlt := v.pattern_lt
  have hbmod : v.toInt = (v.pattern : Int).bmod 0x100000000 := BitVec.toInt_eq_toNat_bmod _
  have hmod : (v.pattern : Int).bmod 0x100000000 % 0x100000000 = v.pattern % 0x100000000 :=
    Int.bmod_emod
  rw [hbmod, hmod]
  omega

/-- The bytes of a word are its pattern in base 256, the most significant first. -/
theorem ofDigits_bytes (v : Word) :
    Nat.ofDigits 0x100 (v.bytes.reverse.map UInt8.toNat) = v.pattern := by
  have hlt := v.pattern_lt
  simp [bytes, toNat_byte, Nat.ofDigits_cons]
  omega

/-- The bytes of a word are its signed value in two's complement, the most significant first. -/
theorem ofDigits_bytes_eq_emod (v : Word) :
    ((Nat.ofDigits 0x100 (v.bytes.reverse.map UInt8.toNat) : Nat) : Int) =
      v.toInt % 0x100000000 := by
  rw [ofDigits_bytes, pattern_eq_emod]

end Word

end StackVM
