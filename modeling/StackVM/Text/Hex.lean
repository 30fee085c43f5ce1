/-!
# Hexadecimal digits

`Hex.ofBytes` writes two lower-case digits for each byte, `Hex.ofNat` the digits of a number without
leading zeros.
-/

set_option autoImplicit false

namespace StackVM.Hex

def byteDigits (b : UInt8) : List Char :=
  [Nat.digitChar (b.toNat / 16), Nat.digitChar (b.toNat % 16)]

/-- The digits of a sequence of bytes, two for each. -/
def ofBytes (bytes : List UInt8) : String := String.ofList (bytes.flatMap byteDigits)

def ofNat (n : Nat) : String := String.ofList (Nat.toDigits 16 n)

end StackVM.Hex
