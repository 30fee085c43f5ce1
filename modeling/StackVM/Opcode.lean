/-!
# Opcodes

The thirteen operations of the machine, with the byte that stands for each in a byte stream and
the mnemonic that stands for it in assembly text. Bytes are written by one table and read by
another, names are looked up in the table by which they are written. Either way, reading is the
converse of writing: `Opcode.ofByte?_eq_some_iff` and `Opcode.ofMnemonic?_eq_some_iff` say so.
-/

set_option autoImplicit false

namespace StackVM

inductive Opcode where
  | add
  | mul
  | sub
  | div
  | mod
  | lt
  | gt
  | eq
  | not
  | pop
  | push
  | mload
  | mstore
  deriving DecidableEq, Repr

namespace Opcode

def all : List Opcode :=
  [add, mul, sub, div, mod, lt, gt, eq, not, pop, push, mload, mstore]

theorem mem_all (o : Opcode) : o ∈ all := by
  cases o <;> decide

/-- The byte of an opcode. Zero is no opcode. -/
def byte : Opcode → UInt8
  | add => 0x01
  | mul => 0x02
  | sub => 0x03
  | div => 0x04
  | mod => 0x05
  | lt => 0x10
  | gt => 0x11
  | eq => 0x14
  | not => 0x15
  | pop => 0x21
  | push => 0x22
  | mload => 0x23
  | mstore => 0x24

/-- The opcode of a byte, if it is that of one. -/
def ofByte? : UInt8 → Option Opcode
  | 0x01 => some add
  | 0x02 => some mul
  | 0x03 => some sub
  | 0x04 => some div
  | 0x05 => some mod
  | 0x10 => some lt
  | 0x11 => some gt
  | 0x14 => some eq
  | 0x15 => some not
  | 0x21 => some pop
  | 0x22 => some push
  | 0x23 => some mload
  | 0x24 => some mstore
  | _ => none

def mnemonic : Opcode → String
  | add => "ADD"
  | mul => "MUL"
  | sub => "SUB"
  | div => "DIV"
  | mod => "MOD"
  | lt => "LT"
  | gt => "GT"
  | eq => "EQ"
  | not => "NOT"
  | pop => "POP"
  | push => "PUSH"
  | mload => "MLOAD"
  | mstore => "MSTORE"

def ofMnemonic? (name : String) : Option Opcode := all.find? (·.mnemonic == name)

/-! ## The tables are one-to-one -/

theorem byte_injective {o o' : Opcode} (h : o.byte = o'.byte) : o = o' := by
  revert h; cases o <;> cases o' <;> decide

theorem mnemonic_injective {o o' : Opcode} (h : o.mnemonic = o'.mnemonic) : o = o' := by
  revert h; cases o <;> cases o' <;> decide

theorem all_isUpper_mnemonic (o : Opcode) : o.mnemonic.toList.all Char.isUpper := by
  cases o <;> decide

theorem byte_ne_zero (o : Opcode) : o.byte ≠ 0 := by
  cases o <;> decide

@[simp] theorem ofByte?_byte (o : Opcode) : ofByte? o.byte = some o := by
  cases o <;> decide

@[simp] theorem ofByte?_zero : ofByte? 0 = none := by decide

theorem byte_of_ofByte? {b : UInt8} {o : Opcode} (h : ofByte? b = some o) : o.byte = b := by
  unfold ofByte? at h
  split at h <;> cases h <;> rfl

/-- **The table that is read** is the one that is written: each undoes the other. -/
theorem ofByte?_eq_some_iff {b : UInt8} {o : Opcode} : ofByte? b = some o ↔ o.byte = b :=
  ⟨byte_of_ofByte?, fun h => h ▸ ofByte?_byte o⟩

@[simp] theorem ofMnemonic?_mnemonic (o : Opcode) : ofMnemonic? o.mnemonic = some o := by
  cases o <;> decide

theorem ofMnemonic?_eq_some_iff {name : String} {o : Opcode} :
    ofMnemonic? name = some o ↔ o.mnemonic = name :=
  ⟨fun h => by simpa using List.find?_some h, fun h => h ▸ ofMnemonic?_mnemonic o⟩

end Opcode

end StackVM
