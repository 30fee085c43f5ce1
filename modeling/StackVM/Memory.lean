import Std.Data.TreeMap.Lemmas
import StackVM.Word

/-!
# Byte memory

A memory has a fixed size and starts out zeroed. Only bytes that were written are stored, so that a
memory of any size is made at once. `Memory.byte` is the view: each access is a range of it, and an
access that leaves the bounds is refused as a whole. What writes is an action on the memory. An
error leaves the memory as it stands by then, and this is as it was, since the bounds are checked
before anything is stored (`run_set`).
-/

set_option autoImplicit false

namespace StackVM

/-- Why memory cannot be made or accessed. -/
inductive MemoryError where
  | outOfBounds (offset length size : Nat)
  | allocationFailed (size : Nat)
  deriving DecidableEq, Repr

def MemoryError.message : MemoryError → String
  | outOfBounds offset length size =>
    s!"memory access of {length} bytes at offset {offset} out of bounds (size {size})"
  | allocationFailed size => s!"cannot allocate {size} bytes of memory"

/-- A byte store of fixed size. Bytes that were not written are zero. -/
structure Memory where
  size : Nat
  written : Std.TreeMap Nat UInt8

namespace Memory

/-- An action on a memory, which an error leaves as it stands. -/
abbrev Action (α : Type) := EStateM MemoryError Memory α

/-- The largest size that a memory can have. -/
def maxSize : Nat := 0x7fffffffffffffff

/-- A memory of `size` zero bytes. -/
def zeroed (size : Nat) : Memory := ⟨size, ∅⟩

/-- A memory of `size` zero bytes, if one of that size can be had. -/
def allocate (size : Nat) : Except MemoryError Memory :=
  if size ≤ maxSize then .ok (zeroed size) else .error (.allocationFailed size)

def byte (m : Memory) (address : Nat) : UInt8 := m.written.getD address 0

def toList (m : Memory) : List UInt8 := (List.range m.size).map m.byte

def isEmpty (m : Memory) : Bool := m.size == 0

/-- Addresses and lengths are 64-bit numbers, below this one. -/
def addressSpace : Nat := 0x10000000000000000

/-- The address behind `length` bytes from `offset` on, if that is an address. -/
def behind? (offset length : Nat) : Option Nat :=
  (some (offset + length)).filter (· < addressSpace)

/-- Refuses an access to `length` bytes from `offset` on unless all of them are in bounds. -/
def check (m : Memory) (offset length : Nat) : Except MemoryError Unit :=
  if (behind? offset length).any (· ≤ m.size) then .ok ()
  else .error (.outOfBounds offset length m.size)

/-- The bytes from `offset` on, in bounds or not. -/
def load (m : Memory) (offset length : Nat) : List UInt8 := (List.range' offset length).map m.byte

/-- The memory with `data` stored from `offset` on, in bounds or not. -/
def store (m : Memory) (offset : Nat) (data : List UInt8) : Memory :=
  { m with written := (data.zipIdx offset).foldl (fun t (b, i) => t.insert i b) m.written }

def get (m : Memory) (offset length : Nat) : Except MemoryError (List UInt8) := do
  m.check offset length
  return m.load offset length

/-- Stores `data` from `offset` on, if all of it is in bounds. -/
def set (offset : Nat) (data : List UInt8) : Action Unit := do
  MonadExcept.ofExcept ((← getThe Memory).check offset data.length)
  modify (·.store offset data)

/-- The word at `offset`, the most significant byte first. -/
def getWord (m : Memory) (offset : Nat) : Except MemoryError Word := do
  m.check offset Word.width
  return .ofBytes (m.byte offset) (m.byte (offset + 1)) (m.byte (offset + 2)) (m.byte (offset + 3))

/-- Stores a word at `offset`, the most significant byte first. -/
def setWord (offset : Nat) (w : Word) : Action Unit := set offset w.bytes

/-! ## Accesses through the bytes -/

@[simp] theorem byte_zeroed (size address : Nat) : (zeroed size).byte address = 0 := by
  simp [zeroed, byte]

@[simp] theorem size_store (m : Memory) (offset : Nat) (data : List UInt8) :
    (m.store offset data).size = m.size := rfl

/-- A stored byte is read back, and every other byte is as before. -/
theorem byte_store (m : Memory) (offset : Nat) (data : List UInt8) (address : Nat) :
    (m.store offset data).byte address =
      if offset ≤ address then data[address - offset]?.getD (m.byte address)
      else m.byte address := by
  induction data generalizing m offset with
  | nil => simp [store, byte]
  | cons b data ih =>
    have h : m.store offset (b :: data) =
        ({ m with written := m.written.insert offset b } : Memory).store (offset + 1) data := by
      simp [store]
    have hb : ({ m with written := m.written.insert offset b } : Memory).byte address =
        if offset = address then b else m.byte address := by
      simp [byte, Std.TreeMap.getD_insert]
    rw [h, ih, hb]
    rcases Nat.lt_trichotomy address offset with hlt | rfl | hlt
    · rw [if_neg (by omega), if_neg (by omega), if_neg (by omega)]
    · rw [if_neg (by omega), if_pos rfl, if_pos (Nat.le_refl _)]
      simp
    · obtain ⟨k, rfl⟩ : ∃ k, address = offset + 1 + k := ⟨address - offset - 1, by omega⟩
      rw [if_pos (by omega), if_neg (by omega), if_pos (by omega)]
      rw [show offset + 1 + k - (offset + 1) = k by omega,
        show offset + 1 + k - offset = k + 1 by omega, List.getElem?_cons_succ]

/-- What is in bounds ends at an address, so that only bounds matter. -/
theorem check_eq {m : Memory} (h : m.size < addressSpace) (offset length : Nat) :
    m.check offset length = if offset + length ≤ m.size then .ok ()
      else .error (.outOfBounds offset length m.size) := by
  have hiff : (behind? offset length).any (· ≤ m.size) ↔ offset + length ≤ m.size := by
    simp only [behind?, Option.any_filter, Option.any_some, Bool.and_eq_true, decide_eq_true_eq]
    omega
  rw [check]
  simp only [hiff]

/-- **A store is carried out or not at all**: out of bounds it is refused before any byte is
stored. -/
theorem run_set {m : Memory} (h : m.size < addressSpace) (offset : Nat) (data : List UInt8) :
    (set offset data).run m = if offset + data.length ≤ m.size then .ok () (m.store offset data)
      else .error (.outOfBounds offset data.length m.size) m := by
  have hrun : (set offset data).run m =
      (MonadExcept.ofExcept (m.check offset data.length) >>= fun _ =>
        modify (·.store offset data) : Action Unit).run m := rfl
  rw [hrun, check_eq h]
  split
  · rfl
  · rfl

end Memory

end StackVM
