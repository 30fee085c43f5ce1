/-!
# Numerals

Reading numbers from text. `Numeral.natural?` takes one or more digits of a radix and nothing else,
`Numeral.signed?` a minus sign before them and `Numeral.unsigned?` a plus sign. There is no limit
to the size here; a reader that has one filters the result.
-/

set_option autoImplicit false

namespace StackVM.Numeral

/-- The value of a digit, a letter of either case counting from ten on. -/
def digitValue? (c : Char) : Option Nat :=
  if c.isDigit then some (c.toNat - '0'.toNat)
  else if 'a' ≤ c ∧ c ≤ 'f' then some (c.toNat - 'a'.toNat + 10)
  else if 'A' ≤ c ∧ c ≤ 'F' then some (c.toNat - 'A'.toNat + 10)
  else none

/-- The value of a digit of a radix up to sixteen. -/
def digit? (radix : Nat) (c : Char) : Option Nat := (digitValue? c).filter (· < radix)

/-- The number that the digits `cs` denote after digits that denote `n`. -/
def continue? (radix n : Nat) (cs : List Char) : Option Nat :=
  cs.foldlM (fun n c => (digit? radix c).map (radix * n + ·)) n

def natural? (radix : Nat) (cs : List Char) : Option Nat :=
  if cs.isEmpty then none else continue? radix 0 cs

/-- The number that one or more digits denote, with or without a plus sign. -/
def unsigned? (radix : Nat) : List Char → Option Nat
  | '+' :: digits => natural? radix digits
  | digits => natural? radix digits

/-- The number that one or more digits denote, with or without a minus sign. -/
def signed? (radix : Nat) : List Char → Option Int
  | '-' :: digits => (natural? radix digits).map fun n => -(n : Int)
  | digits => (natural? radix digits).map fun n => (n : Int)

/-! ## Reading what is written -/

theorem continue?_append (radix n : Nat) (cs ds : List Char) :
    continue? radix n (cs ++ ds) = (continue? radix n cs).bind (continue? radix · ds) := by
  simp [continue?, List.foldlM_append]

theorem digitValue?_digitChar : ∀ d < 16, digitValue? d.digitChar = some d := by decide

theorem digit?_digitChar {radix d : Nat} (hr : radix ≤ 16) (h : d < radix) :
    digit? radix d.digitChar = some d := by
  simp [digit?, digitValue?_digitChar d (by omega), h]

theorem continue?_toDigits {radix : Nat} (hl : 1 < radix) (hr : radix ≤ 16) (n : Nat) :
    continue? radix 0 (Nat.toDigits radix n) = some n := by
  induction n using Nat.strongRecOn with
  | ind n ih =>
    rw [Nat.toDigits_eq_if hl]
    split
    · next h => simp [continue?, digit?_digitChar hr h]
    · next h =>
      have hmod : n % radix < radix := Nat.mod_lt _ (by omega)
      rw [continue?_append, ih _ (Nat.div_lt_self (by omega) hl)]
      simp [continue?, digit?_digitChar hr hmod, Nat.div_add_mod]

/-- The digits that are written for a number are read back as that number. -/
theorem natural?_toDigits {radix : Nat} (hl : 1 < radix) (hr : radix ≤ 16) (n : Nat) :
    natural? radix (Nat.toDigits radix n) = some n := by
  have hne : Nat.toDigits radix n ≠ [] := by
    rw [Nat.toDigits_eq_if hl]
    split <;> simp
  simp [natural?, hne, continue?_toDigits hl hr]

end StackVM.Numeral
