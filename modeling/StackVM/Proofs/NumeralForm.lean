import Mathlib.Data.List.Forall2
import Mathlib.Data.Nat.Digits.Defs
import StackVM.Proofs.Numerals

/-!
# The form of numerals

What the readers of numbers accept, and the number that it denotes: digits of the radix in
positional notation, the most significant first (`IsNumeral`), with an optional sign in front
(`IsSigned`, `IsUnsigned`). There is no bound on the number of digits, and leading zeros are digits
like all others.

* `digit?_eq_some_iff`, `natural?_eq_some_iff`: digits and sequences of them.
* `signed?_eq_some_iff`, `unsigned?_eq_some_iff`: with a sign, which is no digit.
-/

set_option autoImplicit false

namespace StackVM.Numeral

/-- The character `c` is the digit of value `d` in this radix; letters have either case. -/
def IsDigit (radix : Nat) (c : Char) (d : Nat) : Prop :=
  d < radix ∧ ("0123456789abcdef".toList[d]? = some c ∨ "0123456789ABCDEF".toList[d]? = some c)

/-- One or more digits, the most significant first, that denote `n`. -/
def IsNumeral (radix : Nat) (digits : List Char) (n : Nat) : Prop :=
  digits ≠ [] ∧ ∃ values, List.Forall₂ (IsDigit radix) digits values ∧
    n = Nat.ofDigits radix values.reverse

/-- A numeral, with or without a minus sign. -/
inductive IsSigned (radix : Nat) : List Char → Int → Prop
  | plain {digits : List Char} {n : Nat} : IsNumeral radix digits n → IsSigned radix digits n
  | minus {digits : List Char} {n : Nat} :
      IsNumeral radix digits n → IsSigned radix ('-' :: digits) (-n)

/-- A numeral, with or without a plus sign. -/
inductive IsUnsigned (radix : Nat) : List Char → Nat → Prop
  | plain {digits : List Char} {n : Nat} : IsNumeral radix digits n → IsUnsigned radix digits n
  | plus {digits : List Char} {n : Nat} :
      IsNumeral radix digits n → IsUnsigned radix ('+' :: digits) n

variable {radix n : Nat} {c : Char} {cs : List Char}

/-! ## Digits -/

theorem digitValue?_lowerDigits : ∀ d, (h : d < "0123456789abcdef".toList.length) →
    digitValue? "0123456789abcdef".toList[d] = some d := by decide

theorem digitValue?_upperDigits : ∀ d, (h : d < "0123456789ABCDEF".toList.length) →
    digitValue? "0123456789ABCDEF".toList[d] = some d := by decide

/-- The characters with the codes from `0` to `f` that are digits. -/
theorem mem_digits_of_lt : ∀ k < 0x67, ∀ d ∈ digitValue? (Char.ofNat k),
    "0123456789abcdef".toList[d]? = some (Char.ofNat k) ∨
      "0123456789ABCDEF".toList[d]? = some (Char.ofNat k) := by decide

theorem toNat_lt_of_digitValue? {d : Nat} (h : digitValue? c = some d) : c.toNat < 0x67 := by
  unfold digitValue? at h
  split at h
  · next hd =>
    have := toNat_of_isDigit hd
    omega
  split at h
  · next hf =>
    have hle : c.toNat ≤ 'f'.toNat := UInt32.le_iff_toNat_le.1 hf.2
    exact Nat.lt_of_le_of_lt hle (by decide)
  split at h
  · next hf =>
    have hle : c.toNat ≤ 'F'.toNat := UInt32.le_iff_toNat_le.1 hf.2
    exact Nat.lt_of_le_of_lt hle (by decide)
  · cases h

theorem digitValue?_eq_some_iff {d : Nat} :
    digitValue? c = some d ↔
      "0123456789abcdef".toList[d]? = some c ∨ "0123456789ABCDEF".toList[d]? = some c := by
  constructor
  · intro h
    have hmem := mem_digits_of_lt c.toNat (toNat_lt_of_digitValue? h) d
    rw [Char.ofNat_toNat] at hmem
    exact hmem h
  · rintro (h | h)
    · obtain ⟨hd, rfl⟩ := List.getElem?_eq_some_iff.1 h
      exact digitValue?_lowerDigits d hd
    · obtain ⟨hd, rfl⟩ := List.getElem?_eq_some_iff.1 h
      exact digitValue?_upperDigits d hd

theorem digit?_eq_some_iff {d : Nat} : digit? radix c = some d ↔ IsDigit radix c d := by
  rw [digit?, Option.filter_eq_some_iff, digitValue?_eq_some_iff, decide_eq_true_eq, and_comm]
  rfl

/-- The digits below ten are the decimal ones. -/
theorem IsDigit.isDigit {d : Nat} (h : IsDigit 10 c d) : c.isDigit := by
  obtain ⟨hlt, hc⟩ := h
  rw [← digitValue?_eq_some_iff] at hc
  unfold digitValue? at hc
  by_cases hd : c.isDigit
  · exact hd
  · rw [if_neg hd] at hc
    split at hc
    · rw [Option.some.injEq] at hc
      omega
    split at hc
    · rw [Option.some.injEq] at hc
      omega
    · cases hc

/-! ## Sequences of digits -/

theorem continue?_eq_some_iff {k : Nat} :
    continue? radix k cs = some n ↔ ∃ values, List.Forall₂ (IsDigit radix) cs values ∧
      n = values.foldl (fun m d => radix * m + d) k := by
  induction cs generalizing k with
  | nil =>
    constructor
    · rintro ⟨⟩
      exact ⟨[], .nil, rfl⟩
    · rintro ⟨values, hvalues, rfl⟩
      cases hvalues
      rfl
  | cons c cs ih =>
    have hcons : continue? radix k (c :: cs) =
        (digit? radix c).bind fun d => continue? radix (radix * k + d) cs := by
      rw [continue?, List.foldlM_cons]
      cases digit? radix c <;> rfl
    rw [hcons, Option.bind_eq_some_iff]
    constructor
    · rintro ⟨d, hd, hcs⟩
      obtain ⟨values, hvalues, rfl⟩ := ih.1 hcs
      exact ⟨d :: values, .cons (digit?_eq_some_iff.1 hd) hvalues, rfl⟩
    · rintro ⟨values, hvalues, rfl⟩
      cases hvalues with
      | cons hd hvalues => exact ⟨_, digit?_eq_some_iff.2 hd, ih.2 ⟨_, hvalues, rfl⟩⟩

/-- Reading from the left sums up the digits by their places. -/
theorem foldl_eq_ofDigits (values : List Nat) :
    values.foldl (fun m d => radix * m + d) 0 = Nat.ofDigits radix values.reverse := by
  rw [Nat.ofDigits_eq_foldr, List.foldr_reverse]
  simp only [Nat.cast_id, Nat.add_comm]

/-- **The numbers without a sign** that are read. -/
theorem natural?_eq_some_iff : natural? radix cs = some n ↔ IsNumeral radix cs n := by
  unfold natural? IsNumeral
  split
  · next h =>
    have hnil : cs = [] := List.isEmpty_iff.1 h
    simp [hnil]
  · next h =>
    have hne : cs ≠ [] := fun hnil => h (List.isEmpty_iff.2 hnil)
    simp only [continue?_eq_some_iff, foldl_eq_ofDigits, ne_eq, hne, not_false_eq_true, true_and]

theorem IsNumeral.exists_eq_cons (h : IsNumeral radix cs n) :
    ∃ c t d, cs = c :: t ∧ IsDigit radix c d := by
  obtain ⟨hne, values, hvalues, -⟩ := h
  cases hvalues with
  | nil => exact absurd rfl hne
  | cons hd _ => exact ⟨_, _, _, rfl, hd⟩

/-- No numeral starts with a sign. -/
theorem IsNumeral.head?_ne {sign : Char} (h : IsNumeral radix cs n)
    (hs : digitValue? sign = none) : cs.head? ≠ some sign := by
  intro hh
  obtain ⟨c, t, d, rfl, -, hd⟩ := h.exists_eq_cons
  cases hh
  rw [digitValue?_eq_some_iff.2 hd] at hs
  cases hs

/-! ### Digits that are written -/

theorem mem_toDigits {radix n : Nat} {c : Char} (hl : 1 < radix) (h : c ∈ Nat.toDigits radix n) :
    ∃ d < radix, c = d.digitChar := by
  induction n using Nat.strongRecOn with
  | ind n ih =>
    rw [Nat.toDigits_eq_if hl] at h
    split at h
    · next hn =>
      exact ⟨n, hn, List.mem_singleton.1 h⟩
    · next hn =>
      rcases List.mem_append.1 h with hmem | hmem
      · exact ih _ (Nat.div_lt_self (by omega) hl) hmem
      · exact ⟨n % radix, Nat.mod_lt _ (by omega), List.mem_singleton.1 hmem⟩

/-- No zero is written in front of other digits. -/
theorem head?_toDigits {radix n : Nat} (hl : 1 < radix) (hr : radix ≤ 16) (hn : n ≠ 0) :
    (Nat.toDigits radix n).head? ≠ some '0' := by
  have hzero : ∀ d < 16, d.digitChar = '0' → d = 0 := by decide
  induction n using Nat.strongRecOn with
  | ind n ih =>
    rw [Nat.toDigits_eq_if hl]
    split
    · next hlt =>
      intro hhead
      exact hn (hzero n (by omega) (Option.some.inj hhead))
    · next hlt =>
      have hdiv : n / radix ≠ 0 := Nat.div_ne_zero_iff.2 ⟨by omega, by omega⟩
      rw [List.head?_append_of_ne_nil _ Nat.toDigits_ne_nil]
      exact ih _ (Nat.div_lt_self (by omega) hl) hdiv

/-- Digits as they are printed: no zero stands in front of others, and no letter is a capital. -/
def IsPrinted (radix : Nat) (digits : List Char) (n : Nat) : Prop :=
  IsNumeral radix digits n ∧ (digits.head? = some '0' → digits = ['0']) ∧
    ∀ c ∈ digits, c ∈ "0123456789abcdef".toList

theorem isPrinted_toDigits {radix : Nat} (hl : 1 < radix) (hr : radix ≤ 16) (n : Nat) :
    IsPrinted radix (Nat.toDigits radix n) n := by
  have hlower : ∀ d < 16, d.digitChar ∈ "0123456789abcdef".toList := by decide
  refine ⟨natural?_eq_some_iff.1 (natural?_toDigits hl hr n), fun hhead => ?_, fun c hc => ?_⟩
  · by_cases hn : n = 0
    · rw [hn, Nat.toDigits_zero]
    · exact absurd hhead (head?_toDigits hl hr hn)
  · obtain ⟨d, hd, rfl⟩ := mem_toDigits hl hc
    exact hlower d (by omega)

/-! ## Signs -/

/-- **The numbers that are read with an optional minus sign.** -/
theorem signed?_eq_some_iff {k : Int} : signed? radix cs = some k ↔ IsSigned radix cs k := by
  refine ⟨fun h => ?_, fun h => ?_⟩
  · unfold signed? at h
    split at h
    · obtain ⟨_, hk, rfl⟩ := Option.map_eq_some_iff.1 h
      obtain ⟨n, hn, ⟨⟩⟩ := Option.bind_eq_some_iff.1 hk
      exact .minus (natural?_eq_some_iff.1 hn)
    · obtain ⟨_, hk, rfl⟩ := Option.map_eq_some_iff.1 h
      obtain ⟨n, hn, ⟨⟩⟩ := Option.bind_eq_some_iff.1 hk
      exact .plain (natural?_eq_some_iff.1 hn)
  · cases h with
    | plain hn =>
      rw [signed?_of_head (hn.head?_ne (by decide)), natural?_eq_some_iff.2 hn]
      rfl
    | minus hn =>
      rw [signed?, natural?_eq_some_iff.2 hn]
      rfl

/-- **The numbers that are read with an optional plus sign.** -/
theorem unsigned?_eq_some_iff : unsigned? radix cs = some n ↔ IsUnsigned radix cs n := by
  refine ⟨fun h => ?_, fun h => ?_⟩
  · unfold unsigned? at h
    split at h
    · exact .plus (natural?_eq_some_iff.1 h)
    · exact .plain (natural?_eq_some_iff.1 h)
  · cases h with
    | plain hn => rw [unsigned?_of_head (hn.head?_ne (by decide)), natural?_eq_some_iff.2 hn]
    | plus hn => rw [unsigned?, natural?_eq_some_iff.2 hn]

end StackVM.Numeral
