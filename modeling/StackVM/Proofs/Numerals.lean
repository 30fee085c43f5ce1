import StackVM.Text.Hex
import StackVM.Text.Numeral
import StackVM.Word

/-!
# Numbers that are printed and read

What is printed for a number is read back as that number: integers in decimal, with a minus sign if
they are negative (`signed?_toString`), and bytes as two hexadecimal digits each
(`natural?_ofBytes`), so that the digits of a word denote its pattern (`natural?_ofBytes_bytes`).
-/

set_option autoImplicit false

namespace StackVM.Numeral

/-! ## Decimal -/

theorem signed?_of_head {radix : Nat} {cs : List Char} (h : cs.head? ≠ some '-') :
    signed? radix cs = (natural? radix cs).map fun n => (n : Int) := by
  unfold signed?
  split
  · exact absurd rfl h
  · rfl

theorem unsigned?_of_head {radix : Nat} {cs : List Char} (h : cs.head? ≠ some '+') :
    unsigned? radix cs = natural? radix cs := by
  unfold unsigned?
  split
  · exact absurd rfl h
  · rfl

theorem toNat_of_isDigit {c : Char} (h : c.isDigit) : 0x30 ≤ c.toNat ∧ c.toNat < 0x3A := by
  simp only [Char.isDigit, Bool.and_eq_true, decide_eq_true_eq, UInt32.le_iff_toNat_le] at h
  exact ⟨h.1, Nat.lt_succ_of_le h.2⟩

/-- A printed number starts with a digit. -/
theorem exists_toDigits_eq_cons (n : Nat) :
    ∃ c cs, Nat.toDigits 10 n = c :: cs ∧ c.isDigit ∧ ∀ d ∈ cs, d.isDigit := by
  have hd : ∀ c ∈ Nat.toDigits 10 n, c.isDigit := fun c hc =>
    Nat.isDigit_of_mem_toDigits (by decide) (by decide) hc
  rcases h : Nat.toDigits 10 n with _ | ⟨c, cs⟩
  · exact absurd h Nat.toDigits_ne_nil
  · rw [h] at hd
    exact ⟨c, cs, rfl, hd c List.mem_cons_self, fun d hm => hd d (List.mem_cons_of_mem c hm)⟩

theorem toList_toString_of_nonneg {n : Int} (h : 0 ≤ n) :
    (toString n).toList = Nat.toDigits 10 n.toNat := by
  rw [Int.toString_eq_repr, Int.repr_eq_if, if_pos h, Nat.toList_repr]

theorem toList_toString_of_neg {n : Int} (h : n < 0) :
    (toString n).toList = '-' :: Nat.toDigits 10 (-n).toNat := by
  rw [Int.toString_eq_repr, Int.repr_eq_if, if_neg (by omega), String.toList_append,
    Nat.toList_repr]
  rfl

/-- **A printed integer is read back.** -/
theorem signed?_toString (n : Int) : signed? 10 (toString n).toList = some n := by
  by_cases h : 0 ≤ n
  · obtain ⟨c, cs, hc, hd, -⟩ := exists_toDigits_eq_cons n.toNat
    have hminus : (Nat.toDigits 10 n.toNat).head? ≠ some '-' := by
      rw [hc, List.head?_cons]
      rintro ⟨⟩
      exact absurd hd (by decide)
    rw [toList_toString_of_nonneg h, signed?_of_head hminus,
      natural?_toDigits (by decide) (by decide)]
    exact congrArg some (Int.toNat_of_nonneg h)
  · have hn : -((-n).toNat : Int) = n := by omega
    rw [toList_toString_of_neg (by omega), signed?, natural?_toDigits (by decide) (by decide)]
    exact congrArg some hn

theorem toString_ne_nil (n : Int) : (toString n).toList ≠ [] := by
  intro h
  have hread := signed?_toString n
  rw [h] at hread
  cases hread

/-- The characters of a printed integer. -/
theorem mem_toString {n : Int} {c : Char} (hc : c ∈ (toString n).toList) :
    c = '-' ∨ c.isDigit := by
  have hdigits {k : Nat} (h : c ∈ Nat.toDigits 10 k) : c.isDigit :=
    Nat.isDigit_of_mem_toDigits (by decide) (by decide) h
  by_cases h : 0 ≤ n
  · rw [toList_toString_of_nonneg h] at hc
    exact .inr (hdigits hc)
  · rw [toList_toString_of_neg (by omega), List.mem_cons] at hc
    exact hc.imp_right hdigits

/-! ## Hexadecimal -/

theorem continue?_byteDigits (n : Nat) (b : UInt8) :
    continue? 16 n (Hex.byteDigits b) = some (0x100 * n + b.toNat) := by
  have hb := b.toNat_lt
  have hhigh : digit? 16 (b.toNat / 16).digitChar = some (b.toNat / 16) :=
    digit?_digitChar (Nat.le_refl _) (by omega)
  have hlow : digit? 16 (b.toNat % 16).digitChar = some (b.toNat % 16) :=
    digit?_digitChar (Nat.le_refl _) (by omega)
  simp [continue?, Hex.byteDigits, hhigh, hlow]
  omega

theorem continue?_flatMap_byteDigits (n : Nat) (bytes : List UInt8) :
    continue? 16 n (bytes.flatMap Hex.byteDigits) =
      some (bytes.foldl (fun n b => 0x100 * n + b.toNat) n) := by
  induction bytes generalizing n with
  | nil => rfl
  | cons b bytes ih =>
    rw [List.flatMap_cons, continue?_append, continue?_byteDigits, Option.bind_some, ih]
    rfl

/-- **Printed bytes are read back** as the number that they are the digits of. -/
theorem natural?_ofBytes {bytes : List UInt8} (h : bytes ≠ []) :
    natural? 16 (Hex.ofBytes bytes).toList =
      some (bytes.foldl (fun n b => 0x100 * n + b.toNat) 0) := by
  have hne : bytes.flatMap Hex.byteDigits ≠ [] := by
    rcases bytes with _ | ⟨b, bytes⟩
    · exact absurd rfl h
    · simp [Hex.byteDigits]
  rw [Hex.ofBytes, String.toList_ofList, natural?, if_neg (by simpa using hne),
    continue?_flatMap_byteDigits]

theorem natural?_ofBytes_bytes (v : Word) :
    natural? 16 (Hex.ofBytes v.bytes).toList = some v.pattern := by
  have hv := v.pattern_lt
  rw [natural?_ofBytes (by simp [Word.bytes])]
  simp only [Word.bytes, List.foldl_cons, List.foldl_nil, Word.toNat_byte, Option.some.injEq]
  omega

/-- The characters of printed bytes. -/
theorem mem_ofBytes {bytes : List UInt8} {c : Char} (hc : c ∈ (Hex.ofBytes bytes).toList) :
    ∃ d < 16, c = d.digitChar := by
  rw [Hex.ofBytes, String.toList_ofList, List.mem_flatMap] at hc
  obtain ⟨b, -, hb⟩ := hc
  have := b.toNat_lt
  simp only [Hex.byteDigits, List.mem_cons, List.not_mem_nil, or_false] at hb
  obtain rfl | rfl := hb
  · exact ⟨_, by omega, rfl⟩
  · exact ⟨_, Nat.mod_lt _ (by decide), rfl⟩

end StackVM.Numeral
