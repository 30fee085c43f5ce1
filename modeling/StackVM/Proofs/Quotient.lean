import Mathlib.Data.Int.ModEq
import Mathlib.Tactic.Linarith
import StackVM.Word.Division

/-!
# The division of words and Euclidean division

`Word.divMod?` chooses a quotient by the signs of its operands, and the remainder makes up the
difference modulo `0x100000000`. This module says what the two words are as integers, against the
quotient and the remainder of Euclidean division.

* `divMod?_of_nonneg`, `divMod?_of_not_dvd`: where they are the Euclidean ones.
* `divMod?_of_dvd_of_pos`, `divMod?_of_dvd_of_neg`: on a negative multiple of the divisor the
  quotient is one off, away from zero, and the remainder is the size of the divisor.
* `divMod?_of_add_lt`: where the sum of two negative operands wraps, the quotient has the wrong
  sign.

Each region starts from the quotient that is truncated toward zero (`Int.tdiv_eq_ediv`), and from
there the remainder follows (`toInt_remainder`).
-/

set_option autoImplicit false

namespace StackVM.Word

/-! ## Words as integers -/

variable {a b q r : Word} {k : Int}

/-- The integers that are words are those that wrapping leaves as they are. -/
theorem bmod_eq_self_iff : k.bmod 0x100000000 = k ↔ -0x80000000 ≤ k ∧ k < 0x80000000 := by
  rw [Int.bmod_eq_iff (by decide)]
  omega

theorem toInt_eq_bmod (w : Word) : w.toInt = w.toInt.bmod 0x100000000 :=
  (bmod_eq_self_iff.2 ⟨w.le_toInt, w.toInt_lt⟩).symm

theorem abs_toInt_le (w : Word) : |w.toInt| ≤ 0x80000000 := abs_le.2 ⟨w.le_toInt, w.toInt_lt.le⟩

theorem toInt_ne_zero (hb : b ≠ 0) : b.toInt ≠ 0 := by
  rwa [ne_eq, ← Int32.toInt_zero, Int32.toInt_inj]

theorem pos_iff : 0 < a ↔ 0 < a.toInt := by
  rw [Int32.lt_iff_toInt_lt, Int32.toInt_zero]

/-- The one quotient and the one remainder of Euclidean division are those of the integers. -/
theorem ediv_emod_of_eq {x y Q R : Int} (h : x = y * Q + R) (hR : 0 ≤ R) (hlt : R < |y|) :
    x / y = Q ∧ x % y = R := by
  rcases lt_trichotomy y 0 with hy | rfl | hy
  · rw [abs_of_neg hy] at hlt
    exact (Int.ediv_emod_unique' hy).2 ⟨by omega, hR, hlt⟩
  · simp at hlt
    omega
  · rw [abs_of_pos hy] at hlt
    exact (Int.ediv_emod_unique hy).2 ⟨by omega, hR, hlt⟩

/-! ## Quotients by sign -/

theorem toInt_quotient_of_nonneg (ha : 0 ≤ a.toInt) :
    (quotient a b).toInt = a.toInt / b.toInt := by
  unfold quotient
  split
  · next h => simp [h]
  · next h =>
    have hne := toInt_ne_zero h
    have hpos : 0 < a := pos_iff.2 (by omega)
    have hmin : a ≠ Int32.minValue := by
      rintro rfl
      exact absurd ha (by decide)
    rw [if_pos hpos, Int32.toInt_div_of_ne_left a b hmin, Int.tdiv_eq_ediv_of_nonneg ha]

theorem quotient_of_neg (ha : a.toInt < 0) :
    quotient a b = if 0 < b then a / b - 1 else (a + b) / b := by
  have hzero : a ≠ 0 := by
    rintro rfl
    exact absurd ha (by decide)
  have hpos : ¬ 0 < a := by
    rw [pos_iff]
    omega
  rw [quotient, if_neg hzero, if_neg hpos]

theorem toInt_quotient_of_neg_of_pos (ha : a.toInt < 0) (hb : 0 < b.toInt) :
    (quotient a b).toInt =
      (a.toInt / b.toInt - if b.toInt ∣ a.toInt then 1 else 0).bmod 0x100000000 := by
  have hne : b ≠ -1 := by
    rintro rfl
    exact absurd hb (by decide)
  rw [quotient_of_neg ha, if_pos (pos_iff.2 hb), Int32.toInt_sub,
    Int32.toInt_div_of_ne_right a b hne, Int32.toInt_one, Int.tdiv_eq_ediv,
    Int.sign_eq_one_of_pos hb]
  by_cases hd : b.toInt ∣ a.toInt
  · simp [hd]
  · have hna : ¬ 0 ≤ a.toInt := by omega
    simp [hd, hna]

/-- The sum of two operands, if it does not wrap. -/
theorem toInt_add_of_le (hs : -0x80000000 ≤ a.toInt + b.toInt) (ha : a.toInt < 0)
    (hb : b.toInt < 0) : (a + b).toInt = a.toInt + b.toInt := by
  rw [Int32.toInt_add]
  exact bmod_eq_self_iff.2 ⟨hs, by omega⟩

theorem toInt_quotient_of_neg_of_neg (ha : a.toInt < 0) (hb : b.toInt < 0)
    (hs : -0x80000000 ≤ a.toInt + b.toInt) :
    (quotient a b).toInt =
      (a.toInt / b.toInt + if b.toInt ∣ a.toInt then 1 else 0).bmod 0x100000000 := by
  have hpos : ¬ 0 < b := by
    rw [pos_iff]
    omega
  have hadd : (a.toInt + b.toInt) / b.toInt = a.toInt / b.toInt + 1 := by
    rw [Int.add_ediv_of_dvd_right (dvd_refl _), Int.ediv_self (by omega)]
  have hdvd : b.toInt ∣ a.toInt + b.toInt ↔ b.toInt ∣ a.toInt := Int.dvd_add_left (dvd_refl _)
  rw [quotient_of_neg ha, if_neg hpos, Int32.toInt_div, toInt_add_of_le hs ha hb, Int.tdiv_eq_ediv,
    hadd, Int.sign_eq_neg_one_of_neg hb]
  by_cases hd : b.toInt ∣ a.toInt
  · simp [hdvd, hd]
  · have hns : ¬ 0 ≤ a.toInt + b.toInt := by omega
    simp [hdvd, hd, hns]

/-- **Where the sum of negative operands wraps**, it is not negative any more, and so the quotient
is not positive. -/
theorem toInt_quotient_of_add_lt (ha : a.toInt < 0) (hb : b.toInt < 0)
    (hs : a.toInt + b.toInt < -0x80000000) :
    (quotient a b).toInt = -((a.toInt + b.toInt + 0x100000000) / |b.toInt|) := by
  have hpos : ¬ 0 < b := by
    rw [pos_iff]
    omega
  have hla := a.le_toInt
  have hlb := b.le_toInt
  have hadd : (a + b).toInt = a.toInt + b.toInt + 0x100000000 := by
    rw [Int32.toInt_add, Int.bmod_eq_iff (by decide)]
    omega
  have hmin : a + b ≠ Int32.minValue := by
    intro h
    rw [h, show Int32.minValue.toInt = -0x80000000 by decide] at hadd
    omega
  rw [quotient_of_neg ha, if_neg hpos, Int32.toInt_div_of_ne_left _ _ hmin, hadd,
    Int.tdiv_eq_ediv_of_nonneg (by omega), abs_of_neg hb, Int.ediv_neg, neg_neg]

/-! ## Remainders -/

/-- **The remainder** is what the quotient leaves, modulo `0x100000000`. -/
theorem toInt_remainder (hq : (quotient a b).toInt = k.bmod 0x100000000) :
    (a - b * quotient a b).toInt = (a.toInt - b.toInt * k).bmod 0x100000000 := by
  rw [Int32.toInt_sub, Int32.toInt_mul, hq]
  show Int.bmod (_ - Int.bmod (_ * Int.bmod k 0x100000000) 0x100000000) 0x100000000 = _
  rw [Int.mul_bmod_bmod, Int.sub_bmod_bmod]

/-- The Euclidean quotient leaves the Euclidean remainder. -/
theorem toInt_remainder_of_ediv (hb : b ≠ 0) (hq : (quotient a b).toInt = a.toInt / b.toInt) :
    (a - b * quotient a b).toInt = a.toInt % b.toInt := by
  have hk : (quotient a b).toInt = (a.toInt / b.toInt).bmod 0x100000000 := by
    rw [← hq]
    exact toInt_eq_bmod _
  have hnonneg := Int.emod_nonneg a.toInt (toInt_ne_zero hb)
  have hlt := Int.emod_lt_abs a.toInt (toInt_ne_zero hb)
  have habs := b.abs_toInt_le
  rw [toInt_remainder hk, ← Int.emod_def]
  exact bmod_eq_self_iff.2 ⟨by omega, by omega⟩

/-! ## The regions of the operands -/

theorem divMod?_eq_some_iff :
    divMod? a b = some (q, r) ↔ b ≠ 0 ∧ q = quotient a b ∧ r = a - b * quotient a b := by
  by_cases hb : b = 0
  · simp [divMod?, hb]
  · simp [divMod?, hb, eq_comm]

/-- **On operands of which the left one is not negative** division is Euclidean. -/
theorem divMod?_of_nonneg (h : divMod? a b = some (q, r)) (ha : 0 ≤ a.toInt) :
    q.toInt = a.toInt / b.toInt ∧ r.toInt = a.toInt % b.toInt := by
  obtain ⟨hb, rfl, rfl⟩ := divMod?_eq_some_iff.1 h
  have hq := toInt_quotient_of_nonneg (b := b) ha
  exact ⟨hq, toInt_remainder_of_ediv hb hq⟩

/-- A negative number over one that does not divide it: the quotient is a word. -/
theorem ediv_lt_of_not_dvd (ha : a.toInt < 0) (hd : ¬ b.toInt ∣ a.toInt) :
    -0x80000000 ≤ a.toInt / b.toInt ∧ a.toInt / b.toInt < 0x80000000 := by
  have hla := a.le_toInt
  have habs : |a.toInt / b.toInt| ≤ |a.toInt| := Int.abs_ediv_le_abs _ _
  rw [abs_of_neg ha, abs_le] at habs
  refine ⟨by omega, ?_⟩
  rcases lt_trichotomy b.toInt 0 with hb | hb | hb
  · have hb2 : b.toInt ≤ -2 := by
      by_contra hc
      have hone : b.toInt = -1 := by omega
      exact hd (hone ▸ Int.neg_dvd.2 (one_dvd _))
    have hdiv := Int.mul_ediv_add_emod a.toInt b.toInt
    have hlt := Int.emod_lt_abs a.toInt (show b.toInt ≠ 0 by omega)
    rw [abs_of_neg hb] at hlt
    have hq := Int.ediv_pos_of_neg_of_neg ha hb
    nlinarith
  · rw [hb, Int.ediv_zero]
    omega
  · have hq := Int.ediv_neg_of_neg_of_pos ha hb
    omega

/-- **On a negative number that the divisor does not divide** division is Euclidean, if the sum of
two negative operands does not wrap. -/
theorem divMod?_of_not_dvd (h : divMod? a b = some (q, r)) (ha : a.toInt < 0)
    (hd : ¬ b.toInt ∣ a.toInt) (hs : b.toInt < 0 → -0x80000000 ≤ a.toInt + b.toInt) :
    q.toInt = a.toInt / b.toInt ∧ r.toInt = a.toInt % b.toInt := by
  obtain ⟨hb, rfl, rfl⟩ := divMod?_eq_some_iff.1 h
  have hq : (quotient a b).toInt = a.toInt / b.toInt := by
    rcases Int.lt_or_gt_of_ne (toInt_ne_zero hb) with hneg | hpos
    · rw [toInt_quotient_of_neg_of_neg ha hneg (hs hneg), if_neg hd, Int.add_zero]
      exact bmod_eq_self_iff.2 (ediv_lt_of_not_dvd ha hd)
    · rw [toInt_quotient_of_neg_of_pos ha hpos, if_neg hd, Int.sub_zero]
      exact bmod_eq_self_iff.2 (ediv_lt_of_not_dvd ha hd)
  exact ⟨hq, toInt_remainder_of_ediv hb hq⟩

/-- **On a negative multiple of a positive divisor** the quotient is one too low. -/
theorem divMod?_of_dvd_of_pos (h : divMod? a b = some (q, r)) (ha : a.toInt < 0)
    (hb : 0 < b.toInt) (hd : b.toInt ∣ a.toInt) :
    q.toInt = (a.toInt / b.toInt - 1).bmod 0x100000000 ∧ r.toInt = |b.toInt| := by
  obtain ⟨-, rfl, rfl⟩ := divMod?_eq_some_iff.1 h
  have hq := toInt_quotient_of_neg_of_pos ha hb
  rw [if_pos hd] at hq
  have hrest : a.toInt - b.toInt * (a.toInt / b.toInt - 1) = b.toInt := by
    rw [mul_sub, mul_one, Int.mul_ediv_cancel' hd]
    omega
  rw [toInt_remainder hq, hrest, abs_of_pos hb]
  exact ⟨hq, (toInt_eq_bmod b).symm⟩

/-- **On a negative multiple of a negative divisor** the quotient is one too high, if the sum of the
operands does not wrap. -/
theorem divMod?_of_dvd_of_neg (h : divMod? a b = some (q, r)) (ha : a.toInt < 0)
    (hb : b.toInt < 0) (hd : b.toInt ∣ a.toInt) (hs : -0x80000000 ≤ a.toInt + b.toInt) :
    q.toInt = (a.toInt / b.toInt + 1).bmod 0x100000000 ∧ r.toInt = |b.toInt| := by
  obtain ⟨-, rfl, rfl⟩ := divMod?_eq_some_iff.1 h
  have hq := toInt_quotient_of_neg_of_neg ha hb hs
  rw [if_pos hd] at hq
  have hrest : a.toInt - b.toInt * (a.toInt / b.toInt + 1) = -b.toInt := by
    rw [mul_add, mul_one, Int.mul_ediv_cancel' hd]
    omega
  rw [toInt_remainder hq, hrest, abs_of_neg hb]
  exact ⟨hq, bmod_eq_self_iff.2 ⟨by omega, by omega⟩⟩

/-- The quotient that is one too low is a word but for one pair of operands. -/
theorem ediv_sub_one_wraps_iff (ha : a.toInt < 0) (hb : 0 < b.toInt) (hd : b.toInt ∣ a.toInt) :
    (a.toInt / b.toInt - 1).bmod 0x100000000 ≠ a.toInt / b.toInt - 1 ↔
      a.toInt = -0x80000000 ∧ b.toInt = 1 := by
  have hla := a.le_toInt
  have hmul : b.toInt * (a.toInt / b.toInt) = a.toInt := Int.mul_ediv_cancel' hd
  have hq := Int.ediv_neg_of_neg_of_pos ha hb
  rw [ne_eq, bmod_eq_self_iff]
  by_cases hone : b.toInt = 1
  · rw [hone, Int.ediv_one]
    omega
  · -- A divisor of two or more halves the number at least.
    have htwo : 2 ≤ b.toInt := by omega
    have hhalf : a.toInt ≤ 2 * (a.toInt / b.toInt) := by nlinarith
    omega

/-- The quotient that is one too high is a word but for one pair of operands. -/
theorem ediv_add_one_wraps_iff (ha : a.toInt < 0) (hb : b.toInt < 0) (hd : b.toInt ∣ a.toInt)
    (hs : -0x80000000 ≤ a.toInt + b.toInt) :
    (a.toInt / b.toInt + 1).bmod 0x100000000 ≠ a.toInt / b.toInt + 1 ↔
      a.toInt = -0x7fffffff ∧ b.toInt = -1 := by
  have hmul : b.toInt * (a.toInt / b.toInt) = a.toInt := Int.mul_ediv_cancel' hd
  have hq := Int.ediv_pos_of_neg_of_neg ha hb
  rw [ne_eq, bmod_eq_self_iff]
  by_cases hone : b.toInt = -1
  · rw [hone, Int.ediv_neg, Int.ediv_one]
    omega
  · have htwo : b.toInt ≤ -2 := by omega
    have hhalf : a.toInt ≤ -2 * (a.toInt / b.toInt) := by nlinarith
    omega

/-- The parts of a division make up the dividend, modulo `0x100000000`. -/
theorem modEq_of_divMod? (h : divMod? a b = some (q, r)) :
    a.toInt ≡ b.toInt * q.toInt + r.toInt [ZMOD 0x100000000] := by
  rw [← mul_add_of_divMod? h, Int32.toInt_add, Int32.toInt_mul]
  show Int.bmod (Int.bmod _ 0x100000000 + _) 0x100000000 % 0x100000000 = _
  rw [Int.bmod_add_bmod]
  exact Int.bmod_emod

/-- **Where the sum of negative operands wraps**, the Euclidean quotient is positive and that of the
words is not. -/
theorem divMod?_of_add_lt (h : divMod? a b = some (q, r)) (ha : a.toInt < 0) (hb : b.toInt < 0)
    (hs : a.toInt + b.toInt < -0x80000000) :
    q.toInt = -((a.toInt + b.toInt + 0x100000000) / |b.toInt|) ∧ q.toInt ≤ 0 ∧
      0 < a.toInt / b.toInt := by
  obtain ⟨-, rfl, rfl⟩ := divMod?_eq_some_iff.1 h
  have hla := a.le_toInt
  have hlb := b.le_toInt
  have hq := toInt_quotient_of_add_lt ha hb hs
  have hdiv : 0 ≤ (a.toInt + b.toInt + 0x100000000) / |b.toInt| :=
    Int.ediv_nonneg (by omega) (abs_nonneg _)
  exact ⟨hq, by omega, Int.ediv_pos_of_neg_of_neg ha hb⟩

/-- **Where division is Euclidean**: both parts are right there, and one is wrong elsewhere. -/
theorem divMod?_eq_ediv_emod_iff (h : divMod? a b = some (q, r)) :
    q.toInt = a.toInt / b.toInt ∧ r.toInt = a.toInt % b.toInt ↔
      0 ≤ a.toInt ∨
        ¬ b.toInt ∣ a.toInt ∧ ¬ (b.toInt < 0 ∧ a.toInt + b.toInt < -0x80000000) := by
  have hne : b.toInt ≠ 0 := toInt_ne_zero (divMod?_eq_some_iff.1 h).1
  by_cases ha : 0 ≤ a.toInt
  · exact iff_of_true (divMod?_of_nonneg h ha) (.inl ha)
  have hneg : a.toInt < 0 := by omega
  by_cases hs : b.toInt < 0 ∧ a.toInt + b.toInt < -0x80000000
  · obtain ⟨-, hnonpos, hpos⟩ := divMod?_of_add_lt h hneg hs.1 hs.2
    exact iff_of_false (fun he => by omega) (by simp [ha, hs])
  have hsum : b.toInt < 0 → -0x80000000 ≤ a.toInt + b.toInt := by omega
  by_cases hd : b.toInt ∣ a.toInt
  · have hr : r.toInt = |b.toInt| := by
      rcases Int.lt_or_gt_of_ne hne with hlt | hgt
      · exact (divMod?_of_dvd_of_neg h hneg hlt hd (hsum hlt)).2
      · exact (divMod?_of_dvd_of_pos h hneg hgt hd).2
    have hzero : a.toInt % b.toInt = 0 := Int.emod_eq_zero_of_dvd hd
    have habs : 0 < |b.toInt| := abs_pos.2 hne
    exact iff_of_false (fun he => by omega) (by simp [ha, hd])
  · exact iff_of_true (divMod?_of_not_dvd h hneg hd hsum) (.inr ⟨hd, hs⟩)

/-- **The division of words, exactly.** Let `Q` and `R` be the Euclidean quotient and remainder. The
parts of the division make up the dividend modulo `0x100000000`. They are `Q` and `R` exactly if the
dividend is not negative, or the divisor does not divide it and the sum of two negative operands
does not wrap. On a negative multiple of the divisor the remainder is the size of the divisor and
the quotient is one off, as a word; for each sign of the divisor that wraps for one pair of
operands. Where the sum of two negative operands wraps, the quotient has the wrong sign. -/
theorem divMod?_exact (a b : Word) (hb : b ≠ 0) (Q R : Int) (hQR : a.toInt = b.toInt * Q + R)
    (hR : 0 ≤ R) (hlt : R < |b.toInt|) :
    ∃ q r, divMod? a b = some (q, r) ∧
      a.toInt ≡ b.toInt * q.toInt + r.toInt [ZMOD 0x100000000] ∧
      (q.toInt = Q ∧ r.toInt = R ↔
        0 ≤ a.toInt ∨
          ¬ b.toInt ∣ a.toInt ∧ ¬ (b.toInt < 0 ∧ a.toInt + b.toInt < -0x80000000)) ∧
      (a.toInt < 0 → b.toInt ∣ a.toInt → 0 < b.toInt →
        r.toInt = |b.toInt| ∧ q.toInt = (Q - 1).bmod 0x100000000 ∧
          (q.toInt ≠ Q - 1 ↔ a.toInt = -0x80000000 ∧ b.toInt = 1)) ∧
      (a.toInt < 0 → b.toInt ∣ a.toInt → b.toInt < 0 → -0x80000000 ≤ a.toInt + b.toInt →
        r.toInt = |b.toInt| ∧ q.toInt = (Q + 1).bmod 0x100000000 ∧
          (q.toInt ≠ Q + 1 ↔ a.toInt = -0x7fffffff ∧ b.toInt = -1)) ∧
      (a.toInt < 0 → b.toInt < 0 → a.toInt + b.toInt < -0x80000000 →
        q.toInt = -((a.toInt + b.toInt + 0x100000000) / |b.toInt|) ∧ q.toInt ≤ 0 ∧ 0 < Q) := by
  obtain ⟨rfl, rfl⟩ := ediv_emod_of_eq hQR hR hlt
  have h : divMod? a b = some (quotient a b, a - b * quotient a b) :=
    divMod?_eq_some_iff.2 ⟨hb, rfl, rfl⟩
  refine ⟨_, _, h, modEq_of_divMod? h, divMod?_eq_ediv_emod_iff h, fun ha hd hpos => ?_,
    fun ha hd hneg hs => ?_, divMod?_of_add_lt h⟩
  · obtain ⟨hq, hr⟩ := divMod?_of_dvd_of_pos h ha hpos hd
    exact ⟨hr, hq, hq ▸ ediv_sub_one_wraps_iff ha hpos hd⟩
  · obtain ⟨hq, hr⟩ := divMod?_of_dvd_of_neg h ha hneg hd hs
    exact ⟨hr, hq, hq ▸ ediv_add_one_wraps_iff ha hneg hd hs⟩

theorem divMod?_exact_multiple :
    (3 : Word) ≠ 0 ∧ (-9 : Word).toInt = (3 : Word).toInt * -3 + 0 ∧
    (0 : Int) < |(3 : Word).toInt| ∧ divMod? (-9) 3 = some (-4, 3) ∧
    ¬ ((-4 : Word).toInt = -3 ∧ (3 : Word).toInt = 0) ∧
    (-9 : Word).toInt ≡ (3 : Word).toInt * (-4 : Word).toInt + (3 : Word).toInt
      [ZMOD 0x100000000] := by
  have hQR : (-9 : Word).toInt = (3 : Word).toInt * -3 + 0 := by decide
  have hlt : (0 : Int) < |(3 : Word).toInt| := by decide
  obtain ⟨q, r, h, hmod, hiff, hpos, -⟩ := divMod?_exact (-9) 3 (by decide) (-3) 0 hQR le_rfl hlt
  have hqr : divMod? (-9) 3 = some (-4, 3) := by decide
  rw [hqr] at h
  cases h
  exact ⟨by decide, hQR, hlt, hqr, fun he => absurd (hiff.1 he) (by decide), hmod⟩

/-- The quotient that is one too high wraps: it is `-0x80000000`, and not `Q + 1`. -/
theorem quotient_ne_add_one :
    (-0x7fffffff : Word).toInt = (-1 : Word).toInt * 0x7fffffff + 0 ∧
    (0 : Int) < |(-1 : Word).toInt| ∧ (-0x7fffffff : Word).toInt < 0 ∧
    (-1 : Word).toInt ∣ (-0x7fffffff : Word).toInt ∧
    -0x80000000 ≤ (-0x7fffffff : Word).toInt + (-1 : Word).toInt ∧
    divMod? (-0x7fffffff) (-1) = some (-0x80000000, 1) ∧
    (-0x80000000 : Word).toInt ≠ 0x7fffffff + 1 := by
  decide

end StackVM.Word
