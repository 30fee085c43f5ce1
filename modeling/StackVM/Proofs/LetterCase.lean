import StackVM.Proofs.Lexemes

/-!
# Letters in either case

Whether a letter of a word is written in upper or in lower case makes no difference to the lexeme
that the word stands for: mnemonics are read in upper case, and the letters of hexadecimal numbers
have either case (`ofWord?_map_toLower`). Only ASCII letters have their case changed here.

What depends on a character has to agree on each of the 26 pairs of letters; `apply_toLower` takes
it from there to all characters.
-/

set_option autoImplicit false

namespace StackVM

namespace Text

/-- **What agrees on both cases of each letter** does not depend on the case. -/
theorem apply_toLower {α : Type} {f : Char → α}
    (h : ∀ k < 26, f (Char.ofNat (0x61 + k)) = f (Char.ofNat (0x41 + k))) (c : Char) :
    f c.toLower = f c := by
  by_cases hc : c.isUpper
  · have hlower : ∀ k < 26, (Char.ofNat (0x41 + k)).toLower = Char.ofNat (0x61 + k) := by decide
    obtain ⟨hle, hlt⟩ := toNat_of_isUpper hc
    obtain ⟨k, hk⟩ := Nat.exists_eq_add_of_le hle
    rw [← Char.ofNat_toNat c, hk, hlower k (by omega), h k (by omega)]
  · have hsame : c.toLower = c := by
      unfold Char.toLower
      rw [dif_neg]
      intro h
      exact hc (decide_eq_true h)
    rw [hsame]

/-- A character that is no letter is the lower case of no other one. -/
theorem toLower_eq_iff {d : Char}
    (h : ∀ k < 26, (Char.ofNat (0x61 + k) == d) = (Char.ofNat (0x41 + k) == d)) (c : Char) :
    c.toLower = d ↔ c = d := by
  rw [← beq_iff_eq, apply_toLower (f := (· == d)) h c, beq_iff_eq]

theorem head?_map_toLower_eq_iff {d : Char}
    (h : ∀ k < 26, (Char.ofNat (0x61 + k) == d) = (Char.ofNat (0x41 + k) == d))
    (cs : List Char) : (cs.map Char.toLower).head? = some d ↔ cs.head? = some d := by
  cases cs with
  | nil => simp
  | cons c cs => simp [toLower_eq_iff h]

theorem isBlank_toLower (c : Char) : isBlank c.toLower = isBlank c :=
  apply_toLower (by decide) c

theorem upperChar_toLower (c : Char) : upperChar c.toLower = upperChar c :=
  apply_toLower (by decide +kernel) c

theorem upper_map_toLower (word : List Char) : upper (word.map Char.toLower) = upper word := by
  unfold upper
  rw [List.flatMap_map]
  simp only [upperChar_toLower]

end Text

namespace Numeral

theorem digit?_toLower (radix : Nat) (c : Char) : digit? radix c.toLower = digit? radix c := by
  have hvalue : digitValue? c.toLower = digitValue? c := Text.apply_toLower (by decide) c
  rw [digit?, hvalue, digit?]

theorem natural?_map_toLower (radix : Nat) (digits : List Char) :
    natural? radix (digits.map Char.toLower) = natural? radix digits := by
  unfold natural? continue?
  rw [List.isEmpty_map, List.foldlM_map]
  simp only [digit?_toLower]

theorem unsigned?_map_toLower (radix : Nat) (digits : List Char) :
    unsigned? radix (digits.map Char.toLower) = unsigned? radix digits := by
  have hhead := Text.head?_map_toLower_eq_iff (d := '+') (by decide) digits
  by_cases h : digits.head? = some '+'
  · obtain ⟨rest, rfl⟩ := List.head?_eq_some_iff.1 h
    show unsigned? radix ('+' :: rest.map Char.toLower) = _
    rw [unsigned?, unsigned?, natural?_map_toLower]
  · rw [unsigned?_of_head (mt hhead.1 h), unsigned?_of_head h, natural?_map_toLower]

theorem signed?_map_toLower (radix : Nat) (digits : List Char) :
    signed? radix (digits.map Char.toLower) = signed? radix digits := by
  have hhead := Text.head?_map_toLower_eq_iff (d := '-') (by decide) digits
  by_cases h : digits.head? = some '-'
  · obtain ⟨rest, rfl⟩ := List.head?_eq_some_iff.1 h
    show signed? radix ('-' :: rest.map Char.toLower) = _
    rw [signed?, signed?, natural?_map_toLower]
  · rw [signed?_of_head (mt hhead.1 h), signed?_of_head h, natural?_map_toLower]

end Numeral

namespace Assembly.Lexeme

open Numeral

theorem startsDecimal_map_toLower (word : List Char) :
    startsDecimal (word.map Char.toLower) = startsDecimal word := by
  have hdigit (c : Char) : c.toLower.isDigit = c.isDigit := Text.apply_toLower (by decide) c
  have hhead := Text.head?_map_toLower_eq_iff (d := '-') (by decide) word
  by_cases h : word.head? = some '-'
  · obtain ⟨rest, rfl⟩ := List.head?_eq_some_iff.1 h
    show startsDecimal ('-' :: rest.map Char.toLower) = _
    cases rest with
    | nil => rfl
    | cons c rest => exact hdigit c
  · rw [startsDecimal_of_head (mt hhead.1 h), startsDecimal_of_head h, List.head?_map]
    cases word with
    | nil => rfl
    | cons c rest => exact hdigit c

/-- What does not start with `0x` does not do so with its letters in the other case. -/
theorem ne_hexadecimal_map_toLower {word : List Char} {x : Char} (hx : x = 'x' ∨ x = 'X')
    (h : ∀ y digits, y = 'x' ∨ y = 'X' → word ≠ '0' :: y :: digits) (digits : List Char) :
    word.map Char.toLower ≠ '0' :: x :: digits := by
  intro hword
  obtain ⟨c, rest, rfl, hc, hrest⟩ := List.map_eq_cons_iff.1 hword
  obtain ⟨y, digits, rfl, hy, -⟩ := List.map_eq_cons_iff.1 hrest
  have hmark : (y.toLower == 'x' || y.toLower == 'X') = (y == 'x' || y == 'X') :=
    Text.apply_toLower (f := fun c => c == 'x' || c == 'X') (by decide) y
  have hx' : (x == 'x' || x == 'X') = true := by simpa using hx
  rw [hy, hx'] at hmark
  rw [Text.toLower_eq_iff (by decide)] at hc
  exact h y digits (by simpa using hmark.symm) (by rw [hc])

/-- **A word stands for the same lexeme** in either case of its letters. -/
theorem ofWord?_map_toLower (word : List Char) :
    ofWord? (word.map Char.toLower) = ofWord? word := by
  by_cases h : ∃ x digits, (x = 'x' ∨ x = 'X') ∧ word = '0' :: x :: digits
  · obtain ⟨x, digits, hx, rfl⟩ := h
    have hword : ofWord? (('0' :: x :: digits).map Char.toLower) =
        hex? (digits.map Char.toLower) := by
      rcases hx with rfl | rfl
      · rfl
      · rfl
    rw [hword, ofWord?_of_hexadecimal hx, hex?, hex?, unsigned?_map_toLower]
  · have hne : ∀ y digits, y = 'x' ∨ y = 'X' → word ≠ '0' :: y :: digits :=
      fun y digits hy hword => h ⟨y, digits, hy, hword⟩
    rw [ofWord?_of_ne (fun y digits hy => ne_hexadecimal_map_toLower hy hne digits),
      ofWord?_of_ne hne, startsDecimal_map_toLower, decimal?, decimal?, signed?_map_toLower,
      Text.upper_map_toLower]

end Assembly.Lexeme

end StackVM
