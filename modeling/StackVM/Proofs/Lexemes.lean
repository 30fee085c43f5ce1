import StackVM.Assembly.Statement
import StackVM.Proofs.NumeralForm
import StackVM.Proofs.UpperCase

/-!
# The lexemes of words

Which words are names and which are numbers. A word that does not start like a number is a name,
read in upper case (`ofWord?_eq_name_iff`), and capitals are names only of words that upper case
turns into them (`ofWord?_eq_capitals_iff`). A decimal numeral starts like a number and not with
`0x` (`ofWord?_of_isSigned`).

So what a listing prints is read back: words of capitals (`ofWord?_capitals`), numbers in decimal
(`ofWord?_toString`) and bytes in hexadecimal (`ofWord?_hex`).
-/

set_option autoImplicit false

namespace StackVM.Assembly

namespace Lexeme

open Numeral

variable {w digits : List Char} {s : String} {k : Int}

/-! ## How words start -/

theorem startsDecimal_of_isDigit {c : Char} {cs : List Char} (h : c.isDigit) :
    startsDecimal (c :: cs) := by
  unfold startsDecimal
  split
  · next heq =>
    obtain ⟨rfl, -⟩ := List.cons.inj heq
    exact absurd h (by decide)
  · next heq =>
    obtain ⟨rfl, -⟩ := List.cons.inj heq
    exact h
  · next heq => cases heq

theorem startsDecimal_of_head (h : w.head? ≠ some '-') :
    startsDecimal w = w.head?.any Char.isDigit := by
  unfold startsDecimal
  split
  · exact absurd rfl h
  · rfl
  · rfl

/-- The first character of such a word, a digit or a minus sign, stands below the letters. -/
theorem exists_of_startsDecimal (h : startsDecimal w) : ∃ c cs, w = c :: cs ∧ c.toNat < 0x41 := by
  unfold startsDecimal at h
  split at h
  · exact ⟨'-', _, rfl, by decide⟩
  · next c cs _ =>
    have := toNat_of_isDigit h
    exact ⟨c, cs, rfl, by omega⟩
  · cases h

theorem startsDecimal_of_isSigned (h : IsSigned 10 w k) : startsDecimal w := by
  cases h with
  | plain hn =>
    obtain ⟨c, cs, d, rfl, hd⟩ := hn.exists_eq_cons
    exact startsDecimal_of_isDigit hd.isDigit
  | minus hn =>
    obtain ⟨c, cs, d, rfl, hd⟩ := hn.exists_eq_cons
    exact hd.isDigit

/-- What starts with `0x` is no decimal numeral. -/
theorem not_isSigned_hexadecimal {x : Char} (hx : x = 'x' ∨ x = 'X') :
    ¬ IsSigned 10 ('0' :: x :: digits) k := by
  intro h
  have hnone : digit? 10 x = none := by
    rcases hx with rfl | rfl
    · decide
    · decide
  cases h with
  | plain hn =>
    obtain ⟨-, values, hvalues, -⟩ := hn
    obtain ⟨_, _, -, hvalues', -⟩ := List.forall₂_cons_left_iff.1 hvalues
    obtain ⟨d, _, hd, -, -⟩ := List.forall₂_cons_left_iff.1 hvalues'
    rw [← digit?_eq_some_iff, hnone] at hd
    cases hd

theorem ofWord?_of_hexadecimal {x : Char} (hx : x = 'x' ∨ x = 'X') :
    ofWord? ('0' :: x :: digits) = hex? digits := by
  rcases hx with rfl | rfl
  · rfl
  · rfl

/-- What does not start with `0x` is a decimal number or a name. -/
theorem ofWord?_of_ne (h : ∀ x digits, x = 'x' ∨ x = 'X' → w ≠ '0' :: x :: digits) :
    ofWord? w =
      if startsDecimal w then decimal? w else some (name (String.ofList (Text.upper w))) := by
  unfold ofWord?
  split
  · exact absurd rfl (h 'x' _ (.inl rfl))
  · exact absurd rfl (h 'X' _ (.inr rfl))
  · rfl

/-! ## Names -/

theorem ofWord?_name (h : startsDecimal w = false) :
    ofWord? w = some (.name (String.ofList (Text.upper w))) := by
  unfold ofWord?
  split
  · cases h
  · cases h
  · rw [if_neg (by simp [h])]

theorem hex?_ne_name : hex? digits ≠ some (.name s) := by
  intro h
  obtain ⟨n, -, hn⟩ := Option.map_eq_some_iff.1 h
  cases hn

theorem decimal?_ne_name : decimal? w ≠ some (.name s) := by
  intro h
  obtain ⟨k, -, hk⟩ := Option.map_eq_some_iff.1 h
  cases hk

/-- **The words that are names**, which are read in upper case. -/
theorem ofWord?_eq_name_iff :
    ofWord? w = some (.name s) ↔ startsDecimal w = false ∧ s = String.ofList (Text.upper w) := by
  refine ⟨fun h => ?_, fun ⟨hs, hw⟩ => hw ▸ ofWord?_name hs⟩
  by_cases hs : startsDecimal w
  · unfold ofWord? at h
    split at h
    · exact absurd h hex?_ne_name
    · exact absurd h hex?_ne_name
    · rw [if_pos hs] at h
      exact absurd h decimal?_ne_name
  · rw [Bool.not_eq_true] at hs
    rw [ofWord?_name hs, Option.some.injEq, name.injEq] at h
    exact ⟨hs, h.symm⟩

/-- A word that upper case turns into capitals does not start like a number: digits and the minus
sign are their own upper case. -/
theorem startsDecimal_of_upper (h : (Text.upper w).all Char.isUpper) : startsDecimal w = false := by
  rw [Bool.eq_false_iff]
  intro hs
  obtain ⟨c, cs, rfl, hc⟩ := exists_of_startsDecimal hs
  rw [Text.upper_cons, Text.upperChar_of_lt (by omega), List.all_eq_true] at h
  have hupper := Text.toNat_of_isUpper (h c List.mem_cons_self)
  omega

/-- **The words that are read as capitals** are those that upper case turns into them. -/
theorem ofWord?_eq_capitals_iff (h : s.toList.all Char.isUpper) :
    ofWord? w = some (.name s) ↔ Text.upper w = s.toList := by
  rw [ofWord?_eq_name_iff]
  refine ⟨fun ⟨_, hs⟩ => ?_, fun hw => ?_⟩
  · rw [hs, String.toList_ofList]
  · rw [hw, String.ofList_toList]
    exact ⟨startsDecimal_of_upper (hw ▸ h), rfl⟩

/-- **A word of capitals is read back** as a name. -/
theorem ofWord?_capitals (h : s.toList.all Char.isUpper) : ofWord? s.toList = some (.name s) := by
  have hlt : ∀ c ∈ s.toList, c.toNat < 0x61 := by
    intro c hc
    have := Text.toNat_of_isUpper (List.all_eq_true.1 h c hc)
    omega
  exact (ofWord?_eq_capitals_iff h).2 (Text.upper_of_forall_lt hlt)

/-! ## Numbers -/

/-- **Hexadecimal numbers** have at most 64 bits. -/
theorem hex?_eq_some_iff {x : Lexeme} :
    hex? digits = some x ↔ ∃ n, IsUnsigned 16 digits n ∧ n ≤ 0xFFFFFFFFFFFFFFFF ∧ x = .hex n := by
  rw [hex?, Option.map_eq_some_iff]
  constructor
  · rintro ⟨n, hn, rfl⟩
    obtain ⟨hread, hlt⟩ := Option.filter_eq_some_iff.1 hn
    exact ⟨n, unsigned?_eq_some_iff.1 hread, Nat.le_of_lt_succ (of_decide_eq_true hlt), rfl⟩
  · rintro ⟨n, hn, hle, rfl⟩
    have hlt : n < 0x10000000000000000 := by omega
    exact ⟨n, Option.filter_eq_some_iff.2 ⟨unsigned?_eq_some_iff.2 hn, decide_eq_true hlt⟩, rfl⟩

/-- **Decimal numbers** are in the range of signed 64-bit integers. -/
theorem decimal?_eq_some_iff {x : Lexeme} :
    decimal? w = some x ↔ ∃ k, IsSigned 10 w k ∧ -0x8000000000000000 ≤ k ∧
      k ≤ 0x7FFFFFFFFFFFFFFF ∧ x = .decimal k := by
  rw [decimal?, Option.map_eq_some_iff]
  constructor
  · rintro ⟨k, hk, rfl⟩
    obtain ⟨hread, hrange⟩ := Option.filter_eq_some_iff.1 hk
    obtain ⟨hle, hlt⟩ := of_decide_eq_true hrange
    exact ⟨k, signed?_eq_some_iff.1 hread, hle, Int.le_of_lt_add_one hlt, rfl⟩
  · rintro ⟨k, hk, hle, hlt, rfl⟩
    have hrange : -0x8000000000000000 ≤ k ∧ k < 0x8000000000000000 := by omega
    exact ⟨k, Option.filter_eq_some_iff.2 ⟨signed?_eq_some_iff.2 hk, decide_eq_true hrange⟩, rfl⟩

theorem ofWord?_of_isSigned (h : IsSigned 10 w k) : ofWord? w = decimal? w := by
  have hs := startsDecimal_of_isSigned h
  unfold ofWord?
  split
  · exact absurd h (not_isSigned_hexadecimal (.inl rfl))
  · exact absurd h (not_isSigned_hexadecimal (.inr rfl))
  · rw [if_pos hs]

/-- **A printed word is read back** as a decimal number. -/
theorem ofWord?_toString (v : Word) :
    ofWord? (toString v.toInt).toList = some (.decimal v.toInt) := by
  have hread := signed?_eq_some_iff.1 (signed?_toString v.toInt)
  have hle := v.le_toInt
  have hlt := v.toInt_lt
  rw [ofWord?_of_isSigned hread, decimal?_eq_some_iff]
  exact ⟨v.toInt, hread, by omega, by omega, rfl⟩

/-- **The printed bytes of a word are read back** as its pattern. -/
theorem ofWord?_hex (v : Word) :
    ofWord? ('0' :: 'x' :: (Hex.ofBytes v.bytes).toList) = some (.hex v.pattern) := by
  have hread := natural?_eq_some_iff.1 (natural?_ofBytes_bytes v)
  have hv := v.pattern_lt
  rw [ofWord?_of_hexadecimal (.inl rfl), hex?_eq_some_iff]
  exact ⟨v.pattern, .plain hread, by omega, rfl⟩

/-! ## Arguments -/

theorem argument?_decimal (v : Word) : argument? (.decimal v.toInt) = some v := by
  have hle := v.le_toInt
  have hlt := v.toInt_lt
  rw [argument?, if_pos (by omega), Int32.ofInt_toInt]

end Lexeme

/-! ## Words of a line -/

/-- **The words of a line are read** one by one, and each has to be read. -/
theorem mapM_lexeme_eq_ok_iff {ws : List (List Char)} {xs : List Lexeme} :
    ws.mapM lexeme = .ok xs ↔ ws.map Lexeme.ofWord? = xs.map some := by
  induction ws generalizing xs with
  | nil => cases xs <;> simp [pure, Except.pure]
  | cons w ws ih =>
    rw [List.mapM_cons, lexeme]
    rcases hw : Lexeme.ofWord? w with _ | x
    · cases xs <;> simp [hw, bind, Except.bind]
    · rcases hws : ws.mapM lexeme with e | ys
      · cases xs <;> simp [hw, hws, ← ih, bind, Except.bind]
      · cases xs <;> simp [hw, hws, ← ih, bind, Except.bind, pure, Except.pure]

end StackVM.Assembly
