import StackVM.Proofs.AssemblyLines
import StackVM.Proofs.Lexemes
import StackVM.Proofs.NumeralForm
import StackVM.Proofs.WordBytes

/-!
# The grammar of assembly text

`IsStatement` says which words a line may hold and which instruction they denote, without any
reading: no word, a mnemonic other than `PUSH`, or `PUSH` and an operand. An operand of value `v`
is a decimal numeral of the signed value of `v` or a hexadecimal numeral of its pattern
(`IsOperand`), so that no number outside of a word's range is one.

* `ofWord?_bind_argument?`: the words that are read as operands, and
  `exists_isOperand_of_isSigned`, `exists_isOperand_of_isUnsigned`: the numerals among them.
* `ofWord?_eq_mnemonic_iff`: the words that are read as a mnemonic.
* `lineProgram_eq_ok_iff`: the lines that are accepted, and what each denotes.
* `assemble_exact`: the texts that are accepted, line by line.
-/

set_option autoImplicit false

namespace StackVM

namespace Assembly

open Numeral

/-! ## Operands -/

/-- A word of text that denotes `v` after `PUSH`. -/
inductive IsOperand : List Char → Word → Prop
  | decimal {word : List Char} {v : Word} : IsSigned 10 word v.toInt → IsOperand word v
  | hexadecimal {x : Char} {digits : List Char} {v : Word} : x = 'x' ∨ x = 'X' →
      IsUnsigned 16 digits v.pattern → IsOperand ('0' :: x :: digits) v

variable {w digits : List Char} {x : Char} {k : Int} {n : Nat} {v : Word}

theorem argument?_decimal_eq_some_iff : argument? (.decimal k) = some v ↔ v.toInt = k := by
  refine ⟨fun h => ?_, fun h => h ▸ Lexeme.argument?_decimal v⟩
  rw [argument?] at h
  split at h
  · next hk =>
    cases h
    exact Int32.toInt_ofInt_of_le hk.1 hk.2
  · cases h

theorem argument?_hex_eq_some_iff : argument? (.hex n) = some v ↔ v.pattern = n := by
  refine ⟨fun h => ?_, fun h => ?_⟩
  · rw [argument?] at h
    split at h
    · next hn =>
      cases h
      rw [Word.pattern_ofPattern, Nat.mod_eq_of_lt hn]
    · cases h
  · subst h
    rw [argument?, if_pos v.pattern_lt, Word.ofPattern_pattern]

/-! A number is read within the bounds of its reader first. They are wider than those of a word, so
they refuse nothing that is an operand. -/

theorem decimal?_bind_argument? :
    (Lexeme.decimal? w).bind argument? = some v ↔ IsSigned 10 w v.toInt := by
  rw [Option.bind_eq_some_iff]
  constructor
  · rintro ⟨lexeme, hl, hv⟩
    obtain ⟨k, hk, -, -, rfl⟩ := Lexeme.decimal?_eq_some_iff.1 hl
    rwa [argument?_decimal_eq_some_iff.1 hv]
  · intro h
    have hle := v.le_toInt
    have hlt := v.toInt_lt
    have hl : Lexeme.decimal? w = some (.decimal v.toInt) :=
      Lexeme.decimal?_eq_some_iff.2 ⟨v.toInt, h, by omega, by omega, rfl⟩
    exact ⟨_, hl, argument?_decimal_eq_some_iff.2 rfl⟩

theorem hex?_bind_argument? :
    (Lexeme.hex? digits).bind argument? = some v ↔ IsUnsigned 16 digits v.pattern := by
  rw [Option.bind_eq_some_iff]
  constructor
  · rintro ⟨lexeme, hl, hv⟩
    obtain ⟨n, hn, -, rfl⟩ := Lexeme.hex?_eq_some_iff.1 hl
    rwa [argument?_hex_eq_some_iff.1 hv]
  · intro h
    have hlt := v.pattern_lt
    have hl : Lexeme.hex? digits = some (.hex v.pattern) :=
      Lexeme.hex?_eq_some_iff.2 ⟨v.pattern, h, by omega, rfl⟩
    exact ⟨_, hl, argument?_hex_eq_some_iff.2 rfl⟩

/-! ### The kinds of words exclude each other -/

theorem startsDecimal_of_isOperand (h : IsOperand w v) : Lexeme.startsDecimal w := by
  cases h with
  | decimal hw => exact Lexeme.startsDecimal_of_isSigned hw
  | hexadecimal => rfl

theorem isOperand_hexadecimal_iff (hx : x = 'x' ∨ x = 'X') :
    IsOperand ('0' :: x :: digits) v ↔ IsUnsigned 16 digits v.pattern := by
  refine ⟨fun h => ?_, .hexadecimal hx⟩
  cases h with
  | decimal hw => exact absurd hw (Lexeme.not_isSigned_hexadecimal hx)
  | hexadecimal _ hd => exact hd

theorem isOperand_decimal_iff (hx : ∀ digits, w ≠ '0' :: 'x' :: digits)
    (hX : ∀ digits, w ≠ '0' :: 'X' :: digits) : IsOperand w v ↔ IsSigned 10 w v.toInt := by
  refine ⟨fun h => ?_, .decimal⟩
  cases h with
  | decimal hw => exact hw
  | @hexadecimal x digits _ hx' _ =>
    rcases hx' with rfl | rfl
    · exact absurd rfl (hx digits)
    · exact absurd rfl (hX digits)

/-- **The words that are read as operands**, and the values that they give. -/
theorem ofWord?_bind_argument? :
    (Lexeme.ofWord? w).bind argument? = some v ↔ IsOperand w v := by
  unfold Lexeme.ofWord?
  split
  · rw [hex?_bind_argument?, isOperand_hexadecimal_iff (.inl rfl)]
  · rw [hex?_bind_argument?, isOperand_hexadecimal_iff (.inr rfl)]
  · next hx hX =>
    by_cases hs : Lexeme.startsDecimal w
    · rw [if_pos hs, decimal?_bind_argument?, isOperand_decimal_iff hx hX]
    · -- The word is a name, which is no argument.
      rw [if_neg hs]
      refine ⟨fun h => ?_, fun h => absurd (startsDecimal_of_isOperand h) hs⟩
      cases h

/-! ### Ranges -/

/-- **A decimal numeral is an operand** exactly if its value is in the range of a word. -/
theorem exists_isOperand_of_isSigned (h : IsSigned 10 w k) :
    (∃ v, IsOperand w v) ↔ -0x80000000 ≤ k ∧ k ≤ 0x7FFFFFFF := by
  refine ⟨fun ⟨v, hv⟩ => ?_, fun ⟨hle, hlt⟩ => ?_⟩
  · cases hv with
    | decimal hw =>
      rw [← signed?_eq_some_iff] at h hw
      have hk : k = v.toInt := Option.some.inj (h.symm.trans hw)
      have hle := v.le_toInt
      have hlt := v.toInt_lt
      omega
    | hexadecimal hx => exact absurd h (Lexeme.not_isSigned_hexadecimal hx)
  · have hk : (Int32.ofInt k).toInt = k := Int32.toInt_ofInt_of_le hle (by omega)
    exact ⟨Int32.ofInt k, .decimal (hk.symm ▸ h)⟩

/-- **A hexadecimal numeral is an operand** exactly if it is the pattern of a word. -/
theorem exists_isOperand_of_isUnsigned (hx : x = 'x' ∨ x = 'X') (h : IsUnsigned 16 digits n) :
    (∃ v, IsOperand ('0' :: x :: digits) v) ↔ n ≤ 0xFFFFFFFF := by
  simp only [isOperand_hexadecimal_iff hx]
  refine ⟨fun ⟨v, hv⟩ => ?_, fun hle => ?_⟩
  · rw [← unsigned?_eq_some_iff] at h hv
    have hn : n = v.pattern := Option.some.inj (h.symm.trans hv)
    have hlt := v.pattern_lt
    omega
  · have hn : (Word.ofPattern n).pattern = n := by
      rw [Word.pattern_ofPattern, Nat.mod_eq_of_lt (by omega)]
    exact ⟨Word.ofPattern n, hn.symm ▸ h⟩

/-! ## Mnemonics -/

/-- **The words that are read as a mnemonic** are those that upper case turns into it. -/
theorem ofWord?_eq_mnemonic_iff {o : Opcode} :
    Lexeme.ofWord? w = some (.name o.mnemonic) ↔ Text.upper w = o.mnemonic.toList :=
  Lexeme.ofWord?_eq_capitals_iff o.all_isUpper_mnemonic

/-! ## Lines -/

/-- The words of a line, and the instruction that they denote. -/
inductive IsStatement : List (List Char) → Program → Prop
  | blank : IsStatement [] []
  | plain {word : List Char} {o : Opcode} : o ≠ .push → Text.upper word = o.mnemonic.toList →
      IsStatement [word] [.op o]
  | push {word operand : List Char} {v : Word} : Text.upper word = Opcode.push.mnemonic.toList →
      IsOperand operand v → IsStatement [word, operand] [.op .push, .data v]

/-- The part of a line that counts: all of it, or what stands before its first semicolon. -/
inductive IsCode : List Char → List Char → Prop
  | whole {line : List Char} : ';' ∉ line → IsCode line line
  | commented {code : List Char} (comment : List Char) : ';' ∉ code →
      IsCode (code ++ ';' :: comment) code

/-- A line, and the instruction that its words denote. -/
def IsLine (line : List Char) (p : Program) : Prop :=
  ∃ code, IsCode line code ∧ IsStatement (Text.words code) p

variable {p i : Program} {xs : List Lexeme} {line code : List Char}

/-! ### Comments -/

theorem dropComment_of_not_mem (h : ';' ∉ code) (rest : List Char) :
    dropComment (code ++ rest) = code ++ dropComment rest := by
  apply List.takeWhile_append_of_pos
  intro c hc
  rw [bne_iff_ne]
  rintro rfl
  exact h hc

theorem dropComment_append_semicolon (line comment : List Char) :
    dropComment (line ++ ';' :: comment) = dropComment line := by
  induction line with
  | nil => rfl
  | cons c line ih =>
    unfold dropComment at ih ⊢
    rw [List.cons_append, List.takeWhile_cons, List.takeWhile_cons, ih]

theorem dropComment_eq_self (h : ';' ∉ line) : dropComment line = line := by
  have hline := dropComment_of_not_mem h []
  rw [List.append_nil] at hline
  rw [hline]
  exact List.append_nil line

/-- **The part of a line that counts** is the one that is read. -/
theorem isCode_iff : IsCode line code ↔ dropComment line = code := by
  constructor
  · intro h
    cases h with
    | whole hline => exact dropComment_eq_self hline
    | commented comment hcode =>
      rw [dropComment_append_semicolon, dropComment_eq_self hcode]
  · rintro rfl
    by_cases h : ';' ∈ line
    · obtain ⟨code, comment, rfl, hcode⟩ := List.eq_append_cons_of_mem h
      rw [dropComment_append_semicolon, dropComment_eq_self hcode]
      exact .commented comment hcode
    · rw [dropComment_eq_self h]
      exact .whole h

theorem isLine_iff : IsLine line p ↔ IsStatement (lineWords line) p := by
  simp only [IsLine, isCode_iff, exists_eq_left', lineWords]

/-! ### Instructions -/

theorem complete_eq_ok_iff : complete i xs = .ok p ↔ xs = [] ∧ p = i := by
  cases xs <;> simp [complete, eq_comm]

/-- The lexemes that make up an instruction. -/
theorem statement_eq_ok_iff :
    statement xs = .ok p ↔ (xs = [] ∧ p = []) ∨
      (∃ o, o ≠ .push ∧ xs = [.name o.mnemonic] ∧ p = [.op o]) ∨
      (∃ number v, argument? number = some v ∧ xs = [.name Opcode.push.mnemonic, number] ∧
        p = Token.push v) := by
  refine ⟨fun h => ?_, fun h => ?_⟩
  · unfold statement at h
    split at h
    · cases h
      exact .inl ⟨rfl, rfl⟩
    · next name arguments =>
      split at h
      · cases h
      · next ho =>
        obtain rfl := Opcode.ofMnemonic?_eq_some_iff.1 ho
        split at h
        · cases h
        · next number extra =>
          split at h
          · cases h
          · next v hv =>
            obtain ⟨rfl, rfl⟩ := complete_eq_ok_iff.1 h
            exact .inr (.inr ⟨number, v, hv, rfl, rfl⟩)
      · next o hpush ho =>
        obtain rfl := Opcode.ofMnemonic?_eq_some_iff.1 ho
        obtain ⟨rfl, rfl⟩ := complete_eq_ok_iff.1 h
        exact .inr (.inl ⟨o, fun he => hpush (he ▸ rfl), rfl, rfl⟩)
    · cases h
  · obtain ⟨rfl, rfl⟩ | ⟨o, ho, rfl, rfl⟩ | ⟨number, v, hv, rfl, rfl⟩ := h
    · rfl
    · simp only [statement, Opcode.ofMnemonic?_mnemonic]
      cases o <;> first | exact absurd rfl ho | rfl
    · simp only [statement, Opcode.ofMnemonic?_mnemonic, hv]
      rfl

/-- A line is read as its lexemes first, then as an instruction. -/
theorem lineProgram_eq_ok_iff_lexemes :
    lineProgram line = .ok p ↔ ∃ xs, (Text.words (dropComment line)).map Lexeme.ofWord? =
      xs.map some ∧ statement xs = .ok p := by
  simp only [← mapM_lexeme_eq_ok_iff]
  unfold lineProgram lineLexemes
  rcases (Text.words (dropComment line)).mapM lexeme with e | xs
  · simp [bind, Except.bind]
  · simp [bind, Except.bind]

/-- **The lines that are accepted**, and the instruction that each denotes. -/
theorem lineProgram_eq_ok_iff : lineProgram line = .ok p ↔ IsLine line p := by
  rw [lineProgram_eq_ok_iff_lexemes, isLine_iff, lineWords]
  generalize Text.words (dropComment line) = ws
  refine ⟨fun ⟨xs, hws, hs⟩ => ?_, fun h => ?_⟩
  · obtain ⟨rfl, rfl⟩ | ⟨o, ho, rfl, rfl⟩ | ⟨number, v, hv, rfl, rfl⟩ := statement_eq_ok_iff.1 hs
    · rw [List.map_nil, List.map_eq_nil_iff] at hws
      subst hws
      exact .blank
    · obtain ⟨w, rfl, hw⟩ := List.map_eq_singleton_iff.1 hws
      exact .plain ho (ofWord?_eq_mnemonic_iff.1 hw)
    · obtain ⟨w, ws', rfl, hw, hws'⟩ := List.map_eq_cons_iff.1 hws
      obtain ⟨operand, rfl, hoperand⟩ := List.map_eq_singleton_iff.1 hws'
      have hvalue : (Lexeme.ofWord? operand).bind argument? = some v := by
        rw [hoperand, Option.bind_some, hv]
      exact .push (ofWord?_eq_mnemonic_iff.1 hw) (ofWord?_bind_argument?.1 hvalue)
  · cases h with
    | blank => exact ⟨[], rfl, rfl⟩
    | @plain w o ho hw =>
      refine ⟨[.name o.mnemonic], ?_, statement_eq_ok_iff.2 (.inr (.inl ⟨o, ho, rfl, rfl⟩))⟩
      rw [List.map_singleton, ofWord?_eq_mnemonic_iff.2 hw]
      rfl
    | @push w operand v hw hoperand =>
      obtain ⟨number, hnumber, hv⟩ :=
        Option.bind_eq_some_iff.1 (ofWord?_bind_argument?.2 hoperand)
      refine ⟨[.name Opcode.push.mnemonic, number], ?_,
        statement_eq_ok_iff.2 (.inr (.inr ⟨number, v, hv, rfl, rfl⟩))⟩
      rw [List.map_cons, List.map_singleton, ofWord?_eq_mnemonic_iff.2 hw, hnumber]
      rfl

/-! ## Texts -/

/-- **The assembler accepts exactly its grammar.** A text denotes the instructions of its lines, in
order. A numeral of any length is an operand exactly if its value is in range, and the literal is
that value then: the decimal one as it is, the hexadecimal one as a pattern. The bytes of a literal
are its pattern, the most significant first. -/
theorem assemble_exact :
    (∀ (text : String) (p : Program), assemble text = .ok p ↔
      ∃ ps : List Program, List.Forall₂ IsLine (Text.lines text.toList) ps ∧ p = ps.flatten) ∧
    (∀ word k, IsSigned 10 word k →
      ((∃ v, IsOperand word v) ↔ -0x80000000 ≤ k ∧ k ≤ 0x7FFFFFFF)) ∧
    (∀ x digits n, x = 'x' ∨ x = 'X' → IsUnsigned 16 digits n →
      ((∃ v, IsOperand ('0' :: x :: digits) v) ↔ n ≤ 0xFFFFFFFF)) ∧
    (∀ v : Word, (Token.data v).bytes.length = 4 ∧
      Nat.ofDigits 0x100 ((Token.data v).bytes.reverse.map UInt8.toNat) = v.pattern ∧
      (v.pattern : Int) = v.toInt % 0x100000000) := by
  refine ⟨fun text p => ?_, fun _ _ => exists_isOperand_of_isSigned,
    fun _ _ _ => exists_isOperand_of_isUnsigned,
    fun v => ⟨rfl, v.ofDigits_bytes, v.pattern_eq_emod⟩⟩
  have hlines (ps : List Program) : (Text.lines text.toList).map lineProgram = ps.map .ok ↔
      List.Forall₂ IsLine (Text.lines text.toList) ps := by
    rw [← List.forall₂_eq_eq_eq, List.forall₂_map_left_iff, List.forall₂_map_right_iff]
    simp only [lineProgram_eq_ok_iff]
  simp only [assemble_eq_ok_iff, hlines]

theorem assemble_exact_bounds :
    assemble "PUSH 7;POP ; 8\n;\nnot" = .ok (Token.push 7 ++ [.op .not]) ∧
    (∃ v, IsOperand "-002147483648".toList v) ∧ (¬ ∃ v, IsOperand "2147483648".toList v) ∧
    (∃ v, IsOperand "0X+0fFFFFFFf".toList v) ∧ ¬ ∃ v, IsOperand "0x100000000".toList v := by
  obtain ⟨htexts, hdecimal, hhexadecimal, -⟩ := assemble_exact
  -- The first semicolon ends what counts on a line, and may be all that is on it.
  have hpush : IsLine ("PUSH 7".toList ++ ';' :: "POP ; 8".toList) (Token.push 7) := by
    refine ⟨"PUSH 7".toList, .commented _ (by decide), ?_⟩
    have hwords : Text.words "PUSH 7".toList = ["PUSH".toList, "7".toList] := by decide
    rw [hwords]
    exact .push (by decide) (.decimal (signed?_eq_some_iff.1 (by decide)))
  have hcomment : IsLine ([] ++ [';']) [] := ⟨[], .commented [] List.not_mem_nil, .blank⟩
  have hnot : IsLine "not".toList [.op .not] := by
    refine ⟨"not".toList, .whole (by decide), ?_⟩
    have hwords : Text.words "not".toList = ["not".toList] := by decide
    rw [hwords]
    exact .plain (by decide) (by decide)
  have hlines : Text.lines "PUSH 7;POP ; 8\n;\nnot".toList =
      ["PUSH 7".toList ++ ';' :: "POP ; 8".toList, [';'], "not".toList] := by decide
  have hmin : IsSigned 10 "-002147483648".toList (-0x80000000) := signed?_eq_some_iff.1 (by decide)
  have hmax : IsSigned 10 "2147483648".toList 0x80000000 := signed?_eq_some_iff.1 (by decide)
  have hlast : IsUnsigned 16 "+0fFFFFFFf".toList 0xFFFFFFFF := unsigned?_eq_some_iff.1 (by decide)
  have hnext : IsUnsigned 16 "100000000".toList 0x100000000 := unsigned?_eq_some_iff.1 (by decide)
  refine ⟨(htexts _ _).2 ⟨[Token.push 7, [], [.op .not]], ?_, rfl⟩,
    (hdecimal _ _ hmin).2 (by decide), fun h => ?_,
    (hhexadecimal _ _ _ (.inr rfl) hlast).2 (by decide), fun h => ?_⟩
  · rw [hlines]
    exact .cons hpush (.cons hcomment (.cons hnot .nil))
  · exact absurd ((hdecimal _ _ hmax).1 h) (by decide)
  · exact absurd ((hhexadecimal _ _ _ (.inl rfl) hnext).1 h) (by decide)

-- The long s of the mnemonic is an S in upper case, and the numeral is a pattern.
example : assemble "\n pu\u017Fh\t0X+00fffffffe ; two below zero\r\nnot" =
    .ok (Token.push (-2) ++ [.op .not]) := by cbv

end Assembly

end StackVM
