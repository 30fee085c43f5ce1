import StackVM.Proofs.AssemblyGrammar

/-!
# What is wrong with a text

A text is refused at its first line that the grammar does not accept, for a fault that only depends
on the words of that line (`assemble_error_exact`). `IsFault` says which fault it is. A word that
starts like a number and is none is found first, wherever on the line it stands; only then the words
are taken as lexemes (`IsLexeme`), and `IsSyntaxFault` has the first of them that is out of place.

* `ofWord?_eq_some_iff`, `ofWord?_eq_none_iff`: the words that are lexemes, and those that are
  malformed.
* `statement_eq_error_iff`: the lexemes that make up no instruction.
* `lineProgram_eq_error_iff`: the lines that are refused.
-/

set_option autoImplicit false

namespace StackVM.Assembly

open Numeral

/-! ## Words -/

/-- A word that starts like a hexadecimal number. -/
def StartsHexadecimal (word : List Char) : Prop :=
  ∃ x digits, (x = 'x' ∨ x = 'X') ∧ word = '0' :: x :: digits

/-- A word that starts like a number: with a digit, or with a minus sign and a digit. -/
def StartsNumeric (word : List Char) : Prop :=
  ∃ c rest, c.isDigit ∧ (word = c :: rest ∨ word = '-' :: c :: rest)

/-- What a word stands for. Hexadecimal numbers have at most 64 bits, and decimal numbers are in the
range of signed 64-bit integers; a word that does not start like a number is a name. -/
inductive IsLexeme : List Char → Lexeme → Prop
  | hexadecimal {x : Char} {digits : List Char} {n : Nat} : x = 'x' ∨ x = 'X' →
      IsUnsigned 16 digits n → n ≤ 0xFFFFFFFFFFFFFFFF → IsLexeme ('0' :: x :: digits) (.hex n)
  | decimal {word : List Char} {k : Int} : ¬ StartsHexadecimal word → IsSigned 10 word k →
      -0x8000000000000000 ≤ k → k ≤ 0x7FFFFFFFFFFFFFFF → IsLexeme word (.decimal k)
  | name {word : List Char} : ¬ StartsNumeric word →
      IsLexeme word (.name (String.ofList (Text.upper word)))

/-- A word that starts like a number and is none in the range of numbers. -/
inductive IsMalformed : List Char → Prop
  | hexadecimal {x : Char} {digits : List Char} : x = 'x' ∨ x = 'X' →
      (∀ n, IsUnsigned 16 digits n → 0xFFFFFFFFFFFFFFFF < n) → IsMalformed ('0' :: x :: digits)
  | decimal {word : List Char} : ¬ StartsHexadecimal word → StartsNumeric word →
      (∀ k, IsSigned 10 word k → k < -0x8000000000000000 ∨ 0x7FFFFFFFFFFFFFFF < k) →
      IsMalformed word

/-! ## Faults -/

/-- A lexeme that is no operand: a name, or a number that is too large for a word. -/
inductive IsUnfit : Lexeme → Prop
  | name (s : String) : IsUnfit (.name s)
  | decimal {k : Int} : k < -0x80000000 ∨ 0x7FFFFFFF < k → IsUnfit (.decimal k)
  | hex {n : Nat} : 0xFFFFFFFF < n → IsUnfit (.hex n)

/-- What is wrong with the lexemes of a line. -/
inductive IsSyntaxFault : List Lexeme → LineFault → Prop
  | number {number : Lexeme} (rest : List Lexeme) : (∀ s, number ≠ .name s) →
      IsSyntaxFault (number :: rest) (.unexpectedToken number.text)
  | unknownOpcode {s : String} (rest : List Lexeme) : (∀ o : Opcode, o.mnemonic ≠ s) →
      IsSyntaxFault (.name s :: rest) (.unknownOpcode s)
  | noOperand : IsSyntaxFault [.name Opcode.push.mnemonic] (.missingArgument .push 1)
  | unfitOperand {operand : Lexeme} (rest : List Lexeme) : IsUnfit operand →
      IsSyntaxFault (.name Opcode.push.mnemonic :: operand :: rest) (.invalidNumber operand.text)
  | behindOpcode {o : Opcode} (extra : Lexeme) (rest : List Lexeme) : o ≠ .push →
      IsSyntaxFault (.name o.mnemonic :: extra :: rest) (.unexpectedToken extra.text)
  | behindOperand {operand : Lexeme} (extra : Lexeme) (rest : List Lexeme) : ¬ IsUnfit operand →
      IsSyntaxFault (.name Opcode.push.mnemonic :: operand :: extra :: rest)
        (.unexpectedToken extra.text)

/-- What is wrong with the words of a line. The first malformed word goes before all else. -/
inductive IsFault : List (List Char) → LineFault → Prop
  | malformed {before : List (List Char)} {word : List Char} (after : List (List Char)) :
      (∀ v ∈ before, ∃ x, IsLexeme v x) → IsMalformed word →
      IsFault (before ++ word :: after) (.invalidNumber (String.ofList word))
  | syntactic {words : List (List Char)} {xs : List Lexeme} {fault : LineFault} :
      List.Forall₂ IsLexeme words xs → IsSyntaxFault xs fault → IsFault words fault

/-- What is wrong with a line, by the words of the part of it that counts. -/
def IsLineFault (line : List Char) (fault : LineFault) : Prop :=
  ∃ code, IsCode line code ∧ IsFault (Text.words code) fault

/-- The spelling of a lexeme in a message: a name in upper case, a decimal number without a plus
sign or leading zeros, and a hexadecimal one with `0x` in front. -/
inductive Lexeme.IsText : Lexeme → List Char → Prop
  | name (s : String) : Lexeme.IsText (.name s) s.toList
  | natural {digits : List Char} {n : Nat} :
      IsPrinted 10 digits n → Lexeme.IsText (.decimal n) digits
  | negative {digits : List Char} {n : Nat} : 0 < n → IsPrinted 10 digits n →
      Lexeme.IsText (.decimal (-n)) ('-' :: digits)
  | hexadecimal {digits : List Char} {n : Nat} :
      IsPrinted 16 digits n → Lexeme.IsText (.hex n) ('0' :: 'x' :: digits)

variable {w digits : List Char} {x : Char} {y : Lexeme} {xs : List Lexeme} {ws : List (List Char)}
  {fault : LineFault}

/-! ### The words that are lexemes -/

theorem startsNumeric_iff : Lexeme.startsDecimal w ↔ StartsNumeric w := by
  constructor
  · intro h
    unfold Lexeme.startsDecimal at h
    split at h
    · exact ⟨_, _, h, .inr rfl⟩
    · exact ⟨_, _, h, .inl rfl⟩
    · cases h
  · rintro ⟨c, rest, hc, rfl | rfl⟩
    · exact Lexeme.startsDecimal_of_isDigit hc
    · exact hc

theorem ofWord?_of_not_startsHexadecimal (h : ¬ StartsHexadecimal w) :
    Lexeme.ofWord? w =
      if Lexeme.startsDecimal w then Lexeme.decimal? w
      else some (.name (String.ofList (Text.upper w))) :=
  Lexeme.ofWord?_of_ne fun x digits hx hw => h ⟨x, digits, hx, hw⟩

theorem StartsHexadecimal.startsNumeric (h : StartsHexadecimal w) : StartsNumeric w := by
  obtain ⟨x, digits, -, rfl⟩ := h
  exact ⟨'0', x :: digits, by decide, .inl rfl⟩

/-- **The words that are lexemes.** -/
theorem ofWord?_eq_some_iff : Lexeme.ofWord? w = some y ↔ IsLexeme w y := by
  constructor
  · intro h
    by_cases hx : StartsHexadecimal w
    · obtain ⟨x, digits, hx, rfl⟩ := hx
      rw [Lexeme.ofWord?_of_hexadecimal hx] at h
      obtain ⟨n, hn, hle, rfl⟩ := Lexeme.hex?_eq_some_iff.1 h
      exact .hexadecimal hx hn hle
    · rw [ofWord?_of_not_startsHexadecimal hx] at h
      split at h
      · obtain ⟨k, hk, hle, hlt, rfl⟩ := Lexeme.decimal?_eq_some_iff.1 h
        exact .decimal hx hk hle hlt
      · next hs =>
        cases h
        exact .name (mt startsNumeric_iff.2 hs)
  · intro h
    cases h with
    | hexadecimal hx hn hle =>
      rw [Lexeme.ofWord?_of_hexadecimal hx]
      exact Lexeme.hex?_eq_some_iff.2 ⟨_, hn, hle, rfl⟩
    | decimal hx hk hle hlt =>
      rw [Lexeme.ofWord?_of_isSigned hk]
      exact Lexeme.decimal?_eq_some_iff.2 ⟨_, hk, hle, hlt, rfl⟩
    | name hs =>
      rw [ofWord?_of_not_startsHexadecimal (mt StartsHexadecimal.startsNumeric hs),
        if_neg (mt startsNumeric_iff.1 hs)]

/-- **The words that are malformed** are all others. -/
theorem ofWord?_eq_none_iff : Lexeme.ofWord? w = none ↔ IsMalformed w := by
  rw [Option.eq_none_iff_forall_ne_some]
  constructor
  · intro h
    by_cases hx : StartsHexadecimal w
    · obtain ⟨x, digits, hx, rfl⟩ := hx
      refine .hexadecimal hx fun n hn => ?_
      by_contra hle
      exact h _ (ofWord?_eq_some_iff.2 (.hexadecimal hx hn (by omega)))
    · refine .decimal hx ?_ fun k hk => ?_
      · by_contra hs
        exact h _ (ofWord?_eq_some_iff.2 (.name hs))
      · by_contra hrange
        exact h _ (ofWord?_eq_some_iff.2 (.decimal hx hk (by omega) (by omega)))
  · intro h y hy
    rw [ofWord?_eq_some_iff] at hy
    cases h with
    | @hexadecimal x digits hx hn =>
      cases hy with
      | hexadecimal _ hn' hle => exact absurd (hn _ hn') (by omega)
      | decimal hnot => exact hnot ⟨x, digits, hx, rfl⟩
      | name hnot => exact hnot (StartsHexadecimal.startsNumeric ⟨x, digits, hx, rfl⟩)
    | decimal hnot hs hk =>
      cases hy with
      | hexadecimal hx => exact hnot ⟨_, _, hx, rfl⟩
      | decimal _ hk' =>
        have := hk _ hk'
        omega
      | name hnot' => exact hnot' hs

/-- The lexemes of the words, if all of them are lexemes. -/
theorem mapM_lexeme_eq_ok_iff_forall₂ : ws.mapM lexeme = .ok xs ↔ List.Forall₂ IsLexeme ws xs := by
  rw [mapM_lexeme_eq_ok_iff, ← List.forall₂_eq_eq_eq, List.forall₂_map_left_iff,
    List.forall₂_map_right_iff]
  simp only [ofWord?_eq_some_iff]

theorem lexeme_eq_ok_iff : lexeme w = .ok y ↔ IsLexeme w y := by
  rw [← ofWord?_eq_some_iff]
  unfold lexeme
  rcases Lexeme.ofWord? w with _ | z <;> simp

theorem lexeme_eq_error_iff :
    lexeme w = .error fault ↔ IsMalformed w ∧ fault = .invalidNumber (String.ofList w) := by
  rw [← ofWord?_eq_none_iff]
  unfold lexeme
  rcases Lexeme.ofWord? w with _ | z <;> simp [eq_comm]

/-- The first malformed word, if there is one. -/
theorem mapM_lexeme_eq_error_iff :
    ws.mapM lexeme = .error fault ↔ ∃ before word after, ws = before ++ word :: after ∧
      (∀ v ∈ before, ∃ x, IsLexeme v x) ∧ IsMalformed word ∧
      fault = .invalidNumber (String.ofList word) := by
  simp only [mapM_eq_error_iff, lexeme_eq_ok_iff, lexeme_eq_error_iff]

/-! ### The lexemes that make up no instruction -/

theorem argument?_eq_none_iff : argument? y = none ↔ IsUnfit y := by
  constructor
  · intro h
    cases y with
    | name s => exact .name s
    | decimal k =>
      rw [argument?, ite_eq_right_iff] at h
      have hk : ¬ (-0x80000000 ≤ k ∧ k < 0x80000000) := by
        intro hk
        cases h hk
      exact .decimal (by omega)
    | hex n =>
      rw [argument?, ite_eq_right_iff] at h
      have hn : ¬ n < 0x100000000 := by
        intro hn
        cases h hn
      exact .hex (by omega)
  · intro h
    cases h with
    | name => rfl
    | decimal hk => rw [argument?, if_neg (by omega)]
    | hex hn => rw [argument?, if_neg (by omega)]

theorem complete_eq_error_iff {i : Program} :
    complete i xs = .error fault ↔
      ∃ extra rest, xs = extra :: rest ∧ fault = .unexpectedToken extra.text := by
  cases xs <;> simp [complete, eq_comm]

/-- **The lexemes that are refused**, and the fault. -/
theorem statement_eq_error_iff : statement xs = .error fault ↔ IsSyntaxFault xs fault := by
  constructor
  · intro h
    unfold statement at h
    split at h
    · cases h
    · next name arguments =>
      split at h
      · next ho =>
        cases h
        refine .unknownOpcode arguments fun o hname => ?_
        rw [← hname, Opcode.ofMnemonic?_mnemonic] at ho
        cases ho
      · next ho =>
        obtain rfl := Opcode.ofMnemonic?_eq_some_iff.1 ho
        split at h
        · cases h
          exact .noOperand
        · next number extra =>
          split at h
          · next hnone =>
            cases h
            exact .unfitOperand extra (argument?_eq_none_iff.1 hnone)
          · next v hv =>
            obtain ⟨x, rest, rfl, rfl⟩ := complete_eq_error_iff.1 h
            refine .behindOperand x rest fun hunfit => ?_
            rw [argument?_eq_none_iff.2 hunfit] at hv
            cases hv
      · next o hpush ho =>
        obtain rfl := Opcode.ofMnemonic?_eq_some_iff.1 ho
        obtain ⟨x, rest, rfl, rfl⟩ := complete_eq_error_iff.1 h
        exact .behindOpcode x rest hpush
    · next number rest hnumber =>
      cases h
      exact .number rest hnumber
  · intro h
    cases h with
    | @number number rest hnumber =>
      cases number with
      | name s => exact absurd rfl (hnumber s)
      | decimal => rfl
      | hex => rfl
    | @unknownOpcode s rest hname =>
      have hnone : Opcode.ofMnemonic? s = none := by
        rw [Option.eq_none_iff_forall_ne_some]
        intro o ho
        exact hname o (Opcode.ofMnemonic?_eq_some_iff.1 ho)
      simp only [statement, hnone]
    | noOperand => rfl
    | unfitOperand rest hunfit =>
      simp only [statement, Opcode.ofMnemonic?_mnemonic, argument?_eq_none_iff.2 hunfit]
    | @behindOpcode o extra rest ho =>
      simp only [statement, Opcode.ofMnemonic?_mnemonic, complete]
    | @behindOperand operand extra rest hfit =>
      obtain ⟨v, hv⟩ := Option.ne_none_iff_exists'.1 (mt argument?_eq_none_iff.1 hfit)
      simp only [statement, Opcode.ofMnemonic?_mnemonic, hv, complete]

/-! ### The lines that are refused -/

variable {line : List Char}

theorem isLineFault_iff : IsLineFault line fault ↔ IsFault (lineWords line) fault := by
  simp only [IsLineFault, isCode_iff, exists_eq_left', lineWords]

/-- **The lines that are refused**, and the fault. -/
theorem lineProgram_eq_error_iff :
    lineProgram line = .error fault ↔ IsLineFault line fault := by
  rw [lineProgram_eq_bind, isLineFault_iff]
  generalize lineWords line = ws
  constructor
  · intro h
    rcases hws : ws.mapM lexeme with e | xs
    · rw [hws] at h
      cases h
      obtain ⟨before, word, after, rfl, hbefore, hword, rfl⟩ := mapM_lexeme_eq_error_iff.1 hws
      exact .malformed after hbefore hword
    · rw [hws] at h
      exact .syntactic (mapM_lexeme_eq_ok_iff_forall₂.1 hws) (statement_eq_error_iff.1 h)
  · intro h
    cases h with
    | malformed after hbefore hword =>
      rw [mapM_lexeme_eq_error_iff.2 ⟨_, _, after, rfl, hbefore, hword, rfl⟩]
      rfl
    | syntactic hws hfault =>
      rw [mapM_lexeme_eq_ok_iff_forall₂.2 hws]
      exact statement_eq_error_iff.2 hfault

/-! ### The tokens of messages -/

theorem Lexeme.isText_text (y : Lexeme) : IsText y y.text.toList := by
  cases y with
  | name s => exact .name s
  | decimal k =>
    show Lexeme.IsText (.decimal k) (toString k).toList
    by_cases hk : 0 ≤ k
    · have hnat : (k.toNat : Int) = k := Int.toNat_of_nonneg hk
      have htext := Lexeme.IsText.natural (isPrinted_toDigits (by decide) (by decide) k.toNat)
      rw [hnat] at htext
      rwa [toList_toString_of_nonneg hk]
    · have hnat : -((-k).toNat : Int) = k := by omega
      have htext := Lexeme.IsText.negative (by omega : 0 < (-k).toNat)
        (isPrinted_toDigits (by decide) (by decide) _)
      rw [hnat] at htext
      rwa [toList_toString_of_neg (by omega)]
  | hex n =>
    have htext : (Lexeme.hex n).text.toList = '0' :: 'x' :: Nat.toDigits 16 n := by
      show ("0x" ++ Hex.ofNat n).toList = _
      rw [String.toList_append, Hex.ofNat, String.toList_ofList, String.toList_ofList]
      rfl
    rw [htext]
    exact .hexadecimal (isPrinted_toDigits (by decide) (by decide) n)

/-! ## Texts -/

variable {text text' : String} {e : AssemblyError}

theorem assemble_eq_error_iff_isLineFault :
    assemble text = .error e ↔ ∃ before line after,
      Text.lines text.toList = before ++ line :: after ∧ (∀ l ∈ before, ∃ p, IsLine l p) ∧
        e.line = before.length + 1 ∧ IsLineFault line e.fault := by
  simp only [assemble_eq_error_iff, lineProgram_eq_ok_iff, lineProgram_eq_error_iff]
  simp only [and_comm]

/-- What is below the line of an error has no bearing on it. -/
theorem assemble_eq_error_of_take (h : assemble text = .error e)
    (htake : (Text.lines text'.toList).take e.line = (Text.lines text.toList).take e.line) :
    assemble text' = .error e := by
  rw [assemble_eq_error_iff_isLineFault] at h ⊢
  obtain ⟨before, line, after, hlines, hbefore, hnumber, hfault⟩ := h
  have hlength : (before ++ [line]).length = e.line := by
    rw [List.length_append, hnumber]
    rfl
  have htaken : (Text.lines text.toList).take e.line = before ++ [line] := by
    rw [hlines, List.append_cons]
    exact List.take_left' hlength
  refine ⟨before, line, (Text.lines text'.toList).drop e.line, ?_, hbefore, hnumber, hfault⟩
  rw [List.append_cons, ← htaken, ← htake, List.take_append_drop]

/-- **A text is refused for its first wrong line**, and nothing else in it matters. The error has
the number of the line and what is wrong with the words of it; lexemes are spelled in one way only.
Changes below the line keep the error. -/
theorem assemble_error_exact :
    (∀ text e, assemble text = .error e ↔ ∃ before line after,
      Text.lines text.toList = before ++ line :: after ∧ (∀ l ∈ before, ∃ p, IsLine l p) ∧
        e.line = before.length + 1 ∧ IsLineFault line e.fault) ∧
    (∀ line, (∃ fault, IsLineFault line fault) ↔ ¬ ∃ p, IsLine line p) ∧
    (∀ y : Lexeme, Lexeme.IsText y y.text.toList) ∧
    ∀ text text' e, assemble text = .error e →
      (Text.lines text'.toList).take e.line = (Text.lines text.toList).take e.line →
        assemble text' = .error e := by
  refine ⟨fun _ _ => assemble_eq_error_iff_isLineFault, fun line => ?_, Lexeme.isText_text,
    fun _ _ _ => assemble_eq_error_of_take⟩
  simp only [← lineProgram_eq_ok_iff, ← lineProgram_eq_error_iff]
  cases lineProgram line <;> simp

theorem assemble_error_exact_malformed_number :
    assemble "; 0x\nADD 007 0x1G ; 2x\nnot" = .error ⟨2, .invalidNumber "0x1G"⟩ ∧
    assemble "; 0x\nADD 007 0x1G ; 2x\nPUSH" = .error ⟨2, .invalidNumber "0x1G"⟩ := by
  obtain ⟨htexts, -, -, hlater⟩ := assemble_error_exact
  have hlines : Text.lines "; 0x\nADD 007 0x1G ; 2x\nnot".toList =
      [[] ++ ';' :: " 0x".toList, "ADD 007 0x1G ".toList ++ ';' :: " 2x".toList, "not".toList] := by
    decide
  have hcomment : IsLine ([] ++ ';' :: " 0x".toList) [] :=
    ⟨[], .commented _ List.not_mem_nil, .blank⟩
  have hwords : Text.words "ADD 007 0x1G ".toList =
      ["ADD".toList, "007".toList] ++ "0x1G".toList :: [] := by decide
  have hfault : IsLineFault ("ADD 007 0x1G ".toList ++ ';' :: " 2x".toList)
      (.invalidNumber (String.ofList "0x1G".toList)) := by
    refine ⟨"ADD 007 0x1G ".toList, .commented _ (by decide), ?_⟩
    rw [hwords]
    refine .malformed [] (fun w hw => ?_) (ofWord?_eq_none_iff.1 (by decide))
    obtain rfl | rfl : w = "ADD".toList ∨ w = "007".toList := by simpa using hw
    · exact ⟨.name "ADD", ofWord?_eq_some_iff.1 (by decide)⟩
    · exact ⟨.decimal 7, ofWord?_eq_some_iff.1 (by decide)⟩
  rw [String.ofList_toList] at hfault
  have hfirst : assemble "; 0x\nADD 007 0x1G ; 2x\nnot" = .error ⟨2, .invalidNumber "0x1G"⟩ := by
    refine (htexts _ _).2 ⟨[_], _, _, hlines, fun l hl => ?_, rfl, hfault⟩
    rw [List.mem_singleton.1 hl]
    exact ⟨[], hcomment⟩
  exact ⟨hfirst, hlater _ _ _ hfirst (by decide)⟩

example : assemble "push\nadd -007 pop" = .error ⟨1, .missingArgument .push 1⟩ := by decide

example : assemble "\nadd -007 pop" = .error ⟨2, .unexpectedToken "-7"⟩ := by decide

end StackVM.Assembly
