import Mathlib.Data.List.Infix
import StackVM.Proofs.LayoutEdits
import StackVM.Proofs.LineFaults

/-!
# The spellings of mnemonics

A mnemonic is read from every word that upper case turns into it, by the full mapping of Unicode.
`Spells` says which words these are: a letter of a mnemonic has either case, and there are four more
characters that stand for one letter or two (`StandsFor`).

* `standsFor_upperChar`: the characters whose upper case is capitals of ASCII. A few of them are
  ligatures and the sharp s, which stand for letters that no mnemonic has side by side
  (`otherExpansions`).
* `upper_eq_iff_spells`: the words that upper case turns into a word of capitals without these.
* `spelling_exact`: the words that the assembler reads as a mnemonic, and as no mnemonic.
-/

set_option autoImplicit false

namespace StackVM

namespace Text

/-- A character of a spelling, with the letters of the mnemonic that it stands for. -/
inductive StandsFor : Char → List Char → Prop
  | capital (m : Char) : StandsFor m [m]
  | small (m : Char) : StandsFor m.toLower [m]
  | longS : StandsFor '\u017F' ['S']
  | dotlessI : StandsFor '\u0131' ['I']
  | longSLigature : StandsFor '\uFB05' ['S', 'T']
  | ligature : StandsFor '\uFB06' ['S', 'T']

/-- A word that spells letters, one or two with each character. -/
inductive Spells : List Char → List Char → Prop
  | nil : Spells [] []
  | cons {c : Char} {letters cs ms : List Char} : StandsFor c letters → Spells cs ms →
      Spells (c :: cs) (letters ++ ms)

/-- The other words of capitals that are the upper case of one character: of the sharp s and of the
ligatures that start with an f. -/
def otherExpansions : List (List Char) :=
  [['S', 'S'], ['F', 'F'], ['F', 'I'], ['F', 'L'], ['F', 'F', 'I'], ['F', 'F', 'L']]

/-! ## Rows of the table -/

/-- The rows of single letters that lead to ASCII. -/
theorem caseRuns_capitals : ∀ r ∈ caseRuns, 0x5A < (r.first : Int) + r.offset ∨
    r ∈ [⟨0x61, 0x7A, 1, -32⟩, ⟨0x131, 0x131, 1, -232⟩, ⟨0x17F, 0x17F, 1, -300⟩] := by
  decide +kernel

/-- The rows of several letters that lead to ASCII. -/
theorem caseExpansions_capitals : ∀ e ∈ caseExpansions, (∀ k ∈ e.2, k ≤ 0x5A) →
    e ∈ [(0xFB05, [0x53, 0x54]), (0xFB06, [0x53, 0x54])] ∨
      e.2.map Char.ofNat ∈ otherExpansions := by
  decide +kernel

theorem upperCode_of_mem {n k : Nat} {r : CaseRun} (hr : r ∈ caseRuns) (hc : r.covers n)
    (hk : ((n : Int) + r.offset).toNat = k) (hle : k ≤ 0x5A) :
    n = k + 0x20 ∨ (n = 0x131 ∧ k = 0x49) ∨ (n = 0x17F ∧ k = 0x53) := by
  simp only [CaseRun.covers, Bool.and_eq_true, decide_eq_true_eq] at hc
  rcases caseRuns_capitals r hr with hlow | hrow
  · -- A row keeps the order of its codes, so that all of it is above the capitals.
    omega
  · simp only [List.mem_cons, List.not_mem_nil, or_false] at hrow
    rcases hrow with rfl | rfl | rfl
    · simp only at hc hk
      omega
    · simp only at hc hk
      omega
    · simp only at hc hk
      omega

/-- The codes that upper case turns into codes of capitals. -/
theorem upperCode_capitals {n : Nat} (h : ∀ k ∈ upperCode n, 0x41 ≤ k ∧ k ≤ 0x5A) :
    (∃ k, upperCode n = [k] ∧
      (n = k ∨ n = k + 0x20 ∨ (n = 0x131 ∧ k = 0x49) ∨ (n = 0x17F ∧ k = 0x53))) ∨
    ((n = 0xFB05 ∨ n = 0xFB06) ∧ upperCode n = [0x53, 0x54]) ∨
    (upperCode n).map Char.ofNat ∈ otherExpansions := by
  unfold upperCode at h ⊢
  split at h
  · next r hr =>
    obtain ⟨-, hle⟩ := h _ (List.mem_singleton_self _)
    have hc : r.covers n := by simpa using List.find?_some hr
    exact .inl ⟨_, rfl, .inr (upperCode_of_mem (List.mem_of_find?_eq_some hr) hc rfl hle)⟩
  · rcases hn : caseExpansions.lookup n with _ | codes
    · exact .inl ⟨n, rfl, .inl rfl⟩
    · rw [hn] at h
      have hmem : (n, codes) ∈ caseExpansions := by
        obtain ⟨before, after, htable, -⟩ := List.lookup_eq_some_iff.1 hn
        rw [htable]
        exact List.mem_append_right _ List.mem_cons_self
      rcases caseExpansions_capitals _ hmem fun k hk => (h k hk).2 with hrow | hother
      · simp only [List.mem_cons, Prod.mk.injEq, List.not_mem_nil, or_false] at hrow
        obtain ⟨rfl, rfl⟩ | ⟨rfl, rfl⟩ := hrow
        · exact .inr (.inl ⟨.inl rfl, rfl⟩)
        · exact .inr (.inl ⟨.inr rfl, rfl⟩)
      · exact .inr (.inr hother)

/-! ## Characters -/

variable {c : Char} {letters w ms : List Char}

theorem bounds_of_isUpper_ofNat {k : Nat} (h : (Char.ofNat k).isUpper) : 0x41 ≤ k ∧ k ≤ 0x5A := by
  by_cases hvalid : k.isValidChar
  · have hk : (Char.ofNat k).toNat = k := by
      rw [Char.ofNat, dif_pos hvalid]
      rfl
    have hbounds := toNat_of_isUpper h
    omega
  · rw [Char.ofNat, dif_neg hvalid] at h
    exact absurd h (by decide)

/-- **A character with capitals as its upper case** stands for them, or is one of the others. -/
theorem standsFor_upperChar (h : ∀ m ∈ upperChar c, m.isUpper) :
    StandsFor c (upperChar c) ∨ upperChar c ∈ otherExpansions := by
  have hcodes : ∀ k ∈ upperCode c.toNat, 0x41 ≤ k ∧ k ≤ 0x5A :=
    fun k hk => bounds_of_isUpper_ofNat (h _ (List.mem_map_of_mem hk))
  have hsmall : ∀ k < 26, Char.ofNat (0x41 + k + 0x20) = (Char.ofNat (0x41 + k)).toLower := by
    decide
  rcases upperCode_capitals hcodes with ⟨k, hk, hcase⟩ | ⟨hcase, hk⟩ | hother
  · left
    obtain ⟨hle, hlt⟩ := hcodes k (hk ▸ List.mem_singleton_self k)
    rw [upperChar, hk, List.map_singleton, ← Char.ofNat_toNat c]
    rcases hcase with hc | hc | ⟨hc, rfl⟩ | ⟨hc, rfl⟩
    · rw [hc]
      exact .capital _
    · obtain ⟨j, rfl⟩ := Nat.exists_eq_add_of_le hle
      rw [hc, hsmall j (by omega)]
      exact .small _
    · rw [hc]
      exact .dotlessI
    · rw [hc]
      exact .longS
  · left
    rw [upperChar, hk, ← Char.ofNat_toNat c]
    rcases hcase with hc | hc
    · rw [hc]
      exact .longSLigature
    · rw [hc]
      exact .ligature
  · exact .inr hother

theorem StandsFor.upperChar_eq (h : StandsFor c letters) (hletters : ∀ m ∈ letters, m.isUpper) :
    upperChar c = letters := by
  have hcapital {m : Char} (hm : m.isUpper) : upperChar m = [m] := by
    have := toNat_of_isUpper hm
    exact upperChar_of_lt (by omega)
  cases h with
  | capital => exact hcapital (hletters c (List.mem_singleton_self c))
  | small m => rw [upperChar_toLower, hcapital (hletters m (List.mem_singleton_self m))]
  | longS => decide +kernel
  | dotlessI => decide +kernel
  | longSLigature => decide +kernel
  | ligature => decide +kernel

/-! ## Words -/

theorem Spells.upper_eq (h : Spells w ms) (hms : ∀ m ∈ ms, m.isUpper) : upper w = ms := by
  induction h with
  | nil => rfl
  | cons hstands _ ih =>
    obtain ⟨hletters, hrest⟩ := List.forall_mem_append.1 hms
    rw [upper_cons, hstands.upperChar_eq hletters, ih hrest]

/-- What upper case makes of a word is spelled by the word, if it is capitals with none of the other
expansions among them. -/
theorem spells_upper (w : List Char) (hw : ∀ m ∈ upper w, m.isUpper)
    (hother : ∀ letters ∈ otherExpansions, ¬ letters <:+: upper w) : Spells w (upper w) := by
  induction w with
  | nil => exact .nil
  | cons c w ih =>
    rw [upper_cons] at hw hother ⊢
    obtain ⟨hc, hw⟩ := List.forall_mem_append.1 hw
    rcases standsFor_upperChar hc with hstands | hmem
    · refine .cons hstands (ih hw fun letters hletters hpart => ?_)
      exact hother letters hletters (List.IsInfix.trans hpart (List.suffix_append _ _).isInfix)
    · exact absurd (List.prefix_append _ _).isInfix (hother _ hmem)

/-- **The words that upper case turns into capitals** are their spellings, if none of the other
expansions is part of the capitals. -/
theorem upper_eq_iff_spells (hms : ∀ m ∈ ms, m.isUpper)
    (hother : ∀ letters ∈ otherExpansions, ¬ letters <:+: ms) : upper w = ms ↔ Spells w ms := by
  refine ⟨fun h => ?_, fun h => h.upper_eq hms⟩
  subst h
  exact spells_upper w hms hother

end Text

namespace Assembly

open Text

variable {w : List Char} {o : Opcode} {s : String} {p : Program} {e : AssemblyError}

theorem not_infix_mnemonic (o : Opcode) :
    ∀ letters ∈ otherExpansions, ¬ letters <:+: o.mnemonic.toList := by
  cases o <;> decide

/-- **The words that upper case turns into a mnemonic** are its spellings. -/
theorem upper_eq_mnemonic_iff : upper w = o.mnemonic.toList ↔ Spells w o.mnemonic.toList :=
  upper_eq_iff_spells (List.all_eq_true.1 o.all_isUpper_mnemonic) (not_infix_mnemonic o)

theorem ofWord?_eq_mnemonic_iff_spells :
    (∃ s, Lexeme.ofWord? w = some (.name s) ∧ Opcode.ofMnemonic? s = some o) ↔
      Spells w o.mnemonic.toList := by
  rw [← upper_eq_mnemonic_iff, ← ofWord?_eq_mnemonic_iff]
  constructor
  · rintro ⟨s, hs, ho⟩
    rwa [Opcode.ofMnemonic?_eq_some_iff.1 ho]
  · intro h
    exact ⟨_, h, Opcode.ofMnemonic?_mnemonic o⟩

/-! ## Words alone on a line -/

theorem isWord_of_any (hne : w ≠ []) (h : w.any isBlank = false) : IsWord w :=
  ⟨hne, fun c hc => Bool.eq_false_iff.2 (List.any_eq_false.1 h c hc)⟩

theorem lines_of_isWord (hw : IsWord w) : lines w = [w] := by
  refine lines_of_not_mem (fun hmem => ?_) hw.1
  exact absurd (hw.2 _ hmem) (by decide)

theorem lineWords_of_isWord (hw : IsWord w) (h : ';' ∉ w) : lineWords w = [w] := by
  rw [lineWords, dropComment_eq_self h, words_of_isWord hw]

theorem assemble_word (hw : IsWord w) : assemble (String.ofList w) = numberedLine w 1 := by
  rw [assemble_eq_map, String.toList_ofList, lines_of_isWord hw, assembleLines_cons]
  rcases numberedLine w 1 with e | p
  · rfl
  · show Except.ok [p].flatten = Except.ok p
    rw [List.flatten_singleton]

theorem assemble_word_eq_ok_iff (hw : IsWord w) (h : ';' ∉ w) :
    assemble (String.ofList w) = .ok p ↔ IsStatement [w] p := by
  rw [assemble_word hw, numberedLine_eq_ok_iff, lineProgram_eq_ok_iff, isLine_iff,
    lineWords_of_isWord hw h]

theorem assemble_word_eq_error_iff (hw : IsWord w) (h : ';' ∉ w) :
    assemble (String.ofList w) = .error e ↔ IsFault [w] e.fault ∧ e.line = 1 := by
  rw [assemble_word hw, numberedLine_eq_error_iff, lineProgram_eq_error_iff, isLineFault_iff,
    lineWords_of_isWord hw h]

theorem isStatement_op_iff (ho : o ≠ .push) :
    IsStatement [w] [.op o] ↔ upper w = o.mnemonic.toList := by
  refine ⟨fun h => ?_, .plain ho⟩
  cases h with
  | plain _ hw => exact hw

theorem isFault_missingArgument_iff :
    IsFault [w] (.missingArgument .push 1) ↔
      Lexeme.ofWord? w = some (.name Opcode.push.mnemonic) := by
  rw [ofWord?_eq_some_iff]
  constructor
  · intro h
    generalize hws : [w] = ws at h
    cases h with
    | syntactic hlexemes hfault =>
      subst hws
      cases hfault with
      | noOperand => exact (List.forall₂_cons.1 hlexemes).1
  · intro h
    exact .syntactic (.cons h .nil) .noOperand

theorem isFault_unknownOpcode_iff :
    IsFault [w] (.unknownOpcode s) ↔
      Lexeme.ofWord? w = some (.name s) ∧ ∀ o : Opcode, o.mnemonic ≠ s := by
  rw [ofWord?_eq_some_iff]
  constructor
  · intro h
    generalize hws : [w] = ws at h
    cases h with
    | syntactic hlexemes hfault =>
      subst hws
      cases hfault with
      | unknownOpcode rest hname => exact ⟨(List.forall₂_cons.1 hlexemes).1, hname⟩
  · rintro ⟨hw, hname⟩
    exact .syntactic (.cons hw .nil) (.unknownOpcode [] hname)

theorem exists_isFault_unknownOpcode_iff :
    (∃ s, IsFault [w] (.unknownOpcode s)) ↔
      ¬ StartsNumeric w ∧ ∀ o : Opcode, ¬ Spells w o.mnemonic.toList := by
  have hname (o : Opcode) :
      o.mnemonic ≠ String.ofList (upper w) ↔ ¬ Spells w o.mnemonic.toList := by
    rw [← upper_eq_mnemonic_iff, ne_eq, ← String.toList_inj, String.toList_ofList, eq_comm]
  simp only [isFault_unknownOpcode_iff, ← hname]
  constructor
  · rintro ⟨s, hs, hunknown⟩
    rw [ofWord?_eq_some_iff] at hs
    cases hs with
    | name hnumeric => exact ⟨hnumeric, hunknown⟩
  · rintro ⟨hnumeric, hunknown⟩
    exact ⟨_, ofWord?_eq_some_iff.2 (.name hnumeric), hunknown⟩

/-- **The spellings of mnemonics.** A word is read as an opcode exactly if it spells the mnemonic,
and no word spells two of them. Alone on a line the word is the instruction then, or `PUSH` without
an argument; a word that spells no mnemonic and does not start like a number is an unknown
opcode. -/
theorem spelling_exact :
    (∀ (w : List Char) (o : Opcode),
      (∃ s, Lexeme.ofWord? w = some (.name s) ∧ Opcode.ofMnemonic? s = some o) ↔
        Spells w o.mnemonic.toList) ∧
    (∀ (w : List Char) (o o' : Opcode), Spells w o.mnemonic.toList →
      Spells w o'.mnemonic.toList → o = o') ∧
    ∀ w : List Char, IsWord w → ';' ∉ w →
      (∀ o : Opcode, o ≠ .push →
        (assemble (String.ofList w) = .ok [.op o] ↔ Spells w o.mnemonic.toList)) ∧
      (assemble (String.ofList w) = .error ⟨1, .missingArgument .push 1⟩ ↔
        Spells w Opcode.push.mnemonic.toList) ∧
      ((∃ s, assemble (String.ofList w) = .error ⟨1, .unknownOpcode s⟩) ↔
        ¬ StartsNumeric w ∧ ∀ o : Opcode, ¬ Spells w o.mnemonic.toList) := by
  refine ⟨fun w o => ofWord?_eq_mnemonic_iff_spells, fun w o o' ho ho' => ?_,
    fun w hw h => ⟨fun o ho => ?_, ?_, ?_⟩⟩
  · rw [← upper_eq_mnemonic_iff] at ho ho'
    exact Opcode.mnemonic_injective (String.toList_inj.1 (ho.symm.trans ho'))
  · rw [assemble_word_eq_ok_iff hw h, isStatement_op_iff ho, upper_eq_mnemonic_iff]
  · rw [assemble_word_eq_error_iff hw h, isFault_missingArgument_iff, ofWord?_eq_mnemonic_iff,
      upper_eq_mnemonic_iff, and_iff_left rfl]
  · simp only [assemble_word_eq_error_iff hw h, and_true, exists_isFault_unknownOpcode_iff]

theorem spelling_exact_ligature :
    assemble (String.ofList ['m', '\uFB05', 'o', 'r', 'E']) = .ok [.op .mstore] ∧
    ∃ s, assemble (String.ofList ['d', '\u0130', 'v']) = .error ⟨1, .unknownOpcode s⟩ := by
  obtain ⟨-, -, hwords⟩ := spelling_exact
  have hligature : IsWord ['m', '\uFB05', 'o', 'r', 'E'] := isWord_of_any (by decide) (by decide)
  have hdotted : IsWord ['d', '\u0130', 'v'] := isWord_of_any (by decide) (by decide)
  obtain ⟨hop, -, -⟩ := hwords _ hligature (by decide)
  obtain ⟨-, -, hunknown⟩ := hwords _ hdotted (by decide)
  refine ⟨(hop .mstore (by decide)).2 (upper_eq_mnemonic_iff.1 (by decide +kernel)),
    hunknown.2 ⟨mt startsNumeric_iff.2 (by decide), fun o => ?_⟩⟩
  rw [← upper_eq_mnemonic_iff]
  cases o <;> decide +kernel

end Assembly

end StackVM
