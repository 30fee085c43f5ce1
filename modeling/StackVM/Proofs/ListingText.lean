import StackVM.Listing
import StackVM.Proofs.Instruction
import StackVM.Proofs.Layout
import StackVM.Proofs.Numerals
import StackVM.Proofs.UpperCase

/-!
# The text of a listing

* `lines_disassemble`: the lines of a listing are the texts of its rows.
* `words_text`: the words of a row's text are `Row.words`, in which every character is a letter, a
  digit or a minus sign.
* `rows_ofInstructions_append`, `rows_op_cons`: the rows of the instructions that a program starts
  with, and the row of an opcode that takes no literal along.
-/

set_option autoImplicit false

namespace StackVM.Listing

/-! ## Characters -/

/-- A character that the words of a listing are made of. -/
def IsListed (c : Char) : Prop := c = '-' ∨ c.isAlphanum

theorem IsListed.toNat {c : Char} (h : IsListed c) :
    0x2D ≤ c.toNat ∧ c.toNat < 0x80 ∧ c.toNat ≠ 0x3B := by
  obtain rfl | h := h
  · decide
  · change (c.isUpper || c.isLower || c.isDigit) = true at h
    rw [Bool.or_eq_true, Bool.or_eq_true] at h
    obtain (h | h) | h := h
    · have := Text.toNat_of_isUpper h
      omega
    · obtain ⟨ha, hz⟩ := Bool.and_eq_true_iff.1 h
      have ha : 0x61 ≤ c.toNat := UInt32.le_iff_toNat_le.1 (of_decide_eq_true ha)
      have hz : c.toNat ≤ 0x7A := UInt32.le_iff_toNat_le.1 (of_decide_eq_true hz)
      omega
    · have := Numeral.toNat_of_isDigit h
      omega

theorem IsListed.isBlank {c : Char} (h : IsListed c) : Text.isBlank c = false := by
  obtain ⟨h1, h2, -⟩ := h.toNat
  exact Text.isBlank_of_ascii (by omega) h2

/-! ## Rows -/

/-- The words of a row's text. -/
def Row.words : Row → List (List Char)
  | opcode o => [o.mnemonic.toList]
  | push v => [Opcode.push.mnemonic.toList, (toString v.toInt).toList]
  | data v => ["DATA".toList, '0' :: 'x' :: (Hex.ofBytes v.bytes).toList]

theorem Row.toList_text (r : Row) : r.text.toList = [' '].intercalate r.words := by
  cases r with
  | opcode o => rw [words, List.intercalate_singleton, text]
  | push v =>
    simp only [text, words, String.toList_append, List.intercalate_cons_cons,
      List.intercalate_singleton, List.append_assoc]
    rfl
  | data v =>
    simp only [text, words, String.toList_append, List.intercalate_cons_cons,
      List.intercalate_singleton, List.append_assoc]
    rfl

theorem isListed_capitals {w : List Char} (h : w.all Char.isUpper) : ∀ c ∈ w, IsListed c := by
  intro c hc
  have hu := List.all_eq_true.1 h c hc
  refine .inr ?_
  show (c.isUpper || c.isLower || c.isDigit) = true
  rw [hu]
  rfl

theorem Row.isListed_words {r : Row} {w : List Char} (hw : w ∈ r.words) :
    w ≠ [] ∧ ∀ c ∈ w, IsListed c := by
  cases r with
  | opcode o =>
    obtain rfl := List.mem_singleton.1 hw
    exact ⟨by cases o <;> decide, isListed_capitals o.all_isUpper_mnemonic⟩
  | push v =>
    rw [words, List.mem_cons, List.mem_singleton] at hw
    obtain rfl | rfl := hw
    · exact ⟨by decide, isListed_capitals (Opcode.all_isUpper_mnemonic .push)⟩
    · refine ⟨Numeral.toString_ne_nil v.toInt, fun c hc => ?_⟩
      exact (Numeral.mem_toString hc).imp_right fun hd => by simp [Char.isAlphanum, hd]
  | data v =>
    rw [words, List.mem_cons, List.mem_singleton] at hw
    obtain rfl | rfl := hw
    · exact ⟨by decide, isListed_capitals (by decide)⟩
    · refine ⟨by simp, fun c hc => .inr ?_⟩
      rw [List.mem_cons, List.mem_cons] at hc
      obtain rfl | rfl | hc := hc
      · decide
      · decide
      · obtain ⟨d, hd, rfl⟩ := Numeral.mem_ofBytes hc
        clear hc
        revert d
        decide

theorem Row.isWord_words {r : Row} : ∀ w ∈ r.words, Text.IsWord w := fun _ hw =>
  ⟨(isListed_words hw).1, fun c hc => ((isListed_words hw).2 c hc).isBlank⟩

/-- **The words of a row's text**. -/
theorem Row.words_text (r : Row) : Text.words r.text.toList = r.words := by
  rw [toList_text, Text.words_intercalate isWord_words]

/-- The characters of a row's text: a space, or a character of one of its words. -/
theorem Row.mem_text {r : Row} {c : Char} (hc : c ∈ r.text.toList) : c = ' ' ∨ IsListed c := by
  rw [toList_text] at hc
  obtain rfl | ⟨w, hw, hcw⟩ := Text.mem_intercalate hc
  · exact .inl rfl
  · exact .inr ((isListed_words hw).2 c hcw)

theorem Row.not_mem_text (r : Row) {c : Char} (hc : c ∈ ['\n', '\r', ';']) :
    c ∉ r.text.toList := by
  intro h
  obtain rfl | h := mem_text h
  · exact absurd hc (by decide)
  · obtain ⟨h1, -, h2⟩ := h.toNat
    simp only [List.mem_cons, List.not_mem_nil, or_false] at hc
    obtain rfl | rfl | rfl := hc
    · exact absurd h1 (by decide)
    · exact absurd h1 (by decide)
    · exact absurd rfl h2

/-! ## Lines -/

/-- **The lines of a listing** are the texts of its rows. -/
theorem lines_disassemble (p : Program) :
    Text.lines (disassemble p).toList = (rows p).map (·.text.toList) := by
  have hlist : (disassemble p).toList = ((rows p).map (·.text.toList)).flatMap (· ++ ['\n']) := by
    rw [disassemble, String.toList_join, List.flatMap_map, List.flatMap_map]
    simp only [String.toList_append]
    rfl
  rw [hlist, Text.lines_flatMap_newline]
  intro l hl
  obtain ⟨r, -, rfl⟩ := List.mem_map.1 hl
  exact ⟨r.not_mem_text (by decide), fun h => r.not_mem_text (by decide) (List.mem_of_getLast? h)⟩

/-! ## Instructions and remainders -/

/-- The row that shows an instruction. -/
def ofInstruction : Instruction → Row
  | .plain o _ => .opcode o
  | .push v => .push v

theorem rows_tokens_append (i : Instruction) (p : Program) :
    rows (i.tokens ++ p) = ofInstruction i :: rows p := by
  cases i with
  | plain o h => cases o <;> first | exact absurd rfl h | rfl
  | push v => rfl

theorem rows_ofInstructions_append (is : List Instruction) (p : Program) :
    rows (Program.ofInstructions is ++ p) = is.map ofInstruction ++ rows p := by
  induction is with
  | nil => rfl
  | cons i is ih =>
    rw [Program.ofInstructions_cons, List.append_assoc, rows_tokens_append, ih]
    rfl

/-- Only a literal is listed as one. -/
theorem head?_of_rows {p : Program} {v : Word} (h : (rows p).head? = some (.data v)) :
    p.head? = some (.data v) := by
  rcases p with _ | ⟨t, p⟩
  · cases h
  · rw [rows_cons] at h
    unfold consRow at h
    split at h
    · cases h
    · cases h
    · cases h
      rfl

/-- **A `PUSH` without a literal** has a row of its own. -/
theorem rows_push_of_head? {p : Program} (h : ∀ v, p.head? ≠ some (.data v)) :
    rows (.op .push :: p) = .opcode .push :: rows p := by
  rw [rows_cons]
  unfold consRow
  split
  · next v rs _ heq => exact absurd (head?_of_rows (by rw [heq, List.head?_cons])) (h v)
  · next heq _ =>
    cases heq
    rfl
  · next heq => cases heq

/-- An opcode that takes no literal along has a row of its own. -/
theorem rows_op_cons {o : Opcode} {p : Program} (h : o = .push → ∀ v, p.head? ≠ some (.data v)) :
    rows (.op o :: p) = .opcode o :: rows p := by
  by_cases ho : o = .push
  · subst ho
    exact rows_push_of_head? (h rfl)
  · exact rows_tokens_append (.plain o ho) p

end StackVM.Listing
