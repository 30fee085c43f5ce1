import StackVM.Proofs.AssemblyGrammar
import StackVM.Proofs.Reassembly
import StackVM.Proofs.WellFormedRun

/-!
# What a text assembles to

A text that is accepted denotes complete instructions, one for each of its lines that hold a word.
So its program passes through the byte stream and through the listing unchanged, and the listing is
the text in canonical spelling (`IsCanonical`): a line for each of those lines, in order.

The parts: a statement is one instruction or none, and its canonical spelling is the row of that
instruction (`IsStatement.exists_instruction`); lines go one by one
(`exists_instructions_of_lines`); `assemble_canonical` adds what is known of programs that are made
of instructions.
-/

set_option autoImplicit false

namespace StackVM.Assembly

open Listing Program

/-- Whether a line has a word before its first semicolon. -/
def holdsWord (line : List Char) : Bool := !(Text.words (dropComment line)).isEmpty

/-- The canonical spelling of a line that holds these words: the mnemonic in capitals, and the
operand of a `PUSH` in decimal after one space. -/
inductive IsSpelling : List (List Char) → List Char → Prop
  | plain {word : List Char} {o : Opcode} : o ≠ .push → Text.upper word = o.mnemonic.toList →
      IsSpelling [word] o.mnemonic.toList
  | push {word operand : List Char} {v : Word} : Text.upper word = Opcode.push.mnemonic.toList →
      IsOperand operand v →
      IsSpelling [word, operand] (Opcode.push.mnemonic.toList ++ ' ' :: (toString v.toInt).toList)

/-- A line, and the canonical spelling of its words. -/
def IsCanonical (line text : List Char) : Prop :=
  ∃ code, IsCode line code ∧ IsSpelling (Text.words code) text

variable {ws : List (List Char)} {p : Program} {line text : List Char}

theorem IsCanonical.holdsWord (h : IsCanonical line text) : holdsWord line := by
  obtain ⟨code, hcode, h⟩ := h
  rw [Assembly.holdsWord, isCode_iff.1 hcode]
  generalize Text.words code = ws at h
  cases h with
  | plain => rfl
  | push => rfl

/-- **A statement is one instruction or none**, and its canonical spelling is the row of it. -/
theorem IsStatement.exists_instruction (h : IsStatement ws p) :
    ws = [] ∧ p = [] ∨
      ∃ i : Instruction, p = i.tokens ∧ IsSpelling ws (ofInstruction i).text.toList := by
  cases h with
  | blank => exact .inl ⟨rfl, rfl⟩
  | @plain word o ho hw => exact .inr ⟨.plain o ho, rfl, .plain ho hw⟩
  | @push word operand v hw hv =>
    refine .inr ⟨.push v, rfl, ?_⟩
    have htext : (Row.push v).text.toList =
        Opcode.push.mnemonic.toList ++ ' ' :: (toString v.toInt).toList := by
      rw [Row.toList_text, Row.words, List.intercalate_cons_cons, List.intercalate_singleton,
        List.append_assoc, List.singleton_append]
    show IsSpelling [word, operand] (Row.push v).text.toList
    rw [htext]
    exact .push hw hv

/-- **Lines that are accepted** denote an instruction for each that holds a word. -/
theorem exists_instructions_of_lines {ls : List (List Char)} {ps : List Program}
    (h : ls.map lineProgram = ps.map .ok) :
    ∃ is, ps.flatten = ofInstructions is ∧
      List.Forall₂ IsCanonical (ls.filter holdsWord) (is.map (ofInstruction · |>.text.toList)) := by
  induction ls generalizing ps with
  | nil =>
    obtain rfl := List.map_eq_nil_iff.1 h.symm
    exact ⟨[], rfl, .nil⟩
  | cons l ls ih =>
    obtain ⟨p, ps, rfl, hp, hps⟩ := List.map_eq_cons_iff.1 h.symm
    obtain ⟨is, his, hcanonical⟩ := ih hps.symm
    rw [List.flatten_cons, his]
    obtain ⟨hwords, rfl⟩ | ⟨i, rfl, hspelling⟩ :=
      (isLine_iff.1 (lineProgram_eq_ok_iff.1 hp.symm)).exists_instruction
    · rw [lineWords] at hwords
      have hl : holdsWord l = false := by simp [holdsWord, hwords]
      rw [List.filter_cons_of_neg (by simp [hl])]
      exact ⟨is, rfl, hcanonical⟩
    · have hl : IsCanonical l (ofInstruction i).text.toList :=
        ⟨_, isCode_iff.2 rfl, hspelling⟩
      rw [List.filter_cons_of_pos hl.holdsWord]
      exact ⟨i :: is, rfl, .cons hl hcanonical⟩

/-- **The program of a text** is well-formed, and each part of the toolchain takes it for the same
program. Its byte stream decodes to it and runs like it, without the failures of malformed programs.
Its listing assembles to it, and is the text in canonical spelling: it has a line for each line of
the text that holds a word. -/
theorem assemble_canonical {text : String} (h : assemble text = .ok p) :
    p.WellFormed ∧
    decode p.encode = .ok p ∧
    (∀ memory call, execute p.encode memory call = p.run memory call none ∧
      ∀ f, (execute p.encode memory call).result = .error f →
        (∀ e, f.error ≠ .decode e) ∧ (∀ n, f.error ≠ .invalidOpcode n) ∧
          ∀ n, f.error ≠ .invalidData n) ∧
    assemble (disassemble p) = .ok p ∧
    List.Forall₂ IsCanonical ((Text.lines text.toList).filter holdsWord)
      (Text.lines (disassemble p).toList) := by
  obtain ⟨ps, hps, rfl⟩ := assemble_eq_ok_iff.1 h
  obtain ⟨is, his, hcanonical⟩ := exists_instructions_of_lines hps
  have hw : (ofInstructions is).WellFormed := wellFormed_ofInstructions is
  have hdecode : decode (ofInstructions is).encode = .ok (ofInstructions is) :=
    decode_encode_ofInstructions is
  have hexecute : ∀ memory call, execute (ofInstructions is).encode memory call =
      (ofInstructions is).run memory call none := by
    intro memory call
    rw [execute, hdecode]
  rw [his]
  refine ⟨hw, hdecode, fun memory call => ⟨hexecute memory call, fun f hf => ?_⟩,
    assemble_disassemble_ofInstructions is, ?_⟩
  · rw [hexecute] at hf
    obtain ⟨d, he⟩ := exec_of_result hf
    obtain ⟨n, hn⟩ | ⟨n, hn⟩ | ⟨n, o, hn⟩ := he.error_of_wellFormed hw
    · simp [hn]
    · simp [hn]
    · simp [hn]
  · have hrows := rows_ofInstructions_append is []
    rw [List.append_nil, rows_nil, List.append_nil] at hrows
    rw [lines_disassemble, hrows, List.map_map]
    exact hcanonical

theorem assemble_canonical_pattern :
    assemble "\n pu\u017Fh\t0X+00fffffffe ; two below zero\r\nnot" =
      .ok (Token.push (-2) ++ [.op .not]) ∧
    decode (encode (Token.push (-2) ++ [.op .not])) = .ok (Token.push (-2) ++ [.op .not]) ∧
    List.Forall₂ IsCanonical [" pu\u017Fh\t0X+00fffffffe ; two below zero".toList, "not".toList]
      ["PUSH -2".toList, "NOT".toList] := by
  have h : assemble "\n pu\u017Fh\t0X+00fffffffe ; two below zero\r\nnot" =
      .ok (Token.push (-2) ++ [.op .not]) := by decide
  have hlines : (Text.lines "\n pu\u017Fh\t0X+00fffffffe ; two below zero\r\nnot".toList).filter
      holdsWord = [" pu\u017Fh\t0X+00fffffffe ; two below zero".toList, "not".toList] := by decide
  have hlisting : Text.lines (disassemble (Token.push (-2) ++ [.op .not])).toList =
      ["PUSH -2".toList, "NOT".toList] := by
    rw [lines_disassemble]
    decide
  obtain ⟨-, hdecode, -, -, hcanonical⟩ := assemble_canonical h
  rw [hlines, hlisting] at hcanonical
  exact ⟨h, hdecode, hcanonical⟩

end StackVM.Assembly
