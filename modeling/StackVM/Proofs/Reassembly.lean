import Mathlib.Data.List.TakeWhile
import StackVM.Proofs.AssemblyLines
import StackVM.Proofs.Lexemes
import StackVM.Proofs.ListingText

/-!
# Assembling a listing

`assemble_disassemble`: the listing of a well-formed program assembles to that program. The listing
of any other program is refused at the line after those of its instructions, where a literal is
listed as `DATA`, which is no opcode, or a `PUSH` without its argument.

The parts: each row is read back by itself (`lineProgram_text`, `reread`), the rows of the
instructions as the instructions (`lineProgram_ofInstruction`), and the row that a remainder starts
with as a fault (`assemble_disassemble_append`).
-/

set_option autoImplicit false

namespace StackVM.Assembly

open Listing Program

/-! ## Rows -/

/-- What the words of a row's text stand for. -/
def rowLexemes : Row → List Lexeme
  | .opcode o => [.name o.mnemonic]
  | .push v => [.name Opcode.push.mnemonic, .decimal v.toInt]
  | .data v => [.name "DATA", .hex v.pattern]

/-- What the text of a row is read back as. -/
def reread : Row → Except LineFault Program
  | .opcode .push => .error (.missingArgument .push 1)
  | .opcode o => .ok [.op o]
  | .push v => .ok (Token.push v)
  | .data _ => .error (.unknownOpcode "DATA")

theorem ofWord?_words (r : Row) : r.words.map Lexeme.ofWord? = (rowLexemes r).map some := by
  cases r with
  | opcode o =>
    have ho := Lexeme.ofWord?_capitals o.all_isUpper_mnemonic
    rw [Row.words, List.map_singleton, ho]
    rfl
  | push v =>
    have ho := Lexeme.ofWord?_capitals (Opcode.all_isUpper_mnemonic .push)
    rw [Row.words, List.map_cons, List.map_singleton, ho, Lexeme.ofWord?_toString]
    rfl
  | data v =>
    have hd : "DATA".toList.all Char.isUpper := by decide
    rw [Row.words, List.map_cons, List.map_singleton, Lexeme.ofWord?_capitals hd,
      Lexeme.ofWord?_hex]
    rfl

theorem statement_rowLexemes (r : Row) : statement (rowLexemes r) = reread r := by
  cases r with
  | opcode o =>
    rw [rowLexemes, statement, Opcode.ofMnemonic?_mnemonic]
    cases o <;> rfl
  | push v =>
    rw [rowLexemes, statement, Opcode.ofMnemonic?_mnemonic]
    simp only [Lexeme.argument?_decimal]
    rfl
  | data v =>
    have hnone : Opcode.ofMnemonic? "DATA" = none := by decide
    rw [rowLexemes, statement, hnone]
    rfl

theorem dropComment_text (r : Row) : dropComment r.text.toList = r.text.toList := by
  rw [dropComment, List.takeWhile_eq_self_iff]
  intro c hc
  rw [bne_iff_ne]
  rintro rfl
  exact r.not_mem_text (by decide) hc

/-- **A row is read back** by itself. -/
theorem lineProgram_text (r : Row) : lineProgram r.text.toList = reread r := by
  rw [lineProgram, lineLexemes, dropComment_text, r.words_text,
    mapM_lexeme_eq_ok_iff.2 (ofWord?_words r), ← statement_rowLexemes]
  rfl

theorem lineProgram_ofInstruction (i : Instruction) :
    lineProgram (ofInstruction i).text.toList = .ok i.tokens := by
  rw [lineProgram_text]
  cases i with
  | plain o h => cases o <;> first | exact absurd rfl h | rfl
  | push v => rfl

/-! ## Programs -/

/-- **The listing of instructions** assembles to them. -/
theorem assemble_disassemble_ofInstructions (is : List Instruction) :
    assemble (disassemble (ofInstructions is)) = .ok (ofInstructions is) := by
  have hrows := rows_ofInstructions_append is []
  rw [List.append_nil, rows_nil, List.append_nil] at hrows
  refine assemble_eq_ok_iff.2 ⟨is.map Instruction.tokens, ?_, ?_⟩
  · rw [lines_disassemble, hrows, List.map_map, List.map_map, List.map_map]
    exact List.map_congr_left fun i _ => lineProgram_ofInstruction i
  · exact List.flatMap_def

/-- **A row that is refused** refuses the listing, if only instructions stand before it. -/
theorem assemble_disassemble_append {is : List Instruction} {rest : Program} {r : Row}
    {fault : LineFault} (hr : (rows rest).head? = some r) (hf : reread r = .error fault) :
    assemble (disassemble (ofInstructions is ++ rest)) = .error ⟨is.length + 1, fault⟩ := by
  obtain ⟨after, hrest⟩ := List.head?_eq_some_iff.1 hr
  refine assemble_eq_error_iff.2 ⟨is.map (ofInstruction · |>.text.toList), r.text.toList,
    after.map (·.text.toList), ?_, ?_, ?_, ?_⟩
  · rw [lines_disassemble, rows_ofInstructions_append, hrest, List.map_append, List.map_map]
    rfl
  · intro l hl
    obtain ⟨i, -, rfl⟩ := List.mem_map.1 hl
    exact ⟨i.tokens, lineProgram_ofInstruction i⟩
  · rw [lineProgram_text, hf]
  · rw [List.length_map]

/-- **Assembling a listing** gives the program back exactly if it is well-formed; otherwise the
error stands on the line after the longest well-formed prefix and says what follows that prefix. -/
theorem assemble_disassemble (p : Program) :
    (p.WellFormed → assemble (disassemble p) = .ok p) ∧
    (¬ p.WellFormed → ∃ q rest : Program, p = q ++ rest ∧ LongestWellFormed q p ∧
      ((∃ v r, rest = .data v :: r ∧
          assemble (disassemble p) =
            .error ⟨1 + q.instructions.length, .unknownOpcode "DATA"⟩) ∨
        (∃ r, rest = .op .push :: r ∧ (∀ v, r.head? ≠ some (.data v)) ∧
          assemble (disassemble p) =
            .error ⟨1 + q.instructions.length, .missingArgument .push 1⟩))) := by
  refine ⟨fun hw => ?_, fun hw => ?_⟩
  · obtain ⟨is, rfl⟩ := wellFormed_iff.1 hw
    exact assemble_disassemble_ofInstructions is
  · obtain ⟨is, rest, rfl, hrest⟩ : ∃ is rest, p = ofInstructions is ++ rest ∧
        (rest = [] ∨ Stuck rest) := ⟨p.instructions, exists_eq_append_remainder p⟩
    refine ⟨ofInstructions is, rest, rfl, longestWellFormed_append is hrest, ?_⟩
    rw [instructions_ofInstructions, Nat.add_comm]
    obtain rfl | hrest := hrest
    · rw [List.append_nil] at hw
      exact absurd (wellFormed_ofInstructions is) hw
    · cases hrest with
      | literal v r =>
        exact .inl ⟨v, r, rfl, assemble_disassemble_append rfl rfl⟩
      | @push r hr =>
        have hrow : (rows (.op .push :: r)).head? = some (.opcode .push) := by
          rw [rows_push_of_head? hr, List.head?_cons]
        exact .inr ⟨r, rfl, hr, assemble_disassemble_append hrow rfl⟩

end StackVM.Assembly
