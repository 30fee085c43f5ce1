import Mathlib.Data.List.Forall2
import StackVM.Bytecode
import StackVM.Proofs.Reassembly

/-!
# What a listing shows

A listing shows all tokens of its program, well-formed or not: each line shows some (`Shows`), no
line can be taken for one that shows others (`Shows.unique`), and the lines together show the
program from its first token to its last (`forall₂_shows`). So no two programs are listed alike.

The parts: the words of a row are read as lexemes that tell the row (`rowLexemes_injective`), so
that rows with the same text are the same row (`Row.text_injective`); and a line that shows tokens
is the text of a row (`shows_iff`).
-/

set_option autoImplicit false

namespace StackVM.Listing

open Assembly

/-- The tokens that a line shows: an opcode by its mnemonic, a `PUSH` with its literal in decimal,
or a literal alone by its bytes. -/
inductive Shows : List Char → Program → Prop
  | opcode (o : Opcode) : Shows o.mnemonic.toList [.op o]
  | push (v : Word) : Shows ("PUSH ".toList ++ (toString v.toInt).toList) [.op .push, .data v]
  | data (v : Word) : Shows ("DATA 0x".toList ++ (Hex.ofBytes v.bytes).toList) [.data v]

/-! ## Rows -/

theorem rowLexemes_injective : Function.Injective rowLexemes := by
  intro r r' h
  cases r with
  | opcode o =>
    cases r' with
    | opcode o' =>
      rw [rowLexemes, rowLexemes, List.cons.injEq, Lexeme.name.injEq] at h
      rw [Opcode.mnemonic_injective h.1]
    | push | data => cases congrArg List.length h
  | push v =>
    cases r' with
    | opcode => cases congrArg List.length h
    | push v' =>
      simp only [rowLexemes, List.cons.injEq, Lexeme.decimal.injEq, Int32.toInt_inj] at h
      rw [h.2.1]
    | data => simp [rowLexemes, Opcode.mnemonic] at h
  | data v =>
    cases r' with
    | opcode => cases congrArg List.length h
    | push => simp [rowLexemes, Opcode.mnemonic] at h
    | data v' =>
      simp only [rowLexemes, List.cons.injEq, Lexeme.hex.injEq, Word.pattern_inj] at h
      rw [h.2.1]

/-- **Rows with the same text** are the same row: its words are read back as what the row is made
of. -/
theorem Row.text_injective : Function.Injective Row.text := by
  intro r r' h
  have hwords : r.words = r'.words := by rw [← r.words_text, h, r'.words_text]
  have hlexemes : (rowLexemes r).map some = (rowLexemes r').map some := by
    rw [← ofWord?_words, hwords, ofWord?_words]
  exact rowLexemes_injective (List.map_injective_iff.2 (Option.some_injective _) hlexemes)

theorem Row.toList_text_push (v : Word) :
    (Row.push v).text.toList = "PUSH ".toList ++ (toString v.toInt).toList := by
  rw [toList_text, words, List.intercalate_cons_cons, List.intercalate_singleton]
  rfl

theorem Row.toList_text_data (v : Word) :
    (Row.data v).text.toList = "DATA 0x".toList ++ (Hex.ofBytes v.bytes).toList := by
  rw [toList_text, words, List.intercalate_cons_cons, List.intercalate_singleton]
  rfl

theorem Row.shows (r : Row) : Shows r.text.toList r.tokens := by
  cases r with
  | opcode o => exact .opcode o
  | push v =>
    rw [toList_text_push]
    exact .push v
  | data v =>
    rw [toList_text_data]
    exact .data v

/-! ## Lines -/

variable {line : List Char} {q q' : Program}

theorem shows_iff : Shows line q ↔ ∃ r : Row, line = r.text.toList ∧ q = r.tokens := by
  refine ⟨fun h => ?_, ?_⟩
  · cases h with
    | opcode o => exact ⟨.opcode o, rfl, rfl⟩
    | push v => exact ⟨.push v, (Row.toList_text_push v).symm, rfl⟩
    | data v => exact ⟨.data v, (Row.toList_text_data v).symm, rfl⟩
  · rintro ⟨r, rfl, rfl⟩
    exact r.shows

/-- **A line shows no other tokens.** -/
theorem Shows.unique (h : Shows line q) (h' : Shows line q') : q = q' := by
  obtain ⟨r, rfl, rfl⟩ := shows_iff.1 h
  obtain ⟨r', htext, rfl⟩ := shows_iff.1 h'
  rw [Row.text_injective (String.toList_inj.1 htext)]

/-- **The lines of a listing** show the tokens of its rows. -/
theorem forall₂_shows (p : Program) :
    List.Forall₂ Shows (Text.lines (disassemble p).toList) ((rows p).map Row.tokens) := by
  rw [lines_disassemble, List.forall₂_map_left_iff, List.forall₂_map_right_iff]
  exact List.forall₂_same.2 fun r _ => r.shows

theorem eq_of_forall₂_shows {ls : List (List Char)} {pieces pieces' : List Program}
    (h : List.Forall₂ Shows ls pieces) (h' : List.Forall₂ Shows ls pieces') :
    pieces = pieces' := by
  induction h generalizing pieces' with
  | nil =>
    cases h'
    rfl
  | cons hline _ ih =>
    cases h' with
    | cons hline' hrest => rw [hline.unique hline', ih hrest]

/-- **No two programs are listed alike**, whether they are well-formed or not. The lines of a
listing can be read as tokens in one way only, and that gives the program, each token once and in
its place. In the byte stream, by contrast, tokens are told apart only in well-formed programs. -/
theorem disassemble_injective :
    Function.Injective disassemble ∧
    (∀ p : Program, ∃ pieces : List Program, pieces.flatten = p ∧
      ∀ pieces' : List Program,
        List.Forall₂ Shows (Text.lines (disassemble p).toList) pieces' ↔ pieces' = pieces) ∧
    ¬ Function.Injective Program.encode := by
  have hpieces : ∀ p : Program, ((rows p).map Row.tokens).flatten = p := fun p => by
    rw [← List.flatMap_def, tokens_rows]
  refine ⟨fun p p' h => ?_, fun p => ⟨_, hpieces p, fun pieces' => ⟨fun h' => ?_, ?_⟩⟩, fun h => ?_⟩
  · have hlines := forall₂_shows p
    rw [h] at hlines
    rw [← hpieces p, eq_of_forall₂_shows hlines (forall₂_shows p'), hpieces p']
  · exact eq_of_forall₂_shows h' (forall₂_shows p)
  · rintro rfl
    exact forall₂_shows p
  · -- Four bytes that are each the byte of `ADD`.
    have hbytes : Program.encode [.data 0x01010101] =
        Program.encode [.op .add, .op .add, .op .add, .op .add] := by decide
    exact absurd (h hbytes) (by decide)

end StackVM.Listing
