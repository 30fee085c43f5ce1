import StackVM.Text.Layout

/-!
# Lines and words of a text

How `Text.lines` and `Text.words` go through a text from its front, which is the end that they are
not defined by: a line is what stands before the first line feed (`lines_append_newline`), a text
that stops at the end of a line keeps its lines whatever follows (`lines_append`), and a blank parts
the words before it from those after it (`words_append_cons`).
-/

set_option autoImplicit false

namespace StackVM.Text

/-- The last place of a character parts a text. -/
theorem exists_eq_append_not_mem (c : Char) (text : List Char) :
    ∃ start rest, text = start ++ rest ∧ (start = [] ∨ ∃ before, start = before ++ [c]) ∧
      c ∉ rest := by
  by_cases h : c ∈ text
  · have hreverse : c ∈ text.reverse := List.mem_reverse.2 h
    obtain ⟨rest, before, htext, hrest⟩ := List.eq_append_cons_of_mem hreverse
    refine ⟨before.reverse ++ [c], rest.reverse, ?_, .inr ⟨_, rfl⟩, ?_⟩
    · rw [← text.reverse_reverse, htext]
      simp
    · rwa [List.mem_reverse]
  · exact ⟨[], text, rfl, .inl rfl, h⟩

/-! ## Lines -/

@[simp] theorem lines_nil : lines [] = [] := rfl

theorem foldr_consCut_newline {line : List Char} (h : '\n' ∉ line) (rest : List Char) :
    (line ++ '\n' :: rest).foldr consCut [] = (line ++ ['\n']) :: rest.foldr consCut [] := by
  induction line with
  | nil => rfl
  | cons c line ih =>
    rw [List.mem_cons, not_or] at h
    rw [List.cons_append, List.foldr_cons, ih h.2, consCut, if_neg (Ne.symm h.1)]
    rfl

/-- **What stands before the first line feed** is the first line. -/
theorem lines_append_newline {line : List Char} (h : '\n' ∉ line) (rest : List Char) :
    lines (line ++ '\n' :: rest) = dropLineEnd (line ++ ['\n']) :: lines rest := by
  rw [lines, foldr_consCut_newline h, List.map_cons]
  rfl

theorem dropLineEnd_newline {line : List Char} (h : line.getLast? ≠ some '\r') :
    dropLineEnd (line ++ ['\n']) = line := by
  rw [← List.head?_reverse] at h
  unfold dropLineEnd
  rw [List.reverse_append, List.reverse_singleton, List.singleton_append]
  split
  · next rest heq =>
    rw [List.cons.injEq] at heq
    rw [heq.2] at h
    exact absurd rfl h
  · next heq =>
    rw [List.cons.injEq] at heq
    rw [← heq.2, List.reverse_reverse]
  · next hne => exact absurd rfl (hne line.reverse)

theorem dropLineEnd_carriageReturn (line : List Char) :
    dropLineEnd (line ++ ['\r'] ++ ['\n']) = line := by
  unfold dropLineEnd
  simp

theorem dropLineEnd_of_not_mem {line : List Char} (h : '\n' ∉ line) : dropLineEnd line = line := by
  rw [← List.mem_reverse] at h
  unfold dropLineEnd
  split
  · next heq =>
    rw [heq] at h
    exact absurd List.mem_cons_self h
  · next heq =>
    rw [heq] at h
    exact absurd List.mem_cons_self h
  · rfl

/-- **Without a line feed** there is one line, unless nothing is there. -/
theorem lines_of_not_mem {line : List Char} (h : '\n' ∉ line) (hne : line ≠ []) :
    lines line = [line] := by
  have hcut : line.foldr consCut [] = [line] := by
    induction line with
    | nil => exact absurd rfl hne
    | cons c line ih =>
      rw [List.mem_cons, not_or] at h
      rcases line with _ | ⟨d, line⟩
      · rw [List.foldr_cons, List.foldr_nil, consCut, if_neg (Ne.symm h.1)]
      · rw [List.foldr_cons, ih h.2 (List.cons_ne_nil d line), consCut, if_neg (Ne.symm h.1)]
  rw [lines, hcut, List.map_singleton, dropLineEnd_of_not_mem h]

/-- The lines of a text that is made of lines with a line feed after each. -/
theorem lines_flatMap_newline {ls : List (List Char)}
    (h : ∀ l ∈ ls, '\n' ∉ l ∧ l.getLast? ≠ some '\r') :
    lines (ls.flatMap (· ++ ['\n'])) = ls := by
  induction ls with
  | nil => rfl
  | cons l ls ih =>
    obtain ⟨hl, hls⟩ := List.forall_mem_cons.1 h
    rw [List.flatMap_cons, List.append_assoc, List.singleton_append, lines_append_newline hl.1,
      dropLineEnd_newline hl.2, ih hls]

/-! ### Texts that stop at the end of a line -/

/-- A text that is empty or has a line feed at its end, so that what is put after it starts a new
line. -/
def IsWhole (text : List Char) : Prop := text = [] ∨ text.getLast? = some '\n'

theorem isWhole_nil : IsWhole [] := .inl rfl

theorem isWhole_append_newline (text : List Char) : IsWhole (text ++ ['\n']) := by
  right
  simp

theorem consCut_newline (pieces : List (List Char)) :
    consCut '\n' pieces = ['\n'] :: pieces := rfl

theorem consCut_cons {c : Char} (h : c ≠ '\n') (piece : List Char) (pieces : List (List Char)) :
    consCut c (piece :: pieces) = (c :: piece) :: pieces := by
  rw [consCut, if_neg h]

theorem foldr_consCut_ne_nil {text : List Char} (h : text ≠ []) :
    text.foldr consCut [] ≠ [] := by
  obtain ⟨c, text, rfl⟩ := List.exists_cons_of_ne_nil h
  rw [List.foldr_cons]
  unfold consCut
  split
  · simp
  · split <;> simp

/-- A text is such a text and a line that has not ended yet. -/
theorem exists_eq_isWhole_append (text : List Char) :
    ∃ whole line, text = whole ++ line ∧ IsWhole whole ∧ '\n' ∉ line := by
  obtain ⟨whole, line, htext, rfl | ⟨before, rfl⟩, hline⟩ := exists_eq_append_not_mem '\n' text
  · exact ⟨[], line, htext, isWhole_nil, hline⟩
  · exact ⟨_, line, htext, isWhole_append_newline before, hline⟩

/-- The rest of such a text is one. It has a piece that the first character belongs to, unless that
is a line feed. -/
theorem IsWhole.of_cons {c : Char} {text : List Char} (h : IsWhole (c :: text)) :
    IsWhole text ∧
      (c = '\n' ∨ c ≠ '\n' ∧ ∃ piece pieces, text.foldr consCut [] = piece :: pieces) := by
  rcases text with _ | ⟨d, text⟩
  · simpa [IsWhole] using h
  · have hne := foldr_consCut_ne_nil (List.cons_ne_nil d text)
    refine ⟨by simpa [IsWhole] using h, ?_⟩
    by_cases hc : c = '\n'
    · exact .inl hc
    · exact .inr ⟨hc, List.exists_cons_of_ne_nil hne⟩

/-- The pieces that follow are left alone: a character only goes into the piece before it if that
has no line feed yet. -/
theorem foldr_consCut_append {text : List Char} (h : IsWhole text) (pieces : List (List Char)) :
    text.foldr consCut pieces = text.foldr consCut [] ++ pieces := by
  induction text with
  | nil => rfl
  | cons c text ih =>
    obtain ⟨hwhole, rfl | ⟨hc, piece, others, hcut⟩⟩ := h.of_cons
    · rw [List.foldr_cons, List.foldr_cons, ih hwhole, consCut_newline, consCut_newline]
      rfl
    · rw [List.foldr_cons, List.foldr_cons, ih hwhole, hcut, consCut_cons hc, List.cons_append,
        consCut_cons hc]
      rfl

theorem length_foldr_consCut {text : List Char} (h : IsWhole text) :
    (text.foldr consCut []).length = text.count '\n' := by
  induction text with
  | nil => rfl
  | cons c text ih =>
    obtain ⟨hwhole, rfl | ⟨hc, piece, others, hcut⟩⟩ := h.of_cons
    · rw [List.foldr_cons, consCut_newline, List.length_cons, ih hwhole, List.count_cons_self]
    · rw [List.foldr_cons, hcut, consCut_cons hc, List.count_cons_of_ne hc, ← ih hwhole, hcut]
      rfl

/-- **Lines go part by part** behind a text that stops at the end of a line. -/
theorem lines_append {text : List Char} (h : IsWhole text) (rest : List Char) :
    lines (text ++ rest) = lines text ++ lines rest := by
  simp only [lines]
  rw [List.foldr_append, foldr_consCut_append h, List.map_append]

/-- **There are as many lines as line feeds** in such a text. -/
theorem length_lines {text : List Char} (h : IsWhole text) :
    (lines text).length = text.count '\n' := by
  rw [lines, List.length_map, length_foldr_consCut h]

/-! ## Words -/

theorem foldr_extendRun_append {separates : Char → Bool} {w : List Char}
    (h : ∀ c ∈ w, separates c = false) (rest : List Char) :
    (w ++ rest).foldr (extendRun separates) ([], []) =
      (w ++ (rest.foldr (extendRun separates) ([], [])).1,
        (rest.foldr (extendRun separates) ([], [])).2) := by
  induction w with
  | nil => rfl
  | cons c w ih =>
    obtain ⟨hc, hw⟩ := List.forall_mem_cons.1 h
    rw [List.cons_append, List.foldr_cons, ih hw, extendRun, if_neg (by simp [hc])]
    rfl

/-- The runs of a text stand in front of those that the text goes on with behind a separator. -/
theorem foldr_extendRun_runs (separates : Char → Bool) (text : List Char)
    (later : List (List Char)) :
    text.foldr (extendRun separates) ([], later) =
      ((text.foldr (extendRun separates) ([], [])).1,
        (text.foldr (extendRun separates) ([], [])).2 ++ later) := by
  induction text with
  | nil => rfl
  | cons c text ih =>
    rw [List.foldr_cons, List.foldr_cons, ih]
    rcases text.foldr (extendRun separates) ([], []) with ⟨run, runs⟩
    unfold extendRun consRun
    by_cases hc : separates c
    · by_cases hrun : run.isEmpty
      · simp [hc, hrun]
      · simp [hc, hrun]
    · simp [hc]

/-- **A separator parts the runs** before it from those after it. -/
theorem runs_append_cons {separates : Char → Bool} {c : Char} (hc : separates c)
    (text rest : List Char) :
    runs separates (text ++ c :: rest) = runs separates text ++ runs separates rest := by
  have hcons : (c :: rest).foldr (extendRun separates) ([], []) = ([], runs separates rest) := by
    rw [List.foldr_cons, extendRun, if_pos hc]
    rfl
  unfold runs at hcons ⊢
  rw [List.foldr_append, hcons, foldr_extendRun_runs]
  rcases text.foldr (extendRun separates) ([], []) with ⟨run, runs⟩
  unfold consRun
  by_cases hrun : run.isEmpty
  · simp [hrun]
  · simp [hrun]

theorem runs_of_forall {separates : Char → Bool} {w : List Char}
    (h : ∀ c ∈ w, separates c = false) (hne : w ≠ []) : runs separates w = [w] := by
  have hw : w.isEmpty = false := by simpa using hne
  have hf := foldr_extendRun_append h []
  rw [List.append_nil] at hf
  unfold runs
  rw [hf]
  simp [consRun, hw]

/-- A word: characters that are not blank, at least one. -/
def IsWord (w : List Char) : Prop := w ≠ [] ∧ ∀ c ∈ w, isBlank c = false

theorem words_of_isWord {w : List Char} (h : IsWord w) : words w = [w] := runs_of_forall h.2 h.1

theorem words_append_cons {c : Char} (hc : isBlank c) (line rest : List Char) :
    words (line ++ c :: rest) = words line ++ words rest :=
  runs_append_cons hc line rest

/-- **Words with a space between them** are the words of the line that they make up. -/
theorem words_intercalate {ws : List (List Char)} (h : ∀ w ∈ ws, IsWord w) :
    words ([' '].intercalate ws) = ws := by
  induction ws with
  | nil => rfl
  | cons w ws ih =>
    obtain ⟨hw, hws⟩ := List.forall_mem_cons.1 h
    rcases ws with _ | ⟨w', ws⟩
    · rw [List.intercalate_singleton, words_of_isWord hw]
    · rw [List.intercalate_cons_cons, List.append_assoc, List.singleton_append,
        words_append_cons (by decide), words_of_isWord hw, ih hws, List.singleton_append]

theorem mem_intercalate {ws : List (List Char)} {c : Char} (hc : c ∈ [' '].intercalate ws) :
    c = ' ' ∨ ∃ w ∈ ws, c ∈ w := by
  induction ws with
  | nil => cases hc
  | cons w ws ih =>
    rcases ws with _ | ⟨w', ws⟩
    · rw [List.intercalate_singleton] at hc
      exact .inr ⟨w, List.mem_cons_self, hc⟩
    · rw [List.intercalate_cons_cons, List.append_assoc, List.singleton_append, List.mem_append,
        List.mem_cons] at hc
      obtain hc | hc | hc := hc
      · exact .inr ⟨w, List.mem_cons_self, hc⟩
      · exact .inl hc
      · obtain hc | ⟨v, hv, hcv⟩ := ih hc
        · exact .inl hc
        · exact .inr ⟨v, List.mem_cons_of_mem w hv, hcv⟩

/-! ### Blanks -/

/-- Blanks in front of a line add no word. -/
theorem words_blanks_append {run : List Char} (h : ∀ c ∈ run, isBlank c) (line : List Char) :
    words (run ++ line) = words line := by
  induction run with
  | nil => rfl
  | cons c run ih =>
    obtain ⟨hc, hrun⟩ := List.forall_mem_cons.1 h
    rw [List.cons_append, ← List.nil_append (c :: _), words_append_cons hc, ih hrun]
    rfl

/-- **One or more blanks** part the words before them from those after them. -/
theorem words_append_blanks {run : List Char} (hne : run ≠ []) (h : ∀ c ∈ run, isBlank c)
    (line rest : List Char) : words (line ++ run ++ rest) = words line ++ words rest := by
  obtain ⟨c, run, rfl⟩ := List.exists_cons_of_ne_nil hne
  obtain ⟨hc, hrun⟩ := List.forall_mem_cons.1 h
  rw [List.append_assoc, List.cons_append, words_append_cons hc, words_blanks_append hrun]

/-- Characters may be put in the place of others as long as blanks stay blanks. -/
theorem words_map {f : Char → Char} (h : ∀ c, isBlank (f c) = isBlank c) (line : List Char) :
    words (line.map f) = (words line).map (List.map f) := by
  have hfoldr : (line.map f).foldr (extendRun isBlank) ([], []) =
      ((line.foldr (extendRun isBlank) ([], [])).1.map f,
        (line.foldr (extendRun isBlank) ([], [])).2.map (List.map f)) := by
    induction line with
    | nil => rfl
    | cons c line ih =>
      rw [List.map_cons, List.foldr_cons, List.foldr_cons, ih]
      rcases line.foldr (extendRun isBlank) ([], []) with ⟨run, runs⟩
      unfold extendRun consRun
      by_cases hc : isBlank c
      · by_cases hrun : run = []
        · simp [h, hc, hrun]
        · simp [h, hc, hrun]
      · simp [h, hc]
  unfold words runs
  rw [hfoldr]
  rcases line.foldr (extendRun isBlank) ([], []) with ⟨run, runs⟩
  unfold consRun
  by_cases hrun : run = []
  · simp [hrun]
  · simp [hrun]

theorem isBlank_of_ascii {c : Char} (h : 0x20 < c.toNat) (h' : c.toNat < 0x80) :
    isBlank c = false := by
  simp only [isBlank, Bool.or_eq_false_iff, Bool.and_eq_false_iff, decide_eq_false_iff_not,
    beq_eq_false_iff_ne]
  omega

end StackVM.Text
