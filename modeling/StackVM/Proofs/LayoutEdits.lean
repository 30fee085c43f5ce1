import Mathlib.Data.List.TakeWhile
import Mathlib.Logic.Relation
import StackVM.Proofs.AssemblyParts
import StackVM.Proofs.CanonicalText
import StackVM.Proofs.LetterCase

/-!
# Edits of the layout

A text may be laid out in many ways. `Edit` has the ways in which the layout of a text can be
changed at one place: the case of letters, comments, blanks, lines without a word, and the ends of
lines. Each goes with the relation between the number of a line and the number that the line has
afterwards. `Edits` puts them together, in either direction.

`assemble_edits`: no edit of the layout changes the program of a text, and none changes the kind of
its error or the line on which it stands.

The parts: an edit in a line keeps the words of the line up to the case of their letters
(`LineEdit.sameWords`), so that the line denotes the same or is wrong in the same way
(`mapError_kind_lineProgram`). From there an edit is carried to the text in front of the line and
to the text behind it (`Alike.followedBy`).
-/

set_option autoImplicit false

namespace StackVM.Assembly

/-! ## Kinds of errors -/

inductive FaultKind where
  | unknownOpcode
  | missingArgument
  | invalidNumber
  | unexpectedToken
  deriving DecidableEq, Repr

def LineFault.kind : LineFault → FaultKind
  | unknownOpcode _ => .unknownOpcode
  | missingArgument _ _ => .missingArgument
  | invalidNumber _ => .invalidNumber
  | unexpectedToken _ => .unexpectedToken

/-! ## Edits -/

/-- One or more blanks. -/
def IsBlanks (run : List Char) : Prop := run ≠ [] ∧ ∀ c ∈ run, Text.isBlank c

/-- An edit within a line. Taking a comment or blanks away is such an edit undone. -/
inductive LineEdit : List Char → List Char → Prop
  | letters {line line' : List Char} : line'.map Char.toLower = line.map Char.toLower →
      LineEdit line line'
  | comment (line comment : List Char) : LineEdit line (line ++ ';' :: comment)
  | otherComment {code : List Char} (comment comment' : List Char) : ';' ∉ code →
      LineEdit (code ++ ';' :: comment) (code ++ ';' :: comment')
  | blanks (before after : List Char) {run run' : List Char} : IsBlanks run → IsBlanks run' →
      LineEdit (before ++ run ++ after) (before ++ run' ++ after)
  | leading (line : List Char) {run : List Char} : IsBlanks run → LineEdit line (run ++ line)
  | trailing (line : List Char) {run : List Char} : IsBlanks run → LineEdit line (line ++ run)

/-- What follows a line: nothing, or the end of the line and more text. -/
inductive FollowsLine : List Char → Prop
  | nothing : FollowsLine []
  | lineFeed (rest : List Char) : FollowsLine ('\n' :: rest)
  | carriageReturn (rest : List Char) : FollowsLine ('\r' :: '\n' :: rest)

/-- An edit of a text, with the relation between the numbers of its lines before and after it. The
lines that stand below a line that is inserted move down by one. -/
inductive Edit : List Char → List Char → (Nat → Nat → Prop) → Prop
  | inLine {before line line' after : List Char} : Text.IsWhole before → '\n' ∉ line →
      '\n' ∉ line' → LineEdit line line' → FollowsLine after →
      Edit (before ++ line ++ after) (before ++ line' ++ after) Eq
  | insertLine {before line : List Char} (after : List Char) : Text.IsWhole before →
      '\n' ∉ line → holdsWord line = false →
      Edit (before ++ after) (before ++ line ++ '\n' :: after)
        fun n m => m = if n ≤ before.count '\n' then n else n + 1
  | carriageReturn (before after : List Char) :
      Edit (before ++ '\n' :: after) (before ++ '\r' :: '\n' :: after) Eq
  | lastLineEnd (text : List Char) : Edit text (text ++ ['\n']) Eq

/-- Edits one after the other, each of them made or undone, with the relation between the numbers
of a line before and after all of them. -/
inductive Edits : List Char → List Char → (Nat → Nat → Prop) → Prop
  | none (text : List Char) : Edits text text Eq
  | make {t u v : List Char} {R S : Nat → Nat → Prop} : Edits t u R → Edit u v S →
      Edits t v (Relation.Comp R S)
  | undo {t u v : List Char} {R S : Nat → Nat → Prop} : Edits t u R → Edit v u S →
      Edits t v (Relation.Comp R (flip S))

/-! ## The words of a line -/

variable {line line' code run run' : List Char}

theorem dropComment_of_mem (h : ';' ∈ line) (rest : List Char) :
    dropComment (line ++ rest) = dropComment line := by
  obtain ⟨code, comment, rfl⟩ := List.append_of_mem h
  rw [List.append_assoc, List.cons_append, dropComment_append_semicolon,
    dropComment_append_semicolon]

theorem IsBlanks.semicolon_not_mem (h : IsBlanks run) : ';' ∉ run := fun hmem =>
  absurd (h.2 _ hmem) (by decide)

theorem lineWords_leading (h : IsBlanks run) (line : List Char) :
    lineWords (run ++ line) = lineWords line := by
  unfold lineWords
  rw [dropComment_of_not_mem h.semicolon_not_mem, Text.words_blanks_append h.2]

/-- Blanks part the words of a line, or stand in its comment. -/
theorem lineWords_blanks (h : IsBlanks run) (before after : List Char) :
    lineWords (before ++ run ++ after) =
      if ';' ∈ before then lineWords before else Text.words before ++ lineWords after := by
  unfold lineWords
  rw [List.append_assoc]
  split
  · next hmem => rw [dropComment_of_mem hmem]
  · next hmem =>
    rw [dropComment_of_not_mem hmem, dropComment_of_not_mem h.semicolon_not_mem,
      ← List.append_assoc, Text.words_append_blanks h.1 h.2]

theorem lineWords_trailing (h : IsBlanks run) (line : List Char) :
    lineWords (line ++ run) = lineWords line := by
  have hwords := lineWords_blanks h line []
  rw [List.append_nil] at hwords
  rw [hwords]
  split
  · rfl
  · next hmem =>
    unfold lineWords
    rw [dropComment_eq_self hmem]
    exact List.append_nil _

/-- A letter keeps its place in the words if its case changes. -/
theorem lineWords_map_toLower (line : List Char) :
    lineWords (line.map Char.toLower) = (lineWords line).map (List.map Char.toLower) := by
  have hsemicolon : ((· != ';') ∘ Char.toLower : Char → Bool) = (· != ';') := by
    funext c
    exact Text.apply_toLower (f := (· != ';')) (by decide) c
  unfold lineWords dropComment
  rw [List.takeWhile_map, hsemicolon, Text.words_map Text.isBlank_toLower]

/-- **An edit in a line** keeps the words of the line up to the case of their letters. -/
theorem LineEdit.sameWords (h : LineEdit line line') :
    (lineWords line').map (List.map Char.toLower) =
      (lineWords line).map (List.map Char.toLower) := by
  cases h with
  | letters hletters => rw [← lineWords_map_toLower, hletters, lineWords_map_toLower]
  | comment line comment =>
    unfold lineWords
    rw [dropComment_append_semicolon]
  | otherComment comment comment' =>
    unfold lineWords
    rw [dropComment_append_semicolon, dropComment_append_semicolon]
  | blanks before after hrun hrun' => rw [lineWords_blanks hrun, lineWords_blanks hrun']
  | leading line hrun => rw [lineWords_leading hrun]
  | trailing line hrun => rw [lineWords_trailing hrun]

/-! ## The kind of what a line comes to -/

/-- A malformed number is one in either case of its letters, so that it is found in the same
place. -/
theorem mapError_kind_mapM_lexeme (ws : List (List Char)) :
    ((ws.map (List.map Char.toLower)).mapM lexeme).mapError LineFault.kind =
      (ws.mapM lexeme).mapError LineFault.kind := by
  induction ws with
  | nil => rfl
  | cons w ws ih =>
    rw [List.map_cons, List.mapM_cons, List.mapM_cons, lexeme, Lexeme.ofWord?_map_toLower, lexeme]
    rcases Lexeme.ofWord? w with _ | x
    · rfl
    · revert ih
      rcases (ws.map (List.map Char.toLower)).mapM lexeme with e | xs
      · rcases ws.mapM lexeme with e' | xs'
        · simp [bind, Except.bind, Except.mapError]
        · simp [Except.mapError]
      · rcases ws.mapM lexeme with e' | xs'
        · simp [Except.mapError]
        · simp [bind, Except.bind, pure, Except.pure, Except.mapError]

theorem mapError_kind_bind {α β : Type} {x y : Except LineFault α}
    (h : x.mapError LineFault.kind = y.mapError LineFault.kind) (f : α → Except LineFault β) :
    (x >>= f).mapError LineFault.kind = (y >>= f).mapError LineFault.kind := by
  rcases x with e | a
  · rcases y with e' | b
    · simpa [bind, Except.bind, Except.mapError] using h
    · simp [Except.mapError] at h
  · rcases y with e' | b
    · simp [Except.mapError] at h
    · simp only [Except.mapError, Except.ok.injEq] at h
      rw [h]

/-- **Lines with the same words**, up to the case of letters, denote the same or are wrong in the
same way. -/
theorem mapError_kind_lineProgram
    (h : (lineWords line').map (List.map Char.toLower) =
      (lineWords line).map (List.map Char.toLower)) :
    (lineProgram line').mapError LineFault.kind = (lineProgram line).mapError LineFault.kind := by
  rw [lineProgram_eq_bind, lineProgram_eq_bind]
  apply mapError_kind_bind
  rw [← mapError_kind_mapM_lexeme, h, mapError_kind_mapM_lexeme]

/-! ## Results with the lines moved -/

/-- Results that differ at most in the words that errors name and, as `R` says, in their lines. -/
inductive Alike (R : Nat → Nat → Prop) :
    Except AssemblyError Program → Except AssemblyError Program → Prop
  | ok (p : Program) : Alike R (.ok p) (.ok p)
  | error {e e' : AssemblyError} : e'.fault.kind = e.fault.kind → R e.line e'.line →
      Alike R (.error e) (.error e')

section Alike

variable {R S T : Nat → Nat → Prop} {r r' r₁ r₁' r₂ r₂' r₃ : Except AssemblyError Program}
  {n n' : Nat}

theorem Alike.refl (r : Except AssemblyError Program) : Alike Eq r r := by
  rcases r with e | p
  · exact .error rfl rfl
  · exact .ok p

theorem Alike.flip (h : Alike R r r') : Alike (flip R) r' r := by
  cases h with
  | ok p => exact .ok p
  | error hkind hline => exact .error hkind.symm hline

theorem Alike.comp (h₁ : Alike R r₁ r₂) (h₂ : Alike S r₂ r₃) : Alike (Relation.Comp R S) r₁ r₃ := by
  cases h₁ with
  | ok p =>
    cases h₂ with
    | ok => exact .ok p
  | @error e e' hkind hline =>
    cases h₂ with
    | error hkind' hline' => exact .error (hkind'.trans hkind) ⟨e'.line, hline, hline'⟩

theorem Alike.eq_ok {p : Program} (h : Alike R r r') (hr : r = .ok p) : r' = .ok p := by
  cases h with
  | ok => exact hr
  | error => cases hr

theorem Alike.exists_error {e : AssemblyError} (h : Alike R r r') (hr : r = .error e) :
    ∃ e', r' = .error e' ∧ e'.fault.kind = e.fault.kind ∧ R e.line e'.line := by
  cases h with
  | ok => cases hr
  | error hkind hline =>
    cases hr
    exact ⟨_, rfl, hkind, hline⟩

/-- **Texts in two parts**: the lines of the first part keep to `R`, and those of the second one to
`S` as they are numbered by themselves. -/
theorem Alike.followedBy (h₁ : Alike R r₁ r₁') (h₂ : Alike S r₂ r₂')
    (hR : ∀ i j, R i j → T i j) (hS : ∀ i j, S i j → T (i + n) (j + n')) :
    Alike T (followedBy r₁ n r₂) (followedBy r₁' n' r₂') := by
  cases h₁ with
  | ok p =>
    cases h₂ with
    | ok q => exact .ok (p ++ q)
    | error hkind hline => exact .error hkind (hS _ _ hline)
  | error hkind hline => exact .error hkind (hR _ _ hline)

/-- Lines without instructions in front of a text only move it down. -/
theorem Alike.followedBy_nil (h : Alike R r r') (hS : ∀ i j, R i j → S i (j + n)) :
    Alike S r (Assembly.followedBy (.ok []) n r') := by
  cases h with
  | ok p => exact .ok p
  | error hkind hline => exact .error hkind (hS _ _ hline)

theorem alike_numberedLine
    (h : (lineProgram line').mapError LineFault.kind = (lineProgram line).mapError LineFault.kind)
    (n : Nat) : Alike Eq (numberedLine line n) (numberedLine line' n) := by
  unfold numberedLine
  revert h
  rcases lineProgram line with e | p
  · rcases lineProgram line' with e' | p'
    · intro h
      exact .error (Except.error.inj h) rfl
    · intro h
      cases h
  · rcases lineProgram line' with e' | p'
    · intro h
      cases h
    · intro h
      cases h
      exact .ok p

/-- An error stands on a line of the text. -/
theorem alike_assembleText (text : List Char) :
    Alike (fun i j => i = j ∧ 1 ≤ i ∧ i ≤ (Text.lines text).length)
      (assembleText text) (assembleText text) := by
  unfold assembleText
  rcases h : assembleLines (Text.lines text) 1 with e | ps
  · obtain ⟨before, l, after, hlines, -, -, hline⟩ := assembleLines_eq_error_iff.1 h
    refine .error rfl ⟨rfl, by omega, ?_⟩
    rw [hline, hlines, List.length_append, List.length_cons]
    omega
  · exact .ok ps.flatten

end Alike

/-! ## Lines of a text -/

/-- What a line comes to depends on its words only. -/
theorem numberedLine_congr (h : lineWords line' = lineWords line) (n : Nat) :
    numberedLine line' n = numberedLine line n := by
  unfold numberedLine
  rw [lineProgram_eq_bind, h, lineProgram_eq_bind]

theorem isBlanks_carriageReturn : IsBlanks ['\r'] := by
  constructor
  · simp
  · intro c hc
    rw [List.mem_singleton.1 hc]
    decide

/-- A carriage return that stands before a line feed is no word, whether or not it counts as a part
of the line. -/
theorem lineWords_dropLineEnd (line : List Char) :
    lineWords (Text.dropLineEnd (line ++ ['\n'])) = lineWords line := by
  by_cases h : line.getLast? = some '\r'
  · obtain ⟨front, rfl⟩ := List.getLast?_eq_some_iff.1 h
    rw [Text.dropLineEnd_carriageReturn, lineWords_trailing isBlanks_carriageReturn]
  · rw [Text.dropLineEnd_newline h]

theorem assembleText_of_lines (h : Text.lines code = [line]) :
    assembleText code = numberedLine line 1 := by
  unfold assembleText
  rw [h]
  rcases hl : lineProgram line with fault | p
  · rw [assembleLines_cons_of_error hl, numberedLine, hl]
    rfl
  · rw [assembleLines_cons_of_ok hl, numberedLine, hl]
    show Except.ok (p ++ []) = Except.ok p
    rw [List.append_nil]

/-- A line that does not end. -/
theorem assembleText_line (h : '\n' ∉ line) : assembleText line = numberedLine line 1 := by
  by_cases hne : line = []
  · subst hne
    rfl
  · exact assembleText_of_lines (Text.lines_of_not_mem h hne)

/-- A line that ends, and what stands behind it. -/
theorem assembleText_line_append (h : '\n' ∉ line) (rest : List Char) :
    assembleText (line ++ '\n' :: rest) =
      followedBy (numberedLine line 1) 1 (assembleText rest) := by
  have hlines : Text.lines (line ++ ['\n']) = [Text.dropLineEnd (line ++ ['\n'])] :=
    Text.lines_append_newline h []
  have hcount : (line ++ ['\n']).count '\n' = 1 := by
    rw [List.count_append, List.count_eq_zero.2 h]
    rfl
  rw [← List.singleton_append, ← List.append_assoc,
    assembleText_append (Text.isWhole_append_newline line), hcount, assembleText_of_lines hlines,
    numberedLine_congr (lineWords_dropLineEnd line)]

/-- A carriage return at the end of a line is a blank like others. -/
theorem assembleText_carriageReturn (h : '\n' ∉ line) (rest : List Char) :
    assembleText (line ++ '\r' :: '\n' :: rest) =
      followedBy (numberedLine line 1) 1 (assembleText rest) := by
  have hline : '\n' ∉ line ++ ['\r'] := by
    rw [List.mem_append, not_or]
    exact ⟨h, by decide⟩
  have hsplit : line ++ '\r' :: '\n' :: rest = (line ++ ['\r']) ++ '\n' :: rest := by simp
  rw [hsplit, assembleText_line_append hline,
    numberedLine_congr (lineWords_trailing isBlanks_carriageReturn line)]

/-- What a line without a word comes to. -/
theorem numberedLine_of_not_holdsWord (h : holdsWord line = false) (n : Nat) :
    numberedLine line n = .ok [] := by
  have hwords : lineWords line = lineWords [] := by
    show lineWords line = []
    simpa [holdsWord, lineWords] using h
  rw [numberedLine_congr hwords]
  rfl

/-! ## Edits of a text -/

/-- What an edit in a line does to the text from that line on. -/
theorem LineEdit.alike {after : List Char} (h : LineEdit line line') (hline : '\n' ∉ line)
    (hline' : '\n' ∉ line') (hafter : FollowsLine after) :
    Alike Eq (assembleText (line ++ after)) (assembleText (line' ++ after)) := by
  have hnumbered := alike_numberedLine (mapError_kind_lineProgram h.sameWords) 1
  have hfollowed (rest : List Char) :
      Alike Eq (followedBy (numberedLine line 1) 1 (assembleText rest))
        (followedBy (numberedLine line' 1) 1 (assembleText rest)) :=
    hnumbered.followedBy (.refl (assembleText rest)) (fun i j hij => hij)
      fun i j hij => congrArg (· + 1) hij
  cases hafter with
  | nothing =>
    rw [List.append_nil, List.append_nil, assembleText_line hline, assembleText_line hline']
    exact hnumbered
  | lineFeed rest =>
    rw [assembleText_line_append hline, assembleText_line_append hline']
    exact hfollowed rest
  | carriageReturn rest =>
    rw [assembleText_carriageReturn hline, assembleText_carriageReturn hline']
    exact hfollowed rest

/-- **One edit** moves an error with its line and changes nothing else. -/
theorem Edit.alike {t t' : List Char} {R : Nat → Nat → Prop} (h : Edit t t' R) :
    Alike R (assembleText t) (assembleText t') := by
  cases h with
  | @inLine before line line' after hbefore hline hline' hedit hafter =>
    rw [List.append_assoc, List.append_assoc, assembleText_append hbefore,
      assembleText_append hbefore]
    exact (Alike.refl (assembleText before)).followedBy (hedit.alike hline hline' hafter)
      (fun i j hij => hij) fun i j hij => congrArg (· + before.count '\n') hij
  | @insertLine before line after hbefore hline hwords =>
    -- An error of the first part is above the new line, and one of the second part below it.
    have hlater : Alike (fun i j => 1 ≤ i ∧ j = i + 1) (assembleText after)
        (assembleText (line ++ '\n' :: after)) := by
      rw [assembleText_line_append hline, numberedLine_of_not_holdsWord hwords]
      refine (alike_assembleText after).followedBy_nil ?_
      rintro i j ⟨rfl, hle, -⟩
      exact ⟨hle, rfl⟩
    rw [List.append_assoc, assembleText_append hbefore, assembleText_append hbefore]
    refine (alike_assembleText before).followedBy hlater ?_ ?_
    · rintro i j ⟨rfl, -, hle⟩
      rw [Text.length_lines hbefore] at hle
      rw [if_pos hle]
    · rintro i j ⟨hle, rfl⟩
      rw [if_neg (by omega)]
      omega
  | carriageReturn before after =>
    obtain ⟨whole, line, rfl, hwhole, hline⟩ := Text.exists_eq_isWhole_append before
    have hsame : assembleText (whole ++ line ++ '\n' :: after) =
        assembleText (whole ++ line ++ '\r' :: '\n' :: after) := by
      rw [List.append_assoc, List.append_assoc, assembleText_append hwhole,
        assembleText_append hwhole, assembleText_line_append hline,
        assembleText_carriageReturn hline]
    rw [← hsame]
    exact .refl _
  | lastLineEnd text =>
    obtain ⟨whole, line, rfl, hwhole, hline⟩ := Text.exists_eq_isWhole_append t
    have hsame : assembleText (line ++ ['\n']) = assembleText line := by
      rw [assembleText_line_append hline, assembleText_line hline]
      exact followedBy_ok_nil
    rw [List.append_assoc, assembleText_append hwhole, assembleText_append hwhole, hsame]
    exact .refl _

theorem Edits.alike {t t' : List Char} {R : Nat → Nat → Prop} (h : Edits t t' R) :
    Alike R (assembleText t) (assembleText t') := by
  induction h with
  | none => exact .refl _
  | make _ hedit ih => exact ih.comp hedit.alike
  | undo _ hedit ih => exact ih.comp hedit.alike.flip

/-- **Assembly does not depend on the layout.** Edits of the layout leave the program of a text as
it is. A text that is refused is refused after them for a fault of the same kind, on the line that
corresponds to the one that was wrong. -/
theorem assemble_edits {t t' : String} {R : Nat → Nat → Prop} (h : Edits t.toList t'.toList R) :
    (∀ p, assemble t' = .ok p ↔ assemble t = .ok p) ∧
    ∀ e, assemble t = .error e →
      ∃ e', assemble t' = .error e' ∧ e'.fault.kind = e.fault.kind ∧ R e.line e'.line := by
  have halike : Alike R (assemble t) (assemble t') := by
    rw [assemble_eq_assembleText, assemble_eq_assembleText]
    exact h.alike
  refine ⟨fun p => ⟨fun hp => ?_, fun hp => ?_⟩, fun e he => ?_⟩
  · exact halike.flip.eq_ok hp
  · exact halike.eq_ok hp
  · exact halike.exists_error he

theorem assemble_edits_malformed_number :
    ∃ R : Nat → Nat → Prop,
      Edits "PUSH 0xfG ; all\nnot".toList "; head\r\npush\t0XFg \nnot\n".toList R ∧
      (∀ m, R 1 m → m = 2) ∧
      assemble "PUSH 0xfG ; all\nnot" = .error ⟨1, .invalidNumber "0xfG"⟩ ∧
      ∃ e, assemble "; head\r\npush\t0XFg \nnot\n" = .error e ∧
        e.fault.kind = .invalidNumber ∧ e.line = 2 := by
  have hblank (c : Char) (hc : Text.isBlank c) : IsBlanks [c] := by simpa [IsBlanks] using hc
  have hcomment : Edit "PUSH 0xfG \nnot".toList "PUSH 0xfG ; all\nnot".toList Eq :=
    .inLine Text.isWhole_nil (by decide) (by decide) (.comment "PUSH 0xfG ".toList " all".toList)
      (.lineFeed "not".toList)
  have htab : Edit "PUSH 0xfG \nnot".toList "PUSH\t0xfG \nnot".toList Eq :=
    .inLine Text.isWhole_nil (by decide) (by decide)
      (.blanks "PUSH".toList "0xfG ".toList (hblank ' ' (by decide)) (hblank '\t' (by decide)))
      (.lineFeed "not".toList)
  have hletters : Edit "PUSH\t0xfG \nnot".toList "push\t0XFg \nnot".toList Eq :=
    .inLine Text.isWhole_nil (by decide) (by decide)
      (.letters (by decide : "push\t0XFg ".toList.map Char.toLower =
        "PUSH\t0xfG ".toList.map Char.toLower))
      (.lineFeed "not".toList)
  have hhead : Edit "push\t0XFg \nnot".toList "; head\npush\t0XFg \nnot".toList
      fun n m => m = if n ≤ 0 then n else n + 1 :=
    .insertLine "push\t0XFg \nnot".toList Text.isWhole_nil
      (by decide : '\n' ∉ "; head".toList) (by decide)
  have hreturn : Edit "; head\npush\t0XFg \nnot".toList "; head\r\npush\t0XFg \nnot".toList Eq :=
    .carriageReturn "; head".toList "push\t0XFg \nnot".toList
  have hend : Edit "; head\r\npush\t0XFg \nnot".toList "; head\r\npush\t0XFg \nnot\n".toList Eq :=
    .lastLineEnd "; head\r\npush\t0XFg \nnot".toList
  have hedits := Edits.make (.make (.make (.make (.make (.undo (.none _) hcomment) htab) hletters)
    hhead) hreturn) hend
  have hwrong : assemble "PUSH 0xfG ; all\nnot" = .error ⟨1, .invalidNumber "0xfG"⟩ := by decide
  obtain ⟨e, he, hkind, hline⟩ := (assemble_edits hedits).2 _ hwrong
  refine ⟨_, hedits, ?_, hwrong, e, he, hkind, ?_⟩
  · intro m hm
    simpa [Relation.Comp, flip] using hm
  · simpa [Relation.Comp, flip] using hline

end StackVM.Assembly
