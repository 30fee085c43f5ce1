import Mathlib.Data.List.Forall2
import StackVM.Proofs.AssemblyLines
import StackVM.Proofs.Layout

/-!
# Assembly part by part

A text that stops at the end of a line can be assembled by itself, and what is put after it by
itself (`assemble_append`). The programs are put one after the other, and an error in the second
part has the lines of the first part added to its number.

The parts: lines that are appended are assembled after the others (`assembleLines_append`), and
numbering them from further down moves the number of the error and nothing else
(`assembleLines_add`). `assembleText_append` puts both together for the characters of a text.
-/

set_option autoImplicit false

namespace StackVM

/-- The error as it is numbered with `n` more lines above it. -/
def AssemblyError.below (e : AssemblyError) (n : Nat) : AssemblyError :=
  { e with line := e.line + n }

namespace Assembly

/-- The program that the characters of a text denote. -/
def assembleText (text : List Char) : Except AssemblyError Program :=
  (assembleLines (Text.lines text) 1).map List.flatten

/-- What comes of a text in two parts, from what comes of each of them: the first part takes up `n`
lines. -/
def followedBy (first : Except AssemblyError Program) (n : Nat)
    (second : Except AssemblyError Program) : Except AssemblyError Program := do
  let p ← first
  let q ← second.mapError (·.below n)
  return p ++ q

theorem assemble_eq_assembleText (text : String) : assemble text = assembleText text.toList :=
  assemble_eq_map text

variable {l : List Char} {ls ls' : List (List Char)} {n k : Nat} {e : AssemblyError}
  {p q : Program} {first second : Except AssemblyError Program}

@[simp] theorem followedBy_error : followedBy (.error e) n second = .error e := rfl

@[simp] theorem followedBy_ok_ok : followedBy (.ok p) n (.ok q) = .ok (p ++ q) := rfl

@[simp] theorem followedBy_ok_error : followedBy (.ok p) n (.error e) = .error (e.below n) := rfl

/-- A second part without instructions adds nothing. -/
theorem followedBy_ok_nil : followedBy first n (.ok []) = first := by
  rcases first with e | p
  · rfl
  · rw [followedBy_ok_ok, List.append_nil]

/-! ## Lines -/

theorem assembleLines_append :
    assembleLines (ls ++ ls') n = do
      let ps ← assembleLines ls n
      let qs ← assembleLines ls' (n + ls.length)
      return ps ++ qs := by
  unfold assembleLines
  rw [List.zipIdx_append, List.mapM_append]

/-- Counting from `k` lines further down only moves the error. -/
theorem assembleLines_add :
    assembleLines ls (n + k) = (assembleLines ls n).mapError (·.below k) := by
  induction ls generalizing n with
  | nil => rfl
  | cons l ls ih =>
    rcases h : lineProgram l with fault | p
    · rw [assembleLines_cons_of_error h, assembleLines_cons_of_error h]
      rfl
    · rw [assembleLines_cons_of_ok h, assembleLines_cons_of_ok h, Nat.add_right_comm, ih]
      rcases assembleLines ls (n + 1) with e | ps
      · rfl
      · rfl

/-! ## Texts -/

/-- **A text in two parts** gives what its parts give, if the first stops at the end of a line. -/
theorem assembleText_append {text : List Char} (h : Text.IsWhole text) (rest : List Char) :
    assembleText (text ++ rest) =
      followedBy (assembleText text) (text.count '\n') (assembleText rest) := by
  unfold assembleText
  rw [Text.lines_append h, assembleLines_append, assembleLines_add, Text.length_lines h]
  rcases assembleLines (Text.lines text) 1 with e | ps
  · rfl
  rcases assembleLines (Text.lines rest) 1 with e | qs
  · rfl
  · simp [Except.map, Except.mapError, bind, Except.bind, pure, Except.pure]

/-- **Assembly is compositional.** If a text is empty or ends in a line feed, then what is put after
it does not change its error; and if it is accepted, then both programs follow each other, or the
error of the second text stands as many lines further down as the first one has line feeds. -/
theorem assemble_append {before after : String}
    (h : before = "" ∨ before.toList.getLast? = some '\n') :
    (∀ e, assemble before = .error e → assemble (before ++ after) = .error e) ∧
    ∀ p, assemble before = .ok p →
      (∀ q, assemble after = .ok q → assemble (before ++ after) = .ok (p ++ q)) ∧
      ∀ e, assemble after = .error e →
        assemble (before ++ after) =
          .error { e with line := e.line + before.toList.count '\n' } := by
  have hwhole : Text.IsWhole before.toList := h.imp_left fun hempty => by rw [hempty]; rfl
  have happend : assemble (before ++ after) =
      followedBy (assemble before) (before.toList.count '\n') (assemble after) := by
    simp only [assemble_eq_assembleText]
    rw [String.toList_append, assembleText_append hwhole]
  rw [happend]
  refine ⟨fun e he => ?_, fun p hp => ⟨fun q hq => ?_, fun e he => ?_⟩⟩
  · rw [he, followedBy_error]
  · rw [hp, hq, followedBy_ok_ok]
  · rw [hp, he, followedBy_ok_error]
    rfl

theorem assemble_append_unknown_opcode :
    assemble "push 0x10 ; sixteen\r\n\r\n" = .ok (Token.push 16) ∧
    assemble "not\njump" = .error ⟨2, .unknownOpcode "JUMP"⟩ ∧
    assemble ("push 0x10 ; sixteen\r\n\r\n" ++ "not\njump") =
      .error ⟨4, .unknownOpcode "JUMP"⟩ := by
  have hfirst : assemble "push 0x10 ; sixteen\r\n\r\n" = .ok (Token.push 16) := by decide
  have hsecond : assemble "not\njump" = .error ⟨2, .unknownOpcode "JUMP"⟩ := by decide
  have hend : "push 0x10 ; sixteen\r\n\r\n".toList.getLast? = some '\n' := by decide
  have hcount : "push 0x10 ; sixteen\r\n\r\n".toList.count '\n' = 2 := by decide
  have hthird := ((assemble_append (.inr hend)).2 _ hfirst).2 _ hsecond
  rw [hcount] at hthird
  exact ⟨hfirst, hsecond, hthird⟩

end Assembly

end StackVM
