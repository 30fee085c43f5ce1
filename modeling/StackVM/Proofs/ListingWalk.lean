import StackVM.Cursor
import StackVM.Proofs.ListingText

/-!
# Listing by a cursor

A listing is defined from the end of the program, where each token is put in front of the rows of
those after it. It can be made from the start as well, by a cursor that goes through the program and
never back. A turn of it (`rowAt?`) lists what is under the cursor. A `PUSH` makes it look one token
on: it takes a literal along, and leaves any other token for the next turn.

`walk_eq` says that both ways give the same rows, and `disassemble_eq_walk` that the text is the
rows of the walk with line feeds between them and one at the end.
-/

set_option autoImplicit false

namespace StackVM.Listing

/-- The row of what is under a cursor, and the cursor behind it. There is none at the end. -/
def rowAt? (c : Cursor) : Option (Row × Cursor) :=
  match c.current? with
  | none => none
  | some (.op .push) =>
    match c.advance.current? with
    | some (.data v) => some (.push v, c.advance.advance)
    | _ => some (.opcode .push, c.advance)
  | some (.op o) => some (.opcode o, c.advance)
  | some (.data v) => some (.data v, c.advance)

variable {c c' : Cursor} {row : Row}

/-! ## One turn -/

theorem rows_of_rowAt?_none (h : rowAt? c = none) : rows c.ahead = [] := by
  rcases c with ⟨n, _ | ⟨t, ts⟩⟩
  · rfl
  · unfold rowAt? at h
    split at h
    · next hc => cases hc
    · split at h <;> cases h
    · cases h
    · cases h

/-- **A turn lists the first row**, and the turns after it list the others. -/
theorem rows_of_rowAt? (h : rowAt? c = some (row, c')) :
    rows c.ahead = row :: rows c'.ahead ∧ c'.ahead.length < c.ahead.length := by
  rcases c with ⟨n, _ | ⟨t, ts⟩⟩
  · cases h
  unfold rowAt? at h
  rw [Cursor.advance_cons] at h
  split at h
  · next hc => cases hc
  · next hc =>
    cases hc
    split at h
    · next v hv =>
      -- The literal is taken along, so the cursor is behind two tokens.
      obtain ⟨rest, rfl⟩ := List.head?_eq_some_iff.1 hv
      cases h
      exact ⟨rfl, Nat.lt_add_of_pos_right (by decide : 0 < 2)⟩
    · next hv =>
      cases h
      exact ⟨rows_push_of_head? hv, Nat.lt_succ_self _⟩
  · next o ho hc =>
    cases hc
    cases h
    exact ⟨rows_op_cons fun hpush => absurd hpush ho, Nat.lt_succ_self _⟩
  · next v hc =>
    cases hc
    cases h
    exact ⟨rfl, Nat.lt_succ_self _⟩

/-! ## All turns -/

/-- The rows that a cursor lists up to the end of the program. -/
def walk (c : Cursor) : List Row :=
  match h : rowAt? c with
  | none => []
  | some (row, c') =>
    have := (rows_of_rowAt? h).2
    row :: walk c'
termination_by c.ahead.length

/-- **A walk lists the rows** of what is ahead of the cursor. -/
theorem walk_eq (c : Cursor) : walk c = rows c.ahead := by
  fun_induction walk c with
  | case1 c h => exact (rows_of_rowAt?_none h).symm
  | case2 c row c' h _ ih => rw [ih, (rows_of_rowAt? h).1]

/-! ## The text -/

theorem Row.text_ne_empty (r : Row) : r.text ≠ "" := by
  intro h
  have hwords := r.words_text
  rw [h] at hwords
  cases r with
  | opcode | push | data => cases hwords

/-- Lines that each end are lines with ends between them and one behind the last. -/
theorem join_map_append_lineFeed (line : String) (ls : List String) :
    String.join ((line :: ls).map (· ++ "\n")) = "\n".intercalate (line :: ls) ++ "\n" := by
  induction ls generalizing line with
  | nil => simp
  | cons l ls ih =>
    rw [List.map_cons, String.join_cons, ih, String.intercalate_cons_cons]
    simp only [String.append_assoc]

theorem intercalate_cons_ne_empty {line : String} (h : line ≠ "") (ls : List String) :
    "\n".intercalate (line :: ls) ≠ "" := by
  cases ls with
  | nil => simpa using h
  | cons l ls => simp [String.intercalate_cons_cons]

/-- **A listing is the rows of a walk** from the start, joined by line feeds. If it is not empty it
ends in one more. -/
theorem disassemble_eq_walk (p : Program) :
    let text := "\n".intercalate ((walk (.start p)).map Row.text)
    disassemble p = if text = "" then "" else text ++ "\n" := by
  intro text
  have htext : text = "\n".intercalate ((rows p).map Row.text) := by
    show "\n".intercalate ((walk (.start p)).map Row.text) = _
    rw [walk_eq]
    rfl
  rw [htext, disassemble]
  rcases rows p with _ | ⟨r, rs⟩
  · rfl
  · have hlines : ((r :: rs).map fun row => row.text ++ "\n") =
        (r.text :: rs.map Row.text).map (· ++ "\n") := by simp
    rw [hlines, join_map_append_lineFeed, List.map_cons,
      if_neg (intercalate_cons_ne_empty r.text_ne_empty _)]

end StackVM.Listing
