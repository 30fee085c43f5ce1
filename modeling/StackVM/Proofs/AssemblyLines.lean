import StackVM.Assembly

/-!
# Assembly line by line

A text is accepted exactly if each of its lines is, and then denotes the programs of the lines one
after the other (`assemble_eq_ok_iff`). Otherwise the first line that is wrong gives the error, with
its number (`assemble_eq_error_iff`).
-/

set_option autoImplicit false

namespace StackVM.Assembly

/-! ## Lists that are read element by element -/

/-- **The first element that is refused** gives the error. -/
theorem mapM_eq_error_iff {α β ε : Type} {f : α → Except ε β} {xs : List α} {e : ε} :
    xs.mapM f = .error e ↔ ∃ before x after, xs = before ++ x :: after ∧
      (∀ y ∈ before, ∃ z, f y = .ok z) ∧ f x = .error e := by
  induction xs with
  | nil => simp [pure, Except.pure]
  | cons x xs ih =>
    rw [List.mapM_cons]
    rcases hx : f x with e' | z
    · constructor
      · intro h
        cases h
        exact ⟨[], x, xs, rfl, by simp, hx⟩
      · rintro ⟨before, y, after, hxs, hbefore, hy⟩
        rcases before with _ | ⟨b, before⟩
        · obtain ⟨rfl, rfl⟩ := List.cons.inj hxs
          cases hx.symm.trans hy
          rfl
        · obtain ⟨rfl, -⟩ := List.cons.inj hxs
          obtain ⟨z, hz⟩ := hbefore x List.mem_cons_self
          cases hx.symm.trans hz
    · have hrest : (do let z ← Except.ok z; let zs ← xs.mapM f; pure (z :: zs)) = .error e ↔
          xs.mapM f = .error e := by
        rcases xs.mapM f with e' | zs <;> simp [bind, Except.bind, pure, Except.pure]
      refine hrest.trans (ih.trans ?_)
      constructor
      · rintro ⟨before, y, after, rfl, hbefore, hy⟩
        exact ⟨x :: before, y, after, rfl, List.forall_mem_cons.2 ⟨⟨z, hx⟩, hbefore⟩, hy⟩
      · rintro ⟨before, y, after, hxs, hbefore, hy⟩
        rcases before with _ | ⟨b, before⟩
        · obtain ⟨rfl, rfl⟩ := List.cons.inj hxs
          cases hx.symm.trans hy
        · obtain ⟨rfl, rfl⟩ := List.cons.inj hxs
          exact ⟨before, y, after, rfl, (List.forall_mem_cons.1 hbefore).2, hy⟩

/-! ## Lines -/

/-- The words of a line before its first semicolon. -/
def lineWords (line : List Char) : List (List Char) := Text.words (dropComment line)

/-- **A line is read from its words**, all of which have to be lexemes first. -/
theorem lineProgram_eq_bind (line : List Char) :
    lineProgram line = (lineWords line).mapM lexeme >>= statement := rfl

/-- The programs of lines that are numbered from `n`, up to the first line that is wrong. -/
def assembleLines (ls : List (List Char)) (n : Nat) : Except AssemblyError (List Program) :=
  (ls.zipIdx n).mapM fun (line, number) => numberedLine line number

theorem assemble_eq_map (text : String) :
    assemble text = (assembleLines (Text.lines text.toList) 1).map List.flatten := by
  unfold assemble assembleLines
  rcases List.mapM _ ((Text.lines text.toList).zipIdx 1) with e | ps
  · rfl
  · rfl

variable {l : List Char} {ls : List (List Char)} {n : Nat} {e : AssemblyError} {p : Program}
  {ps : List Program}

theorem assembleLines_cons :
    assembleLines (l :: ls) n = do
      let p ← numberedLine l n
      let ps ← assembleLines ls (n + 1)
      return p :: ps := by
  unfold assembleLines
  rw [List.zipIdx_cons, List.mapM_cons]

theorem assembleLines_cons_of_ok (h : lineProgram l = .ok p) :
    assembleLines (l :: ls) n = (assembleLines ls (n + 1)).map (p :: ·) := by
  rw [assembleLines_cons, numberedLine, h]
  rcases assembleLines ls (n + 1) with e | ps
  · rfl
  · rfl

theorem assembleLines_cons_of_error {fault : LineFault} (h : lineProgram l = .error fault) :
    assembleLines (l :: ls) n = .error ⟨n, fault⟩ := by
  rw [assembleLines_cons, numberedLine, h]
  rfl

theorem assembleLines_eq_ok_iff :
    assembleLines ls n = .ok ps ↔ ls.map lineProgram = ps.map .ok := by
  induction ls generalizing n ps with
  | nil => cases ps <;> simp [assembleLines, pure, Except.pure]
  | cons l ls ih =>
    rcases h : lineProgram l with fault | p
    · rw [assembleLines_cons_of_error h, List.map_cons, h]
      cases ps <;> simp
    · rw [assembleLines_cons_of_ok h, List.map_cons, h]
      rcases ps with _ | ⟨q, ps⟩
      · rcases assembleLines ls (n + 1) with e | qs <;> simp [Except.map]
      · rw [List.map_cons, List.cons.injEq, Except.ok.injEq, ← ih (n := n + 1)]
        rcases assembleLines ls (n + 1) with e | qs <;> simp [Except.map]

theorem numberedLine_eq_ok_iff : numberedLine l n = .ok p ↔ lineProgram l = .ok p := by
  unfold numberedLine
  rcases lineProgram l with fault | q
  · show Except.error (AssemblyError.mk n fault) = .ok p ↔ Except.error fault = .ok p
    simp
  · show (Except.ok q : Except AssemblyError Program) = .ok p ↔ Except.ok q = .ok p
    simp

theorem numberedLine_eq_error_iff :
    numberedLine l n = .error e ↔ lineProgram l = .error e.fault ∧ e.line = n := by
  obtain ⟨line, fault⟩ := e
  unfold numberedLine
  rcases lineProgram l with fault' | q
  · show Except.error (AssemblyError.mk n fault') = .error ⟨line, fault⟩ ↔
      Except.error fault' = .error fault ∧ line = n
    simp [and_comm, eq_comm]
  · show Except.ok q = .error (AssemblyError.mk line fault) ↔
      Except.ok q = .error fault ∧ line = n
    simp

theorem assembleLines_eq_error_iff :
    assembleLines ls n = .error e ↔ ∃ before l after, ls = before ++ l :: after ∧
      (∀ l' ∈ before, ∃ p, lineProgram l' = .ok p) ∧ lineProgram l = .error e.fault ∧
      e.line = n + before.length := by
  rw [assembleLines, mapM_eq_error_iff]
  simp only [numberedLine_eq_ok_iff, numberedLine_eq_error_iff]
  constructor
  · rintro ⟨numbered, ⟨l, number⟩, rest, hnumbered, hbefore, hl, hnumber⟩
    obtain ⟨before, ls', rfl, rfl, hls'⟩ := List.zipIdx_eq_append_iff.1 hnumbered
    obtain ⟨l', after, rfl, hl', -⟩ := List.zipIdx_eq_cons_iff.1 hls'.symm
    cases hl'
    refine ⟨before, l, after, rfl, fun l' hmem => ?_, hl, hnumber⟩
    rw [← List.zipIdx_map_fst n before] at hmem
    obtain ⟨x, hx, rfl⟩ := List.mem_map.1 hmem
    exact hbefore x hx
  · rintro ⟨before, l, after, rfl, hbefore, hl, hnumber⟩
    refine ⟨before.zipIdx n, (l, n + before.length), after.zipIdx (n + before.length + 1), ?_,
      fun x hx => hbefore x.1 (List.fst_mem_of_mem_zipIdx hx), hl, hnumber⟩
    rw [List.zipIdx_append, List.zipIdx_cons]

/-! ## Texts -/

/-- **A text denotes a program** if its lines denote the pieces of it. -/
theorem assemble_eq_ok_iff {text : String} :
    assemble text = .ok p ↔
      ∃ ps : List Program, (Text.lines text.toList).map lineProgram = ps.map .ok ∧
        p = ps.flatten := by
  simp only [assemble_eq_map, ← assembleLines_eq_ok_iff (n := 1)]
  rcases assembleLines (Text.lines text.toList) 1 with e | qs
  · simp [Except.map]
  · simp [Except.map, eq_comm (a := p)]

/-- **A text is refused** at the first line that is wrong. -/
theorem assemble_eq_error_iff {text : String} :
    assemble text = .error e ↔ ∃ before l after, Text.lines text.toList = before ++ l :: after ∧
      (∀ l' ∈ before, ∃ p, lineProgram l' = .ok p) ∧ lineProgram l = .error e.fault ∧
      e.line = before.length + 1 := by
  have h : assemble text = .error e ↔ assembleLines (Text.lines text.toList) 1 = .error e := by
    rw [assemble_eq_map]
    rcases assembleLines (Text.lines text.toList) 1 with e' | qs <;> simp [Except.map]
  simp only [h, assembleLines_eq_error_iff, Nat.add_comm 1]

end StackVM.Assembly
