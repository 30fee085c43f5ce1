import StackVM.CommandLine.Files

/-!
# Reading after writing

What is written at a path is read there again, and what was read at a path that leads to another
place is still read there (`read_write`). Whether a path can be written does not depend on what is
written (`exists_write`).

A write is a change at one place (`find?_of_write`). It does not bend the ways to others: a path
only leads through directories, and writing puts a file where no directory stood (`locate_put`).
-/

set_option autoImplicit false

namespace StackVM.CommandLine.FileTree

variable {t t' : FileTree} {place q r : Place} {path path' : String} {bytes content : List UInt8}
  {entry : Entry} {found : Option Entry} {names : List String}

/-! ## Looking up -/

theorem find?_of_lookUp (h : t.lookUp q = .ok found) : t.find? q = found := by
  unfold lookUp at h
  split at h
  · cases h
  · exact Except.ok.inj h

/-- No file stands in the place of the working directory or above it. -/
theorem isAnchor_of_lookUp (h : t.lookUp q = .ok found) (hne : found ≠ some .directory) :
    q.isAnchor = false := by
  rw [Bool.eq_false_iff]
  intro ha
  have hfind := find?_of_lookUp h
  rw [find?, if_pos ha] at hfind
  exact hne hfind.symm

/-- Names are too long or not, whatever stands at the place. -/
theorem lookUp_put (hp : place.isAnchor = false) (h : t.lookUp q = .ok found) :
    (t.put place entry).lookUp q = .ok (if q = place then some entry else found) := by
  have hfind := find?_of_lookUp h
  unfold lookUp at h ⊢
  split at h
  · cases h
  · next hname => rw [if_neg hname, find?_put t entry hp, hfind]

/-! ## Ways -/

theorem enter_eq_ok_iff : t.enter q = .ok r ↔ t.lookUp q = .ok (some .directory) ∧ q = r := by
  unfold enter
  rcases hs : t.lookUp q with e | _ | ⟨bytes⟩ | _
  · simp [bind, Except.bind]
  · simp [bind, Except.bind, throw, throwThe, MonadExceptOf.throw]
  · simp [bind, Except.bind, throw, throwThe, MonadExceptOf.throw]
  · simp [bind, Except.bind, pure, Except.pure]

/-- A place where no directory stood is on no way. -/
theorem enter_put (hp : place.isAnchor = false) (hd : t.find? place ≠ some .directory)
    (h : t.enter q = .ok r) : (t.put place entry).enter q = .ok r := by
  obtain ⟨hs, rfl⟩ := enter_eq_ok_iff.1 h
  have hne : q ≠ place := by
    rintro rfl
    exact hd (find?_of_lookUp hs)
  rw [enter_eq_ok_iff, lookUp_put hp hs, if_neg hne]
  exact ⟨rfl, rfl⟩

theorem walk_put (hp : place.isAnchor = false) (hd : t.find? place ≠ some .directory)
    (h : t.walk q names = .ok r) : (t.put place entry).walk q names = .ok r := by
  induction names generalizing q with
  | nil => exact h
  | cons name names ih =>
    rw [walk, List.foldlM_cons] at h ⊢
    rcases he : t.enter (q.descend name) with e | next
    · rw [he] at h
      cases h
    · rw [he] at h
      rw [enter_put hp hd he]
      exact ih h

/-- **Paths lead where they led** before a file was put in a place where no directory stood. -/
theorem locate_put (hp : place.isAnchor = false) (hd : t.find? place ≠ some .directory)
    (h : t.locate path = .ok r) : (t.put place entry).locate path = .ok r := by
  unfold locate at h ⊢
  split at h
  · cases h
  next hempty =>
  split at h
  · cases h
  next hlong =>
  rw [if_neg hempty, if_neg hlong]
  split at h
  · exact h
  · next name hname =>
    rcases hw : t.walk (Place.origin path) (pathNames path).dropLast with e | above
    · rw [hw] at h
      cases h
    · rw [hw] at h
      rw [walk_put hp hd hw]
      exact h

/-! ## Files -/

/-- **A write changes one place**, and every other place is as before. -/
theorem find?_of_write (h : t.write path bytes = .ok t') :
    ∃ place, t.locate path = .ok place ∧
      ∀ q, t'.find? q = if q = place then some (.file bytes) else t.find? q := by
  obtain ⟨place, found, hl, -, hs, hne, rfl⟩ := write_eq_ok_iff.1 h
  exact ⟨place, hl, find?_put t (.file bytes) (isAnchor_of_lookUp hs hne)⟩

/-- **A file that was read** is read again after a write at a path: with the bytes that were
written if the paths lead to the same place, and otherwise as before. -/
theorem read_write (hw : t.write path bytes = .ok t') (hr : t.read path' = .ok content) :
    t.locate path' = t.locate path ∧ t'.read path' = .ok bytes ∨
      t.locate path' ≠ t.locate path ∧ t'.read path' = .ok content := by
  obtain ⟨place, found, hl, -, hs, hne, rfl⟩ := write_eq_ok_iff.1 hw
  obtain ⟨q, hl', hslash, hs'⟩ := read_eq_ok_iff.1 hr
  have hp := isAnchor_of_lookUp hs hne
  have hd : t.find? place ≠ some .directory := find?_of_lookUp hs ▸ hne
  have hlocate : (t.put place (.file bytes)).locate path' = .ok q := locate_put hp hd hl'
  have hlookUp : (t.put place (.file bytes)).lookUp q = .ok _ := lookUp_put hp hs'
  rw [hl, hl', ne_eq, Except.ok.injEq]
  by_cases hq : q = place
  · rw [if_pos hq] at hlookUp
    exact .inl ⟨hq, read_eq_ok_iff.2 ⟨q, hlocate, hslash, hlookUp⟩⟩
  · rw [if_neg hq] at hlookUp
    exact .inr ⟨hq, read_eq_ok_iff.2 ⟨q, hlocate, hslash, hlookUp⟩⟩

/-- **What was written is read.** -/
theorem read_of_write (h : t.write path bytes = .ok t') : t'.read path = .ok bytes := by
  obtain ⟨place, found, hl, hslash, hs, hne, rfl⟩ := write_eq_ok_iff.1 h
  have hp := isAnchor_of_lookUp hs hne
  have hd : t.find? place ≠ some .directory := find?_of_lookUp hs ▸ hne
  rw [read_eq_ok_iff]
  refine ⟨place, locate_put hp hd hl, hslash, ?_⟩
  rw [lookUp_put hp hs, if_pos rfl]

/-- A path that can be written can be written with any bytes. -/
theorem exists_write (h : t.write path bytes = .ok t') (content : List UInt8) :
    ∃ t'', t.write path content = .ok t'' := by
  obtain ⟨place, found, hl, hslash, hs, hne, -⟩ := write_eq_ok_iff.1 h
  exact ⟨_, write_eq_ok_iff.2 ⟨place, found, hl, hslash, hs, hne, rfl⟩⟩

end StackVM.CommandLine.FileTree
