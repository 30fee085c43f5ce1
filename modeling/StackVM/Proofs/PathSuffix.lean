import StackVM.CommandLine.Files
import StackVM.Proofs.Layout

/-!
# Paths with something added

A path that does not end in a slash stays a path to the same directory if characters without a slash
are added to it: only the last name changes (`exists_pathNames`). So it leads elsewhere, unless the
longer name is a dot or two, which have a meaning of their own (`FileTree.locate_append_ne`).
-/

set_option autoImplicit false

namespace StackVM.CommandLine

variable {t : FileTree} {path suffix name name' : String} {place : Place} {c : Char}

/-! ## Names -/

/-- **What is added goes into the last name** of the path. -/
theorem exists_pathNames (hne : path ≠ "") (hslash : endsInSlash path = false) :
    ∃ above name, ∀ suffix : String, '/' ∉ suffix.toList →
      pathNames (path ++ suffix) = above ++ [name ++ suffix] := by
  obtain ⟨start, rest, hpath, hstart, hrest⟩ := Text.exists_eq_append_not_mem '/' path.toList
  have hrest_ne : rest ≠ [] := by
    rintro rfl
    obtain rfl | ⟨before, rfl⟩ := hstart
    · exact hne (String.toList_eq_nil_iff.1 hpath)
    · rw [endsInSlash, hpath] at hslash
      simp at hslash
  have hrun {suffix : String} (hsuffix : '/' ∉ suffix.toList) :
      Text.runs (· == '/') (rest ++ suffix.toList) = [rest ++ suffix.toList] := by
    refine Text.runs_of_forall ?_ (by simp [hrest_ne])
    intro c hc
    rw [beq_eq_false_iff_ne]
    rintro rfl
    exact (List.mem_append.1 hc).elim hrest hsuffix
  have hname (suffix : String) :
      String.ofList (rest ++ suffix.toList) = String.ofList rest ++ suffix := by
    rw [String.ofList_append, String.ofList_toList]
  obtain rfl | ⟨before, rfl⟩ := hstart
  · refine ⟨[], String.ofList rest, fun suffix hsuffix => ?_⟩
    rw [pathNames, String.toList_append, hpath, List.nil_append, hrun hsuffix, List.map_singleton,
      hname, List.nil_append]
  · refine ⟨(Text.runs (· == '/') before).map String.ofList, String.ofList rest,
      fun suffix hsuffix => ?_⟩
    rw [pathNames, String.toList_append, hpath, List.append_assoc, List.append_assoc,
      List.singleton_append, Text.runs_append_cons (by rfl), hrun hsuffix, List.map_append,
      List.map_singleton, hname]

theorem origin_append (hne : path ≠ "") : Place.origin (path ++ suffix) = Place.origin path := by
  obtain ⟨c, cs, hpath⟩ := List.exists_cons_of_ne_nil (mt String.toList_eq_nil_iff.1 hne)
  rw [Place.origin, Place.origin, String.toList_append, hpath]
  rfl

/-! ## Places -/

/-- A name that is neither a dot nor two leads to a place of its own. -/
theorem Place.descend_ne (hdot : name' ≠ ".") (hdots : name' ≠ "..") (hne : name' ≠ name) :
    place.descend name' ≠ place.descend name := by
  have hnew : place.descend name' = place ++ [name'] := by
    rw [descend, if_neg hdot, if_pos hdots]
  rw [hnew]
  intro h
  unfold descend at h
  split at h
  · exact absurd (congrArg List.length h) (by simp)
  split at h
  · exact hne (List.singleton_inj.1 (List.append_cancel_left h))
  split at h
  · next hroot =>
    rw [hroot] at h
    exact absurd (congrArg List.length h) (by simp [root])
  split at h
  · exact hdots (List.singleton_inj.1 (List.append_cancel_left h))
  · have hlength := congrArg List.length h
    rw [List.length_append, List.length_dropLast, List.length_singleton] at hlength
    omega

/-- **A longer path leads to another place.** -/
theorem FileTree.locate_append_ne (hslash : endsInSlash path = false)
    (hsuffix : '/' ∉ suffix.toList) (hlast : suffix.toList.getLast? = some c) (hc : c ≠ '.')
    (h : t.locate path = .ok place) :
    t.locate (path ++ suffix) ≠ .ok place := by
  have hne : path ≠ "" := by
    rintro rfl
    cases h
  obtain ⟨above, name, hnames⟩ := exists_pathNames hne hslash
  have hpath := hnames "" (by decide)
  rw [String.append_empty, String.append_empty] at hpath
  intro h'
  unfold FileTree.locate at h h'
  split at h
  · cases h
  split at h
  · cases h
  rw [hpath, List.getLast?_concat, List.dropLast_concat] at h
  split at h'
  · cases h'
  split at h'
  · cases h'
  rw [hnames suffix hsuffix, List.getLast?_concat, List.dropLast_concat, origin_append hne] at h'
  rcases hwalk : t.walk (Place.origin path) above with e | r
  · rw [hwalk] at h
    cases h
  · rw [hwalk] at h h'
    have hplace : r.descend name = place := Except.ok.inj h
    have hplace' : r.descend (name ++ suffix) = place := Except.ok.inj h'
    have hend : (name ++ suffix).toList.getLast? = some c := by
      rw [String.toList_append, List.getLast?_append, hlast]
      rfl
    have hdot : name ++ suffix ≠ "." := by
      intro heq
      rw [heq] at hend
      exact hc (Option.some.inj hend).symm
    have hdots : name ++ suffix ≠ ".." := by
      intro heq
      rw [heq] at hend
      exact hc (Option.some.inj hend).symm
    have hlonger : name ++ suffix ≠ name := by
      intro heq
      have hnil : suffix.toList = [] := by
        simpa using congrArg String.toList heq
      rw [hnil] at hlast
      cases hlast
    exact Place.descend_ne hdot hdots hlonger (hplace'.trans hplace.symm)

end StackVM.CommandLine
