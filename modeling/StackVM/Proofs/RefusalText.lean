import StackVM.CommandLine
import StackVM.Proofs.FailureText

/-!
# What is printed for a refusal

`RefusalText` says, word by word, what `run` prints when it refuses to run a program. Each check has
a text of its own, and the text of a check names what failed it: an argument, a number, a path with
the reason why it cannot be read, or the fault in a byte stream. So the text tells the refusal
(`RefusalText.inj`).

* `RefusalKind.lead`: the words that the messages of a check start with. No two checks share them.
* `RefusalKind.Says`: what stands behind them, and what it says about the refusal.
* `HasReason.read`: why a file of a tree cannot be read. There are four reasons, and none of them
  ends like another.
-/

set_option autoImplicit false

namespace StackVM.CommandLine

/-- Why a file cannot be read. -/
inductive FileReason : FileError → String → Prop
  | notFound : FileReason .notFound "No such file or directory (os error 2)"
  | notDirectory : FileReason .notDirectory "Not a directory (os error 20)"
  | isDirectory : FileReason .isDirectory "Is a directory (os error 21)"
  | nameTooLong : FileReason .nameTooLong "File name too long (os error 36)"

/-- How `run` is used. -/
def runUsage : String := "Usage: koa run <input.koab> [--max-steps N] [--memory BYTES]\n"

def runOptionNames : List String := ["--max-steps", "--memory"]

/-- The line in which an error is printed. -/
def errorLine (message : String) : String := "error: " ++ message ++ "\n"

/-- What `run` prints for the check that fails. Where the arguments are no arguments of it, the
usage stands below. -/
inductive RefusalText : Refusal → String → Prop
  | noInput : RefusalText (.noInput .run) (errorLine "run requires an input file" ++ runUsage)
  | unknownOption (name : String) :
      RefusalText (.unknownOption name) (errorLine ("unknown option '" ++ name ++ "'") ++ runUsage)
  | missingValue {name : String} : name ∈ runOptionNames →
      RefusalText (.missingValue name) (errorLine (name ++ " requires a value"))
  | invalidValue {name : String} (value : String) : name ∈ runOptionNames →
      RefusalText (.invalidValue name value)
        (errorLine ("invalid " ++ name ++ " value '" ++ value ++ "'"))
  | memoryTooLarge (size : Nat) :
      RefusalText (.memoryTooLarge size)
        (errorLine ("--memory value " ++ toString size ++
          " exceeds the maximum of 1073741824 bytes"))
  | unreadable (path : String) {e : FileError} {reason : String} : FileReason e reason →
      RefusalText (.unreadable path e) (errorLine ("cannot read '" ++ path ++ "': " ++ reason))
  | bytecode (e : DecodeError) :
      RefusalText (.bytecode e) (errorLine ("invalid bytecode: " ++ e.message))

/-- What may keep `run` from running a program. -/
inductive RefusalKind where
  | noInput
  | unknownOption
  | missingValue (option : RunOption)
  | invalidValue (option : RunOption)
  | memoryTooLarge
  | unreadable
  | bytecode
  deriving DecidableEq

namespace RefusalKind

def all : List RefusalKind :=
  [noInput, unknownOption, missingValue .maxSteps, missingValue .memory, invalidValue .maxSteps,
    invalidValue .memory, memoryTooLarge, unreadable, bytecode]

theorem mem_all (k : RefusalKind) : k ∈ all := by
  cases k with
  | missingValue option | invalidValue option => cases option <;> decide
  | _ => decide

/-- The words that the message starts with. -/
def lead : RefusalKind → String
  | noInput => "run requires an input file"
  | unknownOption => "unknown option '"
  | missingValue option => option.name ++ " requires a value"
  | invalidValue option => "invalid " ++ option.name ++ " value '"
  | memoryTooLarge => "--memory value "
  | unreadable => "cannot read '"
  | bytecode => "invalid bytecode: "

/-- What stands behind them, and the refusal that it tells. -/
inductive Says : RefusalKind → Refusal → String → Prop
  | noInput : Says .noInput (.noInput .run) ("\n" ++ runUsage)
  | unknownOption (name : String) :
      Says .unknownOption (.unknownOption name) (name ++ ("'" ++ ("\n" ++ runUsage)))
  | missingValue (option : RunOption) :
      Says (.missingValue option) (.missingValue option.name) "\n"
  | invalidValue (option : RunOption) (value : String) :
      Says (.invalidValue option) (.invalidValue option.name value) (value ++ ("'" ++ "\n"))
  | memoryTooLarge (size : Nat) :
      Says .memoryTooLarge (.memoryTooLarge size)
        (toString size ++ (" exceeds the maximum of 1073741824 bytes" ++ "\n"))
  | unreadable (path : String) {e : FileError} {reason : String} : FileReason e reason →
      Says .unreadable (.unreadable path e) (path ++ ("': " ++ (reason ++ "\n")))
  | bytecode (e : DecodeError) : Says .bytecode (.bytecode e) (e.message ++ "\n")

end RefusalKind

variable {r r' : Refusal} {text rest rest' : String} {e e' : FileError} {reason reason' : String}
  {k : RefusalKind} {name : String}

/-! ## The text that is printed -/

theorem RunOption.name_mem (option : RunOption) : option.name ∈ runOptionNames := by
  cases option <;> decide

theorem exists_option_of_mem (h : name ∈ runOptionNames) :
    ∃ option : RunOption, option.name = name := by
  obtain rfl | rfl : name = "--max-steps" ∨ name = "--memory" := by simpa [runOptionNames] using h
  · exact ⟨.maxSteps, rfl⟩
  · exact ⟨.memory, rfl⟩

theorem FileReason.message_eq (h : FileReason e reason) : e.message = reason := by
  cases h <;> rfl

theorem text_of_hint? (h : r.hint? = some .run) : r.text = errorLine r.message ++ runUsage := by
  unfold Refusal.text
  rw [h]
  rfl

theorem text_of_no_hint (h : r.hint? = none) : r.text = errorLine r.message := by
  unfold Refusal.text
  rw [h]
  exact String.append_empty

/-- **What is printed** for a check that fails is the text of the refusal. -/
theorem RefusalText.text_eq (h : RefusalText r text) : r.text = text := by
  cases h with
  | noInput | unknownOption => exact text_of_hint? rfl
  | missingValue | invalidValue | bytecode => exact text_of_no_hint rfl
  | memoryTooLarge size =>
    have hlimit : " exceeds the maximum of 1073741824 bytes" =
        " exceeds the maximum of " ++ (toString memoryLimit ++ " bytes") := by decide
    rw [text_of_no_hint rfl, hlimit, ← String.append_assoc, ← String.append_assoc]
    rfl
  | unreadable path he =>
    rw [← he.message_eq]
    exact text_of_no_hint rfl

/-! ## The refusal that a text tells -/

/-- **The texts of different checks** start differently. -/
theorem RefusalKind.lead_prefixFree (k k' : RefusalKind) (h : k.lead.toList <+: k'.lead.toList) :
    k = k' := by
  have hall : ∀ k ∈ all, ∀ k' ∈ all, k.lead.toList <+: k'.lead.toList → k = k' := by
    decide +kernel
  exact hall k k.mem_all k' k'.mem_all h

/-- No reason ends like another. -/
theorem FileReason.eq_of_suffix (h : FileReason e reason) (h' : FileReason e' reason')
    (hs : reason.toList <:+ reason'.toList) : e = e' := by
  cases h <;> cases h' <;> first | rfl | exact absurd hs (by decide)

/-- **The reason at the end of a text** can be told, and so can the path before it. -/
theorem FileReason.append_inj {path path' : String} (h : FileReason e reason)
    (h' : FileReason e' reason')
    (heq : path ++ ("': " ++ (reason ++ "\n")) = path' ++ ("': " ++ (reason' ++ "\n"))) :
    path = path' ∧ e = e' := by
  -- The line feed goes first: the path may be anything, so the text is read from its end.
  simp only [← String.append_assoc] at heq
  have hends := (String.append_left_inj _).1 heq
  have hlist := congrArg String.toList hends
  simp only [String.toList_append] at hlist
  obtain rfl : e = e' := by
    obtain hle | hle := List.suffix_or_suffix_of_suffix ⟨_, hlist⟩ (List.suffix_append _ _)
    · exact h.eq_of_suffix h' hle
    · exact (h'.eq_of_suffix h hle).symm
  rw [← h.message_eq, ← h'.message_eq] at hends
  exact ⟨(String.append_left_inj _).1 ((String.append_left_inj _).1 hends), rfl⟩

/-- A message starts with the words of its kind. -/
theorem RefusalText.exists_says (h : RefusalText r text) :
    ∃ (k : RefusalKind) (rest : String), text = "error: " ++ (k.lead ++ rest) ∧ k.Says r rest := by
  cases h with
  | noInput =>
    refine ⟨.noInput, _, ?_, .noInput⟩
    simp only [errorLine, RefusalKind.lead, String.append_assoc]
  | unknownOption name =>
    refine ⟨.unknownOption, _, ?_, .unknownOption name⟩
    simp only [errorLine, RefusalKind.lead, String.append_assoc]
  | missingValue hname =>
    obtain ⟨option, rfl⟩ := exists_option_of_mem hname
    refine ⟨.missingValue option, _, ?_, .missingValue option⟩
    simp only [errorLine, RefusalKind.lead, String.append_assoc]
  | invalidValue value hname =>
    obtain ⟨option, rfl⟩ := exists_option_of_mem hname
    refine ⟨.invalidValue option, _, ?_, .invalidValue option value⟩
    simp only [errorLine, RefusalKind.lead, String.append_assoc]
  | memoryTooLarge size =>
    refine ⟨.memoryTooLarge, _, ?_, .memoryTooLarge size⟩
    simp only [errorLine, RefusalKind.lead, String.append_assoc]
  | unreadable path he =>
    refine ⟨.unreadable, _, ?_, .unreadable path he⟩
    simp only [errorLine, RefusalKind.lead, String.append_assoc]
  | bytecode e =>
    refine ⟨.bytecode, _, ?_, .bytecode e⟩
    simp only [errorLine, RefusalKind.lead, String.append_assoc]

/-- **Refusals of one kind** are told by what stands behind its words. -/
theorem RefusalKind.Says.inj (h : k.Says r rest) (h' : k.Says r' rest) : r = r' := by
  generalize hrest : rest = rest' at h'
  cases h with
  | noInput =>
    cases h'
    rfl
  | missingValue option =>
    cases h'
    rfl
  | unknownOption name =>
    cases h' with
    | unknownOption name' => rw [(String.append_left_inj _).1 hrest]
  | invalidValue option value =>
    cases h' with
    | invalidValue _ value' => rw [(String.append_left_inj _).1 hrest]
  | memoryTooLarge size =>
    cases h' with
    | memoryTooLarge size' =>
      have hsize := congrArg String.toList ((String.append_left_inj _).1 hrest)
      rw [delimited_nat.injective hsize]
  | unreadable path he =>
    cases h' with
    | unreadable path' he' =>
      obtain ⟨rfl, rfl⟩ := he.append_inj he' hrest
      rfl
  | bytecode e =>
    cases h' with
    | bytecode e' =>
      have hmessage := (String.append_left_inj _).1 hrest
      rw [DecodeError.message_injective hmessage]

/-- **What is printed tells the refusal**: the check that failed and what failed it. -/
theorem RefusalText.inj (h : RefusalText r text) (h' : RefusalText r' text) : r = r' := by
  obtain ⟨k, rest, rfl, hsays⟩ := h.exists_says
  obtain ⟨k', rest', htext, hsays'⟩ := h'.exists_says
  have hmessage := congrArg String.toList ((String.append_right_inj _).1 htext)
  rw [String.toList_append, String.toList_append] at hmessage
  obtain rfl := eq_of_lead_append RefusalKind.lead_prefixFree hmessage
  obtain rfl := String.toList_inj.1 (List.append_cancel_left hmessage)
  exact hsays.inj hsays'

/-! ## Why a file cannot be read -/

/-- What can fail for one of these reasons only. -/
def HasReason {α : Type} (x : Except FileError α) : Prop :=
  ∀ e, x = .error e → ∃ reason, FileReason e reason

namespace HasReason

variable {α β : Type} {x : Except FileError α}

theorem ok (a : α) : HasReason (.ok a : Except FileError α) := by
  intro e he
  cases he

theorem error (h : FileReason e reason) : HasReason (.error e : Except FileError α) := by
  intro e' he
  cases he
  exact ⟨reason, h⟩

theorem bind {f : α → Except FileError β} (hx : HasReason x) (hf : ∀ a, HasReason (f a)) :
    HasReason (x >>= f) := by
  rcases x with e | a
  · obtain ⟨reason, h⟩ := hx e rfl
    exact error h
  · exact hf a

theorem map {f : α → β} (hx : HasReason x) : HasReason (x.map f) := by
  rcases x with e | a
  · obtain ⟨reason, h⟩ := hx e rfl
    exact error h
  · exact ok (f a)

theorem lookUp (t : FileTree) (place : Place) : HasReason (t.lookUp place) := by
  unfold FileTree.lookUp
  split
  · exact error .nameTooLong
  · exact ok _

theorem enter (t : FileTree) (place : Place) : HasReason (t.enter place) := by
  refine (lookUp t place).bind fun found => ?_
  rcases found with _ | ⟨bytes⟩ | _
  · exact error .notFound
  · exact error .notDirectory
  · exact ok place

theorem walk (t : FileTree) (place : Place) (names : List String) :
    HasReason (t.walk place names) := by
  unfold FileTree.walk
  induction names generalizing place with
  | nil => exact ok place
  | cons name names ih =>
    rw [List.foldlM_cons]
    exact (enter t _).bind ih

theorem locate (t : FileTree) (path : String) : HasReason (t.locate path) := by
  unfold FileTree.locate
  split
  · exact error .notFound
  split
  · exact error .nameTooLong
  split
  · exact ok _
  · exact (walk t _ _).map

/-- **There are no other reasons** why a file of a tree cannot be read. -/
theorem read (t : FileTree) (path : String) : HasReason (t.read path) := by
  refine (locate t path).bind fun place => (lookUp t place).bind fun found => ?_
  rcases found with _ | ⟨bytes⟩ | _
  · exact error .notFound
  · show HasReason (if endsInSlash path then _ else _)
    split
    · exact error .notDirectory
    · exact ok bytes
  · exact error .isDirectory

end HasReason

end StackVM.CommandLine
