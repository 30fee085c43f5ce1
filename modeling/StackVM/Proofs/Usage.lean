import StackVM.Proofs.AssembleCommand
import StackVM.Proofs.RunCommand

/-!
# The usage of the commands

`FollowsUsage` says which arguments the usage of a command allows, and `UsageFault` what is wrong
with others: each command finds a fault in its own way, but all of them end in a refusal before any
file is read. `assemble` and `run` find one in exactly the arguments that do not follow their usage
(`followsUsage_or_usageFault`, `UsageFault.not_followsUsage`).

`disassemble` does not. It takes its input from the first argument and never looks at the others
(`invoke_disassemble_cons`), so that stray arguments go unnoticed there.
-/

set_option autoImplicit false

namespace StackVM.CommandLine

/-- The arguments that the usage of a command allows. -/
inductive FollowsUsage : Command → List String → Prop
  | assemble (input : String) : FollowsUsage .assemble [input]
  | assembleTo (input output : String) : FollowsUsage .assemble [input, "-o", output]
  | disassemble (input : String) : FollowsUsage .disassemble [input]
  | run {arguments : List String} {pairs : List (RunOption × Nat)} (input : String) :
      IsOptionList arguments pairs → FollowsUsage .run (input :: arguments)

/-- What is wrong with the arguments of a command, found without a look at any file. -/
inductive UsageFault : Command → List String → Refusal → Prop
  | noInput (command : Command) : UsageFault command [] (.noInput command)
  | request {input : String} {arguments : List String} {r : Refusal} :
      RequestFault (input :: arguments) r → UsageFault .assemble (input :: arguments) r
  | option {arguments : List String} {r : Refusal} (input : String) :
      OptionFault arguments r → UsageFault .run (input :: arguments) r

variable {t : FileTree} {command : Command} {input : String} {arguments : List String}
  {request : AssembleRequest} {r : Refusal}

/-! ## Arguments -/

theorem IsRequest.followsUsage (h : IsRequest arguments request) :
    FollowsUsage .assemble arguments := by
  cases h with
  | koa stem => exact .assemble _
  | other => exact .assemble _
  | given input output => exact .assembleTo input output

theorem FollowsUsage.exists_isRequest (h : FollowsUsage .assemble arguments) :
    ∃ request, IsRequest arguments request := by
  cases h with
  | assemble input => exact ⟨_, AssembleRequest.isRequest_defaultOutput input⟩
  | assembleTo input output => exact ⟨_, .given input output⟩

/-- **Arguments follow the usage or have a fault**, if there is none for `disassemble` to pass
over. -/
theorem followsUsage_or_usageFault (h : command = .disassemble → arguments.length ≤ 1) :
    FollowsUsage command arguments ∨ ∃ r, UsageFault command arguments r := by
  rcases arguments with _ | ⟨input, arguments⟩
  · exact .inr ⟨_, .noInput command⟩
  cases command with
  | assemble =>
    rcases hrequest : AssembleRequest.parse (input :: arguments) with r | request
    · exact .inr ⟨r, .request (AssembleRequest.parse_eq_error_iff.1 hrequest)⟩
    · exact .inl (AssembleRequest.parse_eq_ok_iff.1 hrequest).followsUsage
  | disassemble =>
    have hnil : arguments = [] := by
      apply List.eq_nil_of_length_eq_zero
      have hlength := h rfl
      rw [List.length_cons] at hlength
      omega
    subst hnil
    exact .inl (.disassemble input)
  | run =>
    rcases hoptions : RunOptions.parse arguments with r | options
    · exact .inr ⟨r, .option input (RunOptions.parse_eq_error_iff.1 hoptions)⟩
    · obtain ⟨pairs, hpairs, -⟩ := RunOptions.parse_eq_ok_iff.1 hoptions
      exact .inl (.run input hpairs)

/-- **What follows the usage has no fault.** -/
theorem UsageFault.not_followsUsage (h : UsageFault command arguments r) :
    ¬ FollowsUsage command arguments := by
  intro hfollows
  cases h with
  | noInput => cases hfollows
  | request hfault =>
    obtain ⟨request, hrequest⟩ := hfollows.exists_isRequest
    rw [← AssembleRequest.parse_eq_ok_iff, AssembleRequest.parse_eq_error_iff.2 hfault] at hrequest
    cases hrequest
  | option input hfault =>
    cases hfollows with
    | run _ hpairs =>
      have hoptions := parse_of_isOptionList hpairs
      rw [RunOptions.parse_eq_error_iff.2 hfault] at hoptions
      cases hoptions

/-! ## Commands -/

/-- **A fault in the arguments is all that is reported**, whatever the files are. -/
theorem UsageFault.invoke_eq (h : UsageFault command arguments r) :
    t.invoke (command.name :: arguments) = ({ code := 1, stdout := "", stderr := r.text }, t) := by
  cases h with
  | noInput =>
    cases command with
    | assemble => exact (AssembleFails.parsing .noInput).invoke_eq
    | disassemble => exact run_settle_error rfl
    | run => exact Rejects.noInput.invoke_eq
  | request hfault => exact (AssembleFails.parsing hfault).invoke_eq
  | option input hfault => exact (Rejects.options hfault).invoke_eq

/-- **Only the first argument of `disassemble`** has a meaning. -/
theorem invoke_disassemble_cons (t : FileTree) (input : String) (arguments : List String) :
    t.invoke ("disassemble" :: input :: arguments) = t.invoke ["disassemble", input] := rfl

/-- **`disassemble` changes no file.** -/
theorem invoke_disassemble_snd (t : FileTree) (input : String) (arguments : List String) :
    (t.invoke ("disassemble" :: input :: arguments)).2 = t := by
  rcases hread : t.read input with e | bytes
  · rw [invoke_disassemble_unreadable hread]
  rcases hp : Program.decode bytes with e | p
  · rw [invoke_disassemble_bytecode hread hp]
  · rw [invoke_disassemble hread hp]

/-- **Stray arguments are usage errors** of `assemble` and of `run`: whatever the files are, what
does not follow the usage is refused, nothing is printed to the standard output, and no file is
changed. What follows the usage is never refused so. `disassemble` has to be given an input, but
with any arguments behind it does the same as without them, and changes no file either. -/
theorem invoke_usage_exact (t : FileTree) :
    (∀ command arguments, ¬ FollowsUsage command arguments →
      (command = .disassemble → arguments.length ≤ 1) →
      ∃ r, UsageFault command arguments r ∧
        t.invoke (command.name :: arguments) =
          ({ code := 1, stdout := "", stderr := r.text }, t)) ∧
    (∀ command arguments r, FollowsUsage command arguments → ¬ UsageFault command arguments r) ∧
    ∀ input arguments,
      t.invoke ("disassemble" :: input :: arguments) = t.invoke ["disassemble", input] ∧
      (t.invoke ("disassemble" :: input :: arguments)).2 = t := by
  refine ⟨fun command arguments hstray h => ?_, fun command arguments r hfollows hfault => ?_,
    fun input arguments =>
      ⟨invoke_disassemble_cons t input arguments, invoke_disassemble_snd t input arguments⟩⟩
  · obtain ⟨r, hfault⟩ := (followsUsage_or_usageFault h).resolve_left hstray
    exact ⟨r, hfault, hfault.invoke_eq⟩
  · exact hfault.not_followsUsage hfollows

/-- A program of one token in a file. -/
def oneProgram : FileTree := ⟨[(["a.koab"], .file [0x21])]⟩

theorem invoke_usage_exact_stray :
    (∃ r : Refusal, oneProgram.invoke ["assemble", "a.koab", "-o", "b.koab", "--force"] =
      ({ code := 1, stderr := r.text }, oneProgram)) ∧
    ∃ r : Refusal, oneProgram.invoke ["run", "a.koab", "--memory", "8", "b.koab"] =
      ({ code := 1, stderr := r.text }, oneProgram) := by
  obtain ⟨hstray, -⟩ := invoke_usage_exact oneProgram
  have hassemble : UsageFault .assemble ["a.koab", "-o", "b.koab", "--force"]
      (.unexpectedArgument "-o") := .request (.unexpected "a.koab" (by decide))
  have hoption : RunOptions.parse ["--memory", "8", "b.koab"] =
      .error (.unknownOption "b.koab") := by decide
  have hrun : UsageFault .run ["a.koab", "--memory", "8", "b.koab"] (.unknownOption "b.koab") :=
    .option "a.koab" (RunOptions.parse_eq_error_iff.1 hoption)
  obtain ⟨r, -, hr⟩ := hstray .assemble _ hassemble.not_followsUsage (by decide)
  obtain ⟨r', -, hr'⟩ := hstray .run _ hrun.not_followsUsage (by decide)
  exact ⟨⟨r, hr⟩, r', hr'⟩

/-- **An argument behind the input of `disassemble`** does not follow the usage and is no error. -/
theorem disassemble_stray_argument :
    ¬ FollowsUsage .disassemble ["a.koab", "b.koab"] ∧
      oneProgram.invoke ["disassemble", "a.koab", "b.koab"] =
        ({ code := 0, stdout := "POP\n" }, oneProgram) := by
  have hread : oneProgram.read "a.koab" = .ok [0x21] := by decide
  have hp : Program.decode [0x21] = .ok [.op .pop] := by decide
  refine ⟨fun h => ?_, invoke_disassemble hread hp ["b.koab"]⟩
  cases h

end StackVM.CommandLine
