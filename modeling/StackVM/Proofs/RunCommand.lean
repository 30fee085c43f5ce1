import StackVM.Proofs.Commands
import StackVM.Proofs.Exec
import StackVM.Proofs.OptionPairs
import StackVM.Proofs.RefusalText

/-!
# Running a program from a file

`run` checks the input path, the options, the size of the memory, the file and the byte stream, in
this order. Either all of them pass, and there is a program to run (`Admits`), or the first that
fails is what it refuses (`Rejects`). In both cases no file is changed, and the report is one of
three: `RunEnds` says which.

The parts: `Admits.invoke_eq` and `Rejects.invoke_eq` say what is reported, `admits_or_rejects` that
there is no other case, `Rejects.exists_refusalText` that each check has its text, and `result_run`
that the size of the memory does not matter to the run.
-/

set_option autoImplicit false

namespace StackVM.CommandLine

/-- The size of the memory that options ask for, in bytes. -/
def requestedMemory (pairs : List (RunOption × Nat)) : Nat := (lastCount .memory pairs).getD 4096

/-- Arguments of `run` that pass all checks, with the program, the step limit and the size of the
memory that it is run with. -/
inductive Admits (t : FileTree) : List String → Program → Option Nat → Nat → Prop
  | intro {input : String} {arguments : List String} {pairs : List (RunOption × Nat)}
      {bytes : List UInt8} {p : Program} : IsOptionList arguments pairs →
      requestedMemory pairs ≤ 0x40000000 → t.read input = .ok bytes → Program.decode bytes = .ok p →
      Admits t (input :: arguments) p (lastCount .maxSteps pairs) (requestedMemory pairs)

/-- Arguments of `run` that fail a check, and the refusal for the first that they fail. -/
inductive Rejects (t : FileTree) : List String → Refusal → Prop
  | noInput : Rejects t [] (.noInput .run)
  | options {input : String} {arguments : List String} {r : Refusal} :
      OptionFault arguments r → Rejects t (input :: arguments) r
  | memory {input : String} {arguments : List String} {pairs : List (RunOption × Nat)} :
      IsOptionList arguments pairs → 0x40000000 < requestedMemory pairs →
      Rejects t (input :: arguments) (.memoryTooLarge (requestedMemory pairs))
  | reading {input : String} {arguments : List String} {pairs : List (RunOption × Nat)}
      {e : FileError} : IsOptionList arguments pairs → requestedMemory pairs ≤ 0x40000000 →
      t.read input = .error e → Rejects t (input :: arguments) (.unreadable input e)
  | decoding {input : String} {arguments : List String} {pairs : List (RunOption × Nat)}
      {bytes : List UInt8} {e : DecodeError} : IsOptionList arguments pairs →
      requestedMemory pairs ≤ 0x40000000 → t.read input = .ok bytes →
      Program.decode bytes = .error e → Rejects t (input :: arguments) (.bytecode e)

/-- What `run` reports: the stack of a run that succeeds, the error and the stack of a run that
fails, or the text of the refusal. -/
inductive RunEnds (t : FileTree) : List String → Report → Prop
  | succeeded {arguments : List String} {p : Program} {limit : Option Nat} {size : Nat}
      {s : Stack} : Admits t arguments p limit size →
      (p.run (.zeroed size) {} limit).result = .ok s →
      RunEnds t arguments { code := 0, stdout := s.text ++ "\n", stderr := "" }
  | failed {arguments : List String} {p : Program} {limit : Option Nat} {size : Nat}
      {f : Failure} : Admits t arguments p limit size →
      (p.run (.zeroed size) {} limit).result = .error f →
      RunEnds t arguments
        { code := 3
          stdout := ""
          stderr := s!"runtime error: {f.error.message}\nstack: {f.stack.text}\n" }
  | refused {arguments : List String} {r : Refusal} {text : String} : Rejects t arguments r →
      RefusalText r text → RunEnds t arguments { code := 1, stdout := "", stderr := text }

variable {t t' : FileTree} {arguments : List String} {pairs : List (RunOption × Nat)} {p : Program}
  {limit : Option Nat} {size : Nat} {r : Refusal} {report : Report}

/-! ## The checks -/

theorem parse_of_isOptionList (h : IsOptionList arguments pairs) :
    RunOptions.parse arguments = .ok ⟨lastCount .maxSteps pairs, lastCount .memory pairs⟩ :=
  RunOptions.parse_eq_ok_iff.2 ⟨pairs, h, rfl⟩

theorem memorySize_eq_ok (h : requestedMemory pairs ≤ 0x40000000) :
    (⟨limit, lastCount .memory pairs⟩ : RunOptions).memorySize = .ok (requestedMemory pairs) :=
  if_pos h

theorem memorySize_eq_error (h : 0x40000000 < requestedMemory pairs) :
    (⟨limit, lastCount .memory pairs⟩ : RunOptions).memorySize =
      .error (.memoryTooLarge (requestedMemory pairs)) :=
  if_neg (Nat.not_le.2 h)

/-- Once the options have passed, all depends on the program in the file. -/
theorem run_of_isOptionList {input : String} (hpairs : IsOptionList arguments pairs)
    (hsize : requestedMemory pairs ≤ 0x40000000) :
    (run (input :: arguments) : OnFiles Report).run.run t =
      (do
        let p ← readProgram input
        let size := requestedMemory pairs
        return .ofRun (p.run (.zeroed size) {} (lastCount .maxSteps pairs)).result
        : OnFiles Report).run.run t := by
  rw [run, parse_of_isOptionList hpairs, run_bind_ok (run_ofExcept _), memorySize_eq_ok hsize,
    run_bind_ok (run_ofExcept _)]

theorem Admits.invoke_eq (h : Admits t arguments p limit size) :
    t.invoke ("run" :: arguments) = (.ofRun (p.run (.zeroed size) {} limit).result, t) := by
  obtain ⟨hpairs, hsize, hread, hp⟩ := h
  refine run_settle_ok ?_
  rw [run_of_isOptionList hpairs hsize, run_bind_ok (run_readProgram_ok hread hp)]
  rfl

theorem Rejects.invoke_eq (h : Rejects t arguments r) :
    t.invoke ("run" :: arguments) = (.ofRefusal r, t) := by
  refine run_settle_error ?_
  cases h with
  | noInput => rfl
  | options hfault =>
    rw [run, RunOptions.parse_eq_error_iff.2 hfault, run_bind_error (run_ofExcept _)]
  | memory hpairs hsize =>
    rw [run, parse_of_isOptionList hpairs, run_bind_ok (run_ofExcept _), memorySize_eq_error hsize,
      run_bind_error (run_ofExcept _)]
  | reading hpairs hsize hread =>
    rw [run_of_isOptionList hpairs hsize, run_bind_error (run_readProgram_unreadable hread)]
  | decoding hpairs hsize hread he =>
    rw [run_of_isOptionList hpairs hsize, run_bind_error (run_readProgram_bytecode hread he)]

/-- **All checks pass or one is the first to fail.** -/
theorem admits_or_rejects (t : FileTree) (arguments : List String) :
    (∃ p limit size, Admits t arguments p limit size) ∨ ∃ r, Rejects t arguments r := by
  rcases arguments with _ | ⟨input, arguments⟩
  · exact .inr ⟨_, .noInput⟩
  rcases hoptions : RunOptions.parse arguments with r | options
  · exact .inr ⟨r, .options (RunOptions.parse_eq_error_iff.1 hoptions)⟩
  obtain ⟨pairs, hpairs, rfl⟩ := RunOptions.parse_eq_ok_iff.1 hoptions
  rcases Nat.lt_or_ge 0x40000000 (requestedMemory pairs) with hsize | hsize
  · exact .inr ⟨_, .memory hpairs hsize⟩
  rcases hread : t.read input with e | bytes
  · exact .inr ⟨_, .reading hpairs hsize hread⟩
  rcases hp : Program.decode bytes with e | p
  · exact .inr ⟨_, .decoding hpairs hsize hread hp⟩
  · exact .inl ⟨p, _, _, .intro hpairs hsize hread hp⟩

/-! ## Reports -/

theorem OptionFault.exists_refusalText (h : OptionFault arguments r) :
    ∃ text, RefusalText r text := by
  induction h with
  | unknown => exact ⟨_, .unknownOption _⟩
  | missing option => exact ⟨_, .missingValue option.name_mem⟩
  | invalid option => exact ⟨_, .invalidValue _ option.name_mem⟩
  | later _ _ _ ih => exact ih

theorem Rejects.exists_refusalText (h : Rejects t arguments r) : ∃ text, RefusalText r text := by
  cases h with
  | noInput => exact ⟨_, .noInput⟩
  | options hfault => exact hfault.exists_refusalText
  | memory => exact ⟨_, .memoryTooLarge _⟩
  | reading _ _ hread =>
    obtain ⟨reason, hreason⟩ := HasReason.read t _ _ hread
    exact ⟨_, .unreadable _ hreason⟩
  | decoding => exact ⟨_, .bytecode _⟩

theorem RunEnds.invoke_eq (h : RunEnds t arguments report) :
    t.invoke ("run" :: arguments) = (report, t) := by
  cases h with
  | succeeded hadmits hs => rw [hadmits.invoke_eq, hs, Report.ofRun]
  | failed hadmits hf => rw [hadmits.invoke_eq, hf, Report.ofRun]
  | refused hr htext => rw [hr.invoke_eq, Report.ofRefusal, htext.text_eq]

theorem exists_runEnds (t : FileTree) (arguments : List String) :
    ∃ report, RunEnds t arguments report := by
  obtain ⟨p, limit, size, hadmits⟩ | ⟨r, hr⟩ := admits_or_rejects t arguments
  · rcases hresult : (p.run (.zeroed size) {} limit).result with f | s
    · exact ⟨_, .failed hadmits hresult⟩
    · exact ⟨_, .succeeded hadmits hresult⟩
  · obtain ⟨text, htext⟩ := hr.exists_refusalText
    exact ⟨_, .refused hr htext⟩

/-- **The report of a refusal** tells which check failed, whatever the files and the arguments. -/
theorem Rejects.eq_of_report {arguments' : List String} {r' : Refusal} (h : Rejects t arguments r)
    (h' : Rejects t' arguments' r')
    (heq : (t.invoke ("run" :: arguments)).1 = (t'.invoke ("run" :: arguments')).1) : r = r' := by
  obtain ⟨text, htext⟩ := h.exists_refusalText
  obtain ⟨text', htext'⟩ := h'.exists_refusalText
  rw [h.invoke_eq, h'.invoke_eq, Report.ofRefusal, Report.ofRefusal, htext.text_eq,
    htext'.text_eq] at heq
  obtain rfl := (Report.mk.inj heq).2.2
  exact htext.inj htext'

/-- **A run does not depend on the memory** that it is given. -/
theorem result_run (p : Program) (memory memory' : Memory) (call : Call) (limit : Option Nat) :
    (p.run memory call limit).result = (p.run memory' call limit).result :=
  ((Program.exec_runOn p .empty memory' call limit).runOn memory call).1

theorem invoke_run_memory {input : String} {arguments' : List String}
    {pairs' : List (RunOption × Nat)} (hpairs : IsOptionList arguments pairs)
    (hpairs' : IsOptionList arguments' pairs')
    (hlimit : lastCount .maxSteps pairs = lastCount .maxSteps pairs')
    (hsize : requestedMemory pairs ≤ 0x40000000) (hsize' : requestedMemory pairs' ≤ 0x40000000) :
    t.invoke ("run" :: input :: arguments) = t.invoke ("run" :: input :: arguments') := by
  rcases hread : t.read input with e | bytes
  · rw [(Rejects.reading hpairs hsize hread).invoke_eq,
      (Rejects.reading hpairs' hsize' hread).invoke_eq]
  rcases hp : Program.decode bytes with e | p
  · rw [(Rejects.decoding hpairs hsize hread hp).invoke_eq,
      (Rejects.decoding hpairs' hsize' hread hp).invoke_eq]
  · rw [(Admits.intro hpairs hsize hread hp).invoke_eq,
      (Admits.intro hpairs' hsize' hread hp).invoke_eq, hlimit,
      result_run p (.zeroed (requestedMemory pairs)) (.zeroed (requestedMemory pairs'))]

/-- **What is reported for a program** depends on the options and not on where its bytes are. -/
theorem exists_report_of_decode {bytes : List UInt8} (hp : Program.decode bytes = .ok p)
    (arguments : List String) :
    ∃ report, ∀ (t : FileTree) (input : String), t.read input = .ok bytes →
      t.invoke ("run" :: input :: arguments) = (report, t) := by
  rcases hoptions : RunOptions.parse arguments with r | options
  · have hfault := RunOptions.parse_eq_error_iff.1 hoptions
    exact ⟨.ofRefusal r, fun t input _ => (Rejects.options hfault).invoke_eq⟩
  obtain ⟨pairs, hpairs, rfl⟩ := RunOptions.parse_eq_ok_iff.1 hoptions
  rcases Nat.lt_or_ge 0x40000000 (requestedMemory pairs) with hsize | hsize
  · exact ⟨.ofRefusal _, fun t input _ => (Rejects.memory hpairs hsize).invoke_eq⟩
  · exact ⟨.ofRun _, fun t input hread => (Admits.intro hpairs hsize hread hp).invoke_eq⟩

/-- **Running a program from a file**, for all arguments and all files: no file is changed, and the
report is that of the run or of the first check that fails. Of the options only the last step limit
has a bearing on it, as long as the size of the memory is within the limit. A report of a check that
fails is the report of no other. -/
theorem invoke_run_eq_iff (t : FileTree) :
    (∀ arguments report t', t.invoke ("run" :: arguments) = (report, t') ↔
      t' = t ∧ RunEnds t arguments report) ∧
    (∀ input arguments arguments' pairs pairs', IsOptionList arguments pairs →
      IsOptionList arguments' pairs' → lastCount .maxSteps pairs = lastCount .maxSteps pairs' →
      requestedMemory pairs ≤ 0x40000000 → requestedMemory pairs' ≤ 0x40000000 →
      t.invoke ("run" :: input :: arguments) = t.invoke ("run" :: input :: arguments')) ∧
    ∀ arguments t' arguments' r r', Rejects t arguments r → Rejects t' arguments' r' →
      (t.invoke ("run" :: arguments)).1 = (t'.invoke ("run" :: arguments')).1 → r = r' := by
  refine ⟨fun arguments report t' => ⟨fun h => ?_, ?_⟩, fun _ _ _ _ _ => invoke_run_memory,
    fun _ _ _ _ _ => Rejects.eq_of_report⟩
  · obtain ⟨report', hends⟩ := exists_runEnds t arguments
    obtain ⟨rfl, rfl⟩ := Prod.mk.inj (hends.invoke_eq.symm.trans h)
    exact ⟨rfl, hends⟩
  · rintro ⟨rfl, hends⟩
    exact hends.invoke_eq

/-- A program in a file that leaves the word 7. -/
def sevenFile : FileTree := ⟨[(["seven.koab"], .file [0x22, 0, 0, 0, 7])]⟩

theorem invoke_run_eq_iff_sevenFile :
    sevenFile.invoke ["run", "seven.koab", "--memory", "8"] =
      ({ code := 0, stdout := "[7]\n", stderr := "" }, sevenFile) ∧
    sevenFile.invoke ["run", "seven.koab", "--memory", "8"] =
      sevenFile.invoke ["run", "seven.koab", "--memory", "0", "--memory", "+64"] ∧
    sevenFile.invoke ["run", "seven.koab", "--memory", "1073741825"] =
      ({ code := 1
         stdout := ""
         stderr := "error: --memory value 1073741825 exceeds the maximum of 1073741824 bytes\n" },
        sevenFile) ∧
    sevenFile.invoke ["run", "eight.koab"] =
      ({ code := 1
         stdout := ""
         stderr := "error: cannot read 'eight.koab': No such file or directory (os error 2)\n" },
        sevenFile) ∧
    ∀ r, Rejects sevenFile ["eight.koab"] r → r = .unreadable "eight.koab" .notFound := by
  obtain ⟨hreport, hmemory, hrefusal⟩ := invoke_run_eq_iff sevenFile
  have hcount : ∀ {value : String} {n : Nat}, count? value = some n → IsCount value n :=
    count?_eq_some_iff.1
  have hsmall : IsOptionList ["--memory", "8"] [(.memory, 8)] :=
    .cons .memory (hcount (by decide)) .nil
  have hlast : IsOptionList ["--memory", "0", "--memory", "+64"] [(.memory, 0), (.memory, 64)] :=
    .cons .memory (hcount (by decide)) (.cons .memory (hcount (by decide)) .nil)
  have hlarge : IsOptionList ["--memory", "1073741825"] [(.memory, 1073741825)] :=
    .cons .memory (hcount (by decide)) .nil
  have hread : sevenFile.read "seven.koab" = .ok [0x22, 0, 0, 0, 7] := by decide
  have hadmits : Admits sevenFile ["seven.koab", "--memory", "8"] (Token.push 7) none 8 :=
    .intro hsmall (by decide) hread (by decide)
  have hmissing : Rejects sevenFile ["eight.koab"] (.unreadable "eight.koab" .notFound) :=
    .reading .nil (by decide) (by decide)
  refine ⟨(hreport _ _ _).2 ⟨rfl, ?_⟩, hmemory _ _ _ _ _ hsmall hlast rfl (by decide) (by decide),
    (hreport _ _ _).2 ⟨rfl, ?_⟩, (hreport _ _ _).2 ⟨rfl, ?_⟩,
    fun r hr => hrefusal _ _ _ _ _ hr hmissing rfl⟩
  · have hresult : (Program.run (Token.push 7) (.zeroed 8) {} none).result = .ok (.ofList [7]) := by
      cbv
    have htext : Stack.text (.ofList [7]) ++ "\n" = "[7]\n" := by decide
    rw [← htext]
    exact .succeeded hadmits hresult
  · have htext : errorLine ("--memory value " ++ toString 1073741825 ++
        " exceeds the maximum of 1073741824 bytes") =
        "error: --memory value 1073741825 exceeds the maximum of 1073741824 bytes\n" := by decide
    rw [← htext]
    exact .refused (.memory hlarge (by decide)) (.memoryTooLarge _)
  · have htext : errorLine ("cannot read '" ++ "eight.koab" ++ "': " ++
        "No such file or directory (os error 2)") =
        "error: cannot read 'eight.koab': No such file or directory (os error 2)\n" := by decide
    rw [← htext]
    exact .refused hmissing (.unreadable _ .notFound)

end StackVM.CommandLine
