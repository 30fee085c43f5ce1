import StackVM.Proofs.FileRoundTrip
import StackVM.Proofs.PathSuffix

/-!
# Assembling a file

`assemble` checks the arguments, reads the input, takes its bytes for text, assembles the text and
writes the byte stream, in this order. Either it does all of that (`Assembles`), or the first step
that fails is what it refuses (`AssembleFails`) and no file is changed: what may fail last is the
only step that changes anything. `invoke_assemble_exact` says so for all arguments and files.

* `parse_eq_ok_iff`, `parse_eq_error_iff`: the arguments that name an input and an output.
* `Assembles.invoke_eq`, `AssembleFails.invoke_eq`: what is reported, and which files are left.
* `assembles_or_fails`: there is no other case.
* `Assembles.read_input`: an output path that is not given leads to another place than the input.
-/

set_option autoImplicit false

namespace StackVM.CommandLine

/-- The arguments of `assemble`, with the paths of input and output. An output path that is not
given is the input path with `koa` as its extension turned into `koab`, or with that added. -/
inductive IsRequest : List String → AssembleRequest → Prop
  | koa (stem : String) : IsRequest [stem ++ ".koa"] ⟨stem ++ ".koa", stem ++ ".koab"⟩
  | other {input : String} : (∀ stem, input ≠ stem ++ ".koa") →
      IsRequest [input] ⟨input, input ++ ".koab"⟩
  | given (input output : String) : IsRequest [input, "-o", output] ⟨input, output⟩

/-- What is wrong with other arguments. -/
inductive RequestFault : List String → Refusal → Prop
  | noInput : RequestFault [] (.noInput .assemble)
  | missing (input : String) : RequestFault [input, "-o"] (.missingValue "-o")
  | unexpected {argument : String} {arguments : List String} (input : String) :
      (argument = "-o" → 2 ≤ arguments.length) →
      RequestFault (input :: argument :: arguments) (.unexpectedArgument argument)

/-- Arguments for which `assemble` does all that it has to: the text of the input is a program, and
its byte stream is written to the output. -/
inductive Assembles (t : FileTree) : List String → AssembleRequest → Program → FileTree → Prop
  | intro {arguments : List String} {request : AssembleRequest} {text : String} {p : Program}
      {t' : FileTree} : IsRequest arguments request → t.read request.input = .ok (textBytes text) →
      Assembly.assemble text = .ok p → t.write request.output p.encode = .ok t' →
      Assembles t arguments request p t'

/-- Arguments for which a step of `assemble` fails, and the refusal for the first that does. -/
inductive AssembleFails (t : FileTree) : List String → Refusal → Prop
  | parsing {arguments : List String} {r : Refusal} : RequestFault arguments r →
      AssembleFails t arguments r
  | reading {arguments : List String} {request : AssembleRequest} {e : FileError} :
      IsRequest arguments request → t.read request.input = .error e →
      AssembleFails t arguments (.unreadable request.input e)
  | spelling {arguments : List String} {request : AssembleRequest} {bytes : List UInt8} :
      IsRequest arguments request → t.read request.input = .ok bytes →
      (∀ text, bytes ≠ textBytes text) →
      AssembleFails t arguments (.unreadable request.input .notText)
  | assembling {arguments : List String} {request : AssembleRequest} {text : String}
      {e : AssemblyError} : IsRequest arguments request →
      t.read request.input = .ok (textBytes text) → Assembly.assemble text = .error e →
      AssembleFails t arguments (.assembly e)
  | writing {arguments : List String} {request : AssembleRequest} {text : String} {p : Program}
      {e : FileError} : IsRequest arguments request →
      t.read request.input = .ok (textBytes text) → Assembly.assemble text = .ok p →
      t.write request.output p.encode = .error e →
      AssembleFails t arguments (.unwritable request.output e)

variable {t t' : FileTree} {input output text : String} {arguments : List String}
  {request : AssembleRequest} {bytes : List UInt8} {p : Program} {r : Refusal}

/-! ## Arguments -/

theorem isSuffixOf_iff_exists_append {suffix : String} :
    suffix.toList.isSuffixOf input.toList ↔ ∃ stem, input = stem ++ suffix := by
  rw [List.isSuffixOf_iff_suffix]
  constructor
  · intro h
    obtain ⟨stem, h⟩ := h
    refine ⟨String.ofList stem, String.toList_inj.1 ?_⟩
    rw [String.toList_append, String.toList_ofList, h]
  · intro h
    obtain ⟨stem, h⟩ := h
    rw [h, String.toList_append]
    exact List.suffix_append _ _

namespace AssembleRequest

theorem defaultOutput_koa (stem : String) : defaultOutput (stem ++ ".koa") = stem ++ ".koab" := by
  rw [defaultOutput, if_pos (isSuffixOf_iff_exists_append.2 ⟨stem, rfl⟩), String.append_assoc]
  rfl

theorem defaultOutput_other (h : ∀ stem, input ≠ stem ++ ".koa") :
    defaultOutput input = input ++ ".koab" := by
  rw [defaultOutput, if_neg]
  rw [isSuffixOf_iff_exists_append]
  rintro ⟨stem, hstem⟩
  exact h stem hstem

theorem isRequest_defaultOutput (input : String) :
    IsRequest [input] ⟨input, defaultOutput input⟩ := by
  by_cases h : ∃ stem, input = stem ++ ".koa"
  · obtain ⟨stem, rfl⟩ := h
    rw [defaultOutput_koa]
    exact .koa stem
  · have hother (stem : String) : input ≠ stem ++ ".koa" := fun heq => h ⟨stem, heq⟩
    rw [defaultOutput_other hother]
    exact .other hother

/-- **The arguments that are accepted.** -/
theorem parse_eq_ok_iff : parse arguments = .ok request ↔ IsRequest arguments request := by
  constructor
  · intro h
    unfold parse at h
    split at h
    · cases h
    · cases h
      exact isRequest_defaultOutput _
    · cases h
    · cases h
      exact .given _ _
    · cases h
  · intro h
    cases h with
    | koa stem => rw [parse, defaultOutput_koa]
    | other hother => rw [parse, defaultOutput_other hother]
    | given => rfl

/-- **Other arguments are refused.** -/
theorem parse_eq_error_iff : parse arguments = .error r ↔ RequestFault arguments r := by
  constructor
  · intro h
    unfold parse at h
    split at h
    · cases h
      exact .noInput
    · cases h
    · cases h
      exact .missing _
    · cases h
    · next input argument rest hmissing hgiven =>
      cases h
      refine .unexpected input fun hflag => ?_
      subst hflag
      rcases rest with _ | ⟨output, _ | ⟨extra, rest⟩⟩
      · exact absurd rfl (hmissing rfl)
      · exact absurd rfl (hgiven output rfl)
      · simp
  · intro h
    cases h with
    | noInput => rfl
    | missing => rfl
    | unexpected input hlength =>
      unfold parse
      split
      · next heq => cases heq
      · next heq => cases heq
      · next heq =>
        cases heq
        exact absurd (hlength rfl) (by simp)
      · next heq =>
        cases heq
        exact absurd (hlength rfl) (by simp)
      · next heq =>
        cases heq
        rfl

end AssembleRequest

/-! ## Text -/

/-- **The bytes that spell a text** are those that are read as it. -/
theorem decodeText_eq_ok_iff : decodeText bytes = .ok text ↔ bytes = textBytes text := by
  refine ⟨fun h => ?_, fun h => h ▸ decodeText_textBytes text⟩
  unfold decodeText at h
  split at h
  · next heq =>
    cases h
    unfold String.fromUTF8? at heq
    split at heq
    · cases heq
      rfl
    · cases heq
  · cases h

/-- Bytes that spell no text are refused as such. -/
theorem decodeText_of_ne (h : ∀ text, bytes ≠ textBytes text) :
    decodeText bytes = .error .notText := by
  unfold decodeText
  split
  · next text heq =>
    have hread : decodeText bytes = .ok text := by rw [decodeText, heq]
    exact absurd (decodeText_eq_ok_iff.1 hread) (h text)
  · rfl

/-! ## The steps -/

theorem Assembles.invoke_eq (h : Assembles t arguments request p t') :
    t.invoke ("assemble" :: arguments) =
      ({ code := 0
         stdout := ""
         stderr :=
           s!"assembled {p.length} tokens ({p.encode.length} bytes) -> {request.output}\n" },
        t') := by
  obtain ⟨hrequest, hread, hp, hwrite⟩ := h
  exact invoke_assemble (AssembleRequest.parse_eq_ok_iff.2 hrequest) hread
    (decodeText_textBytes _) hp hwrite

theorem AssembleFails.invoke_eq (h : AssembleFails t arguments r) :
    t.invoke ("assemble" :: arguments) = (.ofRefusal r, t) := by
  refine run_settle_error ?_
  cases h with
  | parsing hfault =>
    rw [assemble, AssembleRequest.parse_eq_error_iff.2 hfault, run_bind_error (run_ofExcept _)]
  | reading hrequest hread =>
    rw [assemble, AssembleRequest.parse_eq_ok_iff.2 hrequest, run_bind_ok (run_ofExcept _),
      run_bind_error (run_readInput_error hread)]
  | spelling hrequest hread hspelling =>
    rw [assemble, AssembleRequest.parse_eq_ok_iff.2 hrequest, run_bind_ok (run_ofExcept _),
      run_bind_ok (run_readInput_ok hread),
      run_bind_error (run_mapError_error _ (decodeText_of_ne hspelling))]
  | @assembling request text e hrequest hread he =>
    rw [assemble, AssembleRequest.parse_eq_ok_iff.2 hrequest, run_bind_ok (run_ofExcept _),
      run_bind_ok (run_readInput_ok hread),
      run_bind_ok (run_mapError_ok _ (decodeText_textBytes text)),
      run_bind_error (run_mapError_error _ he)]
  | @writing request text p e hrequest hread hp hwrite =>
    rw [assemble, AssembleRequest.parse_eq_ok_iff.2 hrequest, run_bind_ok (run_ofExcept _),
      run_bind_ok (run_readInput_ok hread),
      run_bind_ok (run_mapError_ok _ (decodeText_textBytes text)),
      run_bind_ok (run_mapError_ok _ hp)]
    exact run_bind_ok (run_writeFile_error hwrite)

/-- **All steps are done or one is the first to fail.** -/
theorem assembles_or_fails (t : FileTree) (arguments : List String) :
    (∃ request p t', Assembles t arguments request p t') ∨ ∃ r, AssembleFails t arguments r := by
  rcases hrequest : AssembleRequest.parse arguments with r | request
  · exact .inr ⟨r, .parsing (AssembleRequest.parse_eq_error_iff.1 hrequest)⟩
  rw [AssembleRequest.parse_eq_ok_iff] at hrequest
  rcases hread : t.read request.input with e | bytes
  · exact .inr ⟨_, .reading hrequest hread⟩
  by_cases hspelling : ∃ text, bytes = textBytes text
  · obtain ⟨text, rfl⟩ := hspelling
    rcases hp : Assembly.assemble text with e | p
    · exact .inr ⟨_, .assembling hrequest hread hp⟩
    rcases hwrite : t.write request.output p.encode with e | t'
    · exact .inr ⟨_, .writing hrequest hread hp hwrite⟩
    · exact .inl ⟨request, p, t', .intro hrequest hread hp hwrite⟩
  · have hne : ∀ text, bytes ≠ textBytes text := fun text heq => hspelling ⟨text, heq⟩
    exact .inr ⟨_, .spelling hrequest hread hne⟩

/-! ## The output path -/

theorem IsRequest.exists_suffix (h : IsRequest [input] request) :
    request.input = input ∧ ∃ suffix, request.output = input ++ suffix ∧
      (suffix = "b" ∨ suffix = ".koab") := by
  cases h with
  | koa stem => exact ⟨rfl, "b", by rw [String.append_assoc]; rfl, .inl rfl⟩
  | other => exact ⟨rfl, ".koab", rfl, .inr rfl⟩

/-- What is added to the input path leads to another place. -/
theorem locate_output_ne {place : Place} (h : IsRequest [input] request)
    (hslash : endsInSlash input = false) (hl : t.locate input = .ok place) :
    t.locate request.output ≠ .ok place := by
  obtain ⟨-, suffix, hout, rfl | rfl⟩ := h.exists_suffix
  · rw [hout]
    exact FileTree.locate_append_ne hslash (by decide) (rfl : "b".toList.getLast? = some 'b')
      (by decide) hl
  · rw [hout]
    exact FileTree.locate_append_ne hslash (by decide) (rfl : ".koab".toList.getLast? = some 'b')
      (by decide) hl

theorem IsRequest.output_ne (h : IsRequest [input] request) : request.output ≠ input := by
  obtain ⟨-, suffix, hout, hsuffix⟩ := h.exists_suffix
  intro heq
  have hnil : suffix.toList = [] := by
    simpa using congrArg String.toList (hout.symm.trans heq)
  rcases hsuffix with rfl | rfl
  · cases hnil
  · cases hnil

/-- **The input is still there** if no output path is given. -/
theorem Assembles.read_input (h : Assembles t [input] request p t') :
    t'.read input = t.read input := by
  obtain ⟨hrequest, hread, hp, hwrite⟩ := h
  rw [hrequest.exists_suffix.1] at hread
  obtain ⟨place, hl, hslash, -⟩ := FileTree.read_eq_ok_iff.1 hread
  obtain ⟨heq, -⟩ | ⟨-, hkept⟩ := FileTree.read_write hwrite hread
  · exact absurd (heq.symm.trans hl) (locate_output_ne hrequest hslash hl)
  · rw [hkept, hread]

/-- **`assemble` does all or nothing.** It succeeds exactly if its arguments name an input and an
output, the input is a text that is accepted and the output can be written. Then the output is the
byte stream of the program, and nothing else among the files has changed. Otherwise nothing at all
has changed, whatever was at the output. An output path that is not given is never the input. -/
theorem invoke_assemble_exact (t : FileTree) :
    (∀ arguments, (t.invoke ("assemble" :: arguments)).1.code = 0 ↔
      ∃ request p t', Assembles t arguments request p t') ∧
    (∀ arguments request p t', Assembles t arguments request p t' →
      t.invoke ("assemble" :: arguments) =
        ({ code := 0
           stdout := ""
           stderr :=
             s!"assembled {p.length} tokens ({p.encode.length} bytes) -> {request.output}\n" },
          t') ∧
      t'.read request.output = .ok p.encode ∧
      ∃ place, t.locate request.output = .ok place ∧
        ∀ q, t'.find? q = if q = place then some (.file p.encode) else t.find? q) ∧
    (∀ arguments, (¬ ∃ request p t', Assembles t arguments request p t') →
      ∃ r, AssembleFails t arguments r ∧
        t.invoke ("assemble" :: arguments) = ({ code := 1, stdout := "", stderr := r.text }, t)) ∧
    ∀ input request, IsRequest [input] request → request.output ≠ input ∧
      ∀ p t', Assembles t [input] request p t' → t'.read input = t.read input := by
  refine ⟨fun arguments => ⟨fun hcode => ?_, ?_⟩, fun arguments request p t' h => ?_,
    fun arguments h => ?_, fun input request h => ⟨h.output_ne, fun p t' => Assembles.read_input⟩⟩
  · obtain h | ⟨r, hr⟩ := assembles_or_fails t arguments
    · exact h
    · rw [hr.invoke_eq] at hcode
      exact absurd hcode (by simp [Report.ofRefusal])
  · intro h
    obtain ⟨request, p, t', h⟩ := h
    rw [h.invoke_eq]
  · have hinvoke := h.invoke_eq
    obtain ⟨-, -, -, hwrite⟩ := h
    exact ⟨hinvoke, FileTree.read_of_write hwrite, FileTree.find?_of_write hwrite⟩
  · obtain ⟨r, hr⟩ := (assembles_or_fails t arguments).resolve_left h
    exact ⟨r, hr, hr.invoke_eq⟩

/-- Two texts of which only the first is a program, and an older file at its default output. -/
def twoTexts : FileTree :=
  ⟨[(["a.koa"], .file (textBytes "PUSH 42\nPOP")), (["b.koa"], .file (textBytes "POP\nPOPE")),
    (["a.koab"], .file [0])]⟩

theorem invoke_assemble_exact_older_output :
    (∃ t', twoTexts.invoke ["assemble", "a.koa"] =
        ({ code := 0, stderr := "assembled 3 tokens (6 bytes) -> a.koab\n" }, t') ∧
      t'.read "a.koab" = .ok [0x22, 0, 0, 0, 0x2A, 0x21] ∧
      t'.read "a.koa" = .ok (textBytes "PUSH 42\nPOP")) ∧
    ∃ stderr, twoTexts.invoke ["assemble", "b.koa", "-o", "a.koab"] =
      ({ code := 1, stderr := stderr }, twoTexts) := by
  obtain ⟨hcode, hdone, hkept, hinput⟩ := invoke_assemble_exact twoTexts
  have hrequest : IsRequest ["a.koa"] ⟨"a.koa", "a.koab"⟩ := .koa "a"
  have hread : twoTexts.read "a.koa" = .ok (textBytes "PUSH 42\nPOP") := by decide
  have hp : Assembly.assemble "PUSH 42\nPOP" = .ok (Token.push 42 ++ [.op .pop]) := by decide
  have h : Assembles twoTexts ["a.koa"] ⟨"a.koa", "a.koab"⟩ (Token.push 42 ++ [.op .pop]) _ :=
    .intro hrequest hread hp rfl
  obtain ⟨hinvoke, houtput, -⟩ := hdone _ _ _ _ h
  have hread' : twoTexts.read "b.koa" = .ok (textBytes "POP\nPOPE") := by decide
  have he : Assembly.assemble "POP\nPOPE" = .error ⟨2, .unknownOpcode "POPE"⟩ := by decide
  have hfails : ¬ ∃ request p t', Assembles twoTexts ["b.koa", "-o", "a.koab"] request p t' := by
    intro hassembles
    have hzero := (hcode _).2 hassembles
    rw [(AssembleFails.assembling (.given "b.koa" "a.koab") hread' he).invoke_eq] at hzero
    exact absurd hzero (by decide)
  obtain ⟨r, -, hr⟩ := hkept _ hfails
  refine ⟨⟨_, hinvoke, houtput, ?_⟩, r.text, hr⟩
  rw [← hread]
  exact (hinput _ _ hrequest).2 _ _ h

end StackVM.CommandLine
