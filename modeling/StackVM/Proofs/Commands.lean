import StackVM.CommandLine

/-!
# Commands on a tree of files

What the commands do in the monad of a `FileTree`. A step of a command goes on with the rest, from
the tree that it leaves (`run_bind_ok`), or is refused and ends the command (`run_bind_error`). Each
step has one lemma for each of its answers, and with these the reports of a command are put together
step by step (`invoke_disassemble`, `invoke_assemble`).
-/

set_option autoImplicit false

namespace StackVM.CommandLine

/-- What is done on a tree of files and may be refused. -/
abbrev OnFiles (α : Type) := ExceptT Refusal (StateM FileTree) α

/-- The report of the program on a tree of files, and the tree that it leaves. -/
def FileTree.invoke (t : FileTree) (arguments : List String) : Report × FileTree :=
  (CommandLine.invoke arguments : StateM FileTree Report).run t

variable {α β : Type} {command : OnFiles α} {next : α → OnFiles β} {a : α} {r : Refusal}
  {t t' : FileTree}

/-! ## Steps -/

theorem run_bind_ok (h : command.run.run t = (.ok a, t')) :
    (command >>= next).run.run t = (next a).run.run t' := by
  rw [ExceptT.run_bind, StateT.run_bind, h]
  rfl

theorem run_bind_error (h : command.run.run t = (.error r, t')) :
    (command >>= next).run.run t = (.error r, t') := by
  rw [ExceptT.run_bind, StateT.run_bind, h]
  rfl

theorem run_ofExcept (x : Except Refusal α) :
    (MonadExcept.ofExcept x : OnFiles α).run.run t = (x, t) := by
  cases x with
  | error r => rfl
  | ok a => rfl

/-- A check that passes, whatever its errors are refused as. -/
theorem run_mapError_ok {ε : Type} {x : Except ε α} (refuse : ε → Refusal) (h : x = .ok a) :
    (MonadExcept.ofExcept (x.mapError refuse) : OnFiles α).run.run t = (.ok a, t) := by
  rw [run_ofExcept, h]
  rfl

theorem run_mapError_error {ε : Type} {e : ε} {x : Except ε α} (refuse : ε → Refusal)
    (h : x = .error e) :
    (MonadExcept.ofExcept (x.mapError refuse) : OnFiles α).run.run t = (.error (refuse e), t) := by
  rw [run_ofExcept, h]
  rfl

theorem run_settle_ok {command : OnFiles Report} {report : Report}
    (h : command.run.run t = (.ok report, t')) : (settle command).run t = (report, t') := by
  rw [settle, StateT.run_bind, h]
  rfl

theorem run_settle_error {command : OnFiles Report}
    (h : command.run.run t = (.error r, t')) : (settle command).run t = (.ofRefusal r, t') := by
  rw [settle, StateT.run_bind, h]
  rfl

/-! ## Reading -/

variable {path : String} {bytes : List UInt8} {p : Program}

theorem run_readFile (t : FileTree) (path : String) :
    (ExceptT.lift (MonadFiles.readFile path) : OnFiles (Except FileError (List UInt8))).run.run t =
      (.ok (t.read path), t) := rfl

theorem run_readInput (t : FileTree) (path : String) :
    (readInput path : OnFiles (List UInt8)).run.run t =
      ((t.read path).mapError (.unreadable path), t) := by
  refine (run_bind_ok (run_readFile t path)).trans ?_
  rcases t.read path with e | bytes
  · rfl
  · rfl

theorem run_readInput_ok (h : t.read path = .ok bytes) :
    (readInput path : OnFiles (List UInt8)).run.run t = (.ok bytes, t) := by
  rw [run_readInput, h]
  rfl

theorem run_readInput_error {e : FileError} (h : t.read path = .error e) :
    (readInput path : OnFiles (List UInt8)).run.run t = (.error (.unreadable path e), t) := by
  rw [run_readInput, h]
  rfl

theorem run_readProgram_ok (h : t.read path = .ok bytes) (hp : Program.decode bytes = .ok p) :
    (readProgram path : OnFiles Program).run.run t = (.ok p, t) := by
  rw [readProgram, run_bind_ok (run_readInput_ok h)]
  exact run_mapError_ok _ hp

theorem run_readProgram_unreadable {e : FileError} (h : t.read path = .error e) :
    (readProgram path : OnFiles Program).run.run t = (.error (.unreadable path e), t) :=
  run_bind_error (run_readInput_error h)

theorem run_readProgram_bytecode {e : DecodeError} (h : t.read path = .ok bytes)
    (he : Program.decode bytes = .error e) :
    (readProgram path : OnFiles Program).run.run t = (.error (.bytecode e), t) := by
  rw [readProgram, run_bind_ok (run_readInput_ok h)]
  exact run_mapError_error _ he

/-! ## Writing -/

theorem run_writeFile_ok (h : t.write path bytes = .ok t') :
    (ExceptT.lift (MonadFiles.writeFile path bytes) : OnFiles (Except FileError Unit)).run.run t =
      (.ok (.ok ()), t') := by
  have hwrite : (MonadFiles.writeFile path bytes : StateM FileTree _).run t = (.ok (), t') := by
    simp only [MonadFiles.writeFile, StateT.run_bind, StateT.run_get, pure_bind, h]
    rfl
  rw [ExceptT.run_lift, StateT.run_map, hwrite]
  rfl

theorem run_writeFile_error {e : FileError} (h : t.write path bytes = .error e) :
    (ExceptT.lift (MonadFiles.writeFile path bytes) : OnFiles (Except FileError Unit)).run.run t =
      (.ok (.error e), t) := by
  have hwrite : (MonadFiles.writeFile path bytes : StateM FileTree _).run t = (.error e, t) := by
    simp only [MonadFiles.writeFile, StateT.run_bind, StateT.run_get, pure_bind, h]
    rfl
  rw [ExceptT.run_lift, StateT.run_map, hwrite]
  rfl

/-! ## Reports -/

/-- **A byte stream is listed**, whatever further arguments there are. -/
theorem invoke_disassemble (h : t.read path = .ok bytes) (hp : Program.decode bytes = .ok p)
    (arguments : List String) :
    t.invoke ("disassemble" :: path :: arguments) =
      ({ code := 0, stdout := Listing.disassemble p }, t) := by
  refine run_settle_ok ?_
  rw [disassemble, run_bind_ok (run_readProgram_ok h hp)]
  rfl

theorem invoke_disassemble_bytecode {e : DecodeError} (h : t.read path = .ok bytes)
    (he : Program.decode bytes = .error e) (arguments : List String) :
    t.invoke ("disassemble" :: path :: arguments) = (.ofRefusal (.bytecode e), t) := by
  refine run_settle_error ?_
  rw [disassemble, run_bind_error (run_readProgram_bytecode h he)]

theorem invoke_disassemble_unreadable {e : FileError} (h : t.read path = .error e)
    (arguments : List String) :
    t.invoke ("disassemble" :: path :: arguments) = (.ofRefusal (.unreadable path e), t) := by
  refine run_settle_error ?_
  rw [disassemble, run_bind_error (run_readProgram_unreadable h)]

/-- **A text is assembled** if it is read, accepted and written. -/
theorem invoke_assemble {arguments : List String} {request : AssembleRequest} {text : String}
    (hrequest : AssembleRequest.parse arguments = .ok request)
    (hread : t.read request.input = .ok bytes) (htext : decodeText bytes = .ok text)
    (hp : Assembly.assemble text = .ok p) (hwrite : t.write request.output p.encode = .ok t') :
    t.invoke ("assemble" :: arguments) =
      ({ code := 0
         stderr :=
           s!"assembled {p.length} tokens ({p.encode.length} bytes) -> {request.output}\n" },
        t') := by
  refine run_settle_ok ?_
  rw [assemble, hrequest, run_bind_ok (run_ofExcept _), run_bind_ok (run_readInput_ok hread),
    run_bind_ok (run_mapError_ok _ htext), run_bind_ok (run_mapError_ok _ hp)]
  exact run_bind_ok (run_writeFile_ok hwrite)

end StackVM.CommandLine
