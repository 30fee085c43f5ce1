import Mathlib.Data.List.Forall2
import StackVM.Proofs.EventLog

/-!
# The caller's context

A run is given a memory and a call that belong to its caller. It hands the memory back as it was
and goes the same way whatever the two are. Only three fields of its events show them:

* `events_runOn_eq_map`: the log of a run for another caller is the same log with the sizes of that
  caller's context in it (`Event.forCaller`).
* `Event.agreeOutside_forCaller`: two such logs are printed alike outside of the fields
  `contextNames`, and in those stand the sizes (`Event.mem_contextFields`).
* `runInTurn_eq_map`: so runs that share a memory one after the other do not notice each other.
-/

set_option autoImplicit false

namespace StackVM

/-! ## Events for another caller -/

/-- The names of the fields that show the caller's context. -/
def contextNames : List String := ["function_len", "args_len", "memory_size"]

/-- These fields, with the sizes of the context. -/
def contextFields (memory : Memory) (call : Call) : List (String × String) :=
  contextNames.zip
    [toString call.function.length, toString call.arguments.length, toString memory.size]

namespace Event

/-- The event as it is reported to this caller. -/
def forCaller (memory : Memory) (call : Call) : Event → Event
  | started _ _ limit => started call.function.length call.arguments.length limit
  | reserved opcode _ => reserved opcode memory.size
  | e => e

/-- Both events are printed alike, but for the values of the fields with these names. -/
structure AgreeOutside (names : List String) (e e' : Event) : Prop where
  level : e.level = e'.level
  message : e.message = e'.message
  fields : List.Forall₂ (fun f f' => f.1 = f'.1 ∧ (f.1 ∉ names → f.2 = f'.2)) e.fields e'.fields

variable (memory : Memory) (call : Call) (e : Event)

theorem agreeOutside_forCaller : e.AgreeOutside contextNames (e.forCaller memory call) := by
  cases e with
  | started | reserved =>
    refine ⟨rfl, rfl, ?_⟩
    simp [forCaller, fields, contextNames]
  | dispatched | finished | failed =>
    exact ⟨rfl, rfl, List.forall₂_same.2 fun f _ => ⟨rfl, fun _ => rfl⟩⟩

/-- **The fields of the context** hold the sizes of the caller's memory and call. -/
theorem mem_contextFields {f : String × String} (hf : f ∈ (e.forCaller memory call).fields)
    (hname : f.1 ∈ contextNames) : f ∈ contextFields memory call := by
  cases e with
  | started _ _ limit =>
    simp only [forCaller, fields, List.mem_cons, List.not_mem_nil, or_false] at hf
    rcases hf with rfl | rfl | rfl
    · simp [contextFields, contextNames]
    · simp [contextFields, contextNames]
    · simp [contextNames] at hname
  | reserved opcode _ =>
    simp only [forCaller, fields, List.mem_cons, List.not_mem_nil, or_false] at hf
    rcases hf with rfl | rfl
    · simp [contextNames] at hname
    · simp [contextFields, contextNames]
  | dispatched | finished | failed =>
    simp only [forCaller, fields, List.mem_cons, List.not_mem_nil, or_false] at hf
    rcases hf with rfl | rfl | rfl <;> simp [contextNames] at hname

end Event

theorem map_forCaller_reservedEvents (memory : Memory) (call : Call) (n : Nat)
    (r : Except Failure Stack) :
    (reservedEvents n r).map (Event.forCaller memory call) = reservedEvents memory.size r := by
  unfold reservedEvents
  split <;> rfl

theorem forCaller_endEvent (memory : Memory) (call : Call) (d : Nat) (r : Except Failure Stack) :
    (endEvent d r).forCaller memory call = endEvent d r := by
  cases r <;> rfl

/-! ## Two runs -/

namespace Program

variable (p : Program) (s₀ : Stack) (memory memory' : Memory) (call call' : Call)
  (limit : Option Nat)

/-- **Runs from different contexts** have the same result and dispatch as much. -/
theorem runOn_context :
    (p.runOn s₀ memory' call' limit).result = (p.runOn s₀ memory call limit).result ∧
      (p.runOn s₀ memory' call' limit).dispatches = (p.runOn s₀ memory call limit).dispatches :=
  (p.exec_runOn s₀ memory call limit).runOn memory' call'

/-- **The log of a run for another caller** is the same but for the sizes of the context. -/
theorem events_runOn_eq_map :
    (p.runOn s₀ memory' call' limit).events =
      (p.runOn s₀ memory call limit).events.map (Event.forCaller memory' call') := by
  obtain ⟨hresult, hdispatches⟩ := p.runOn_context s₀ memory memory' call call' limit
  have hdispatched : (p.runOn s₀ memory' call' limit).dispatched =
      (p.runOn s₀ memory call limit).dispatched := by
    rw [dispatched_runOn, dispatched_runOn, hdispatches]
  have hkept : ∀ ds : List Dispatch,
      (ds.map Dispatch.event).map (Event.forCaller memory' call') = ds.map Dispatch.event := by
    intro ds
    rw [List.map_map]
    exact List.map_congr_left fun d _ => rfl
  rw [events_runOn, events_runOn, hresult, hdispatches, hdispatched]
  simp only [List.map_cons, List.map_append, List.map_nil, hkept, map_forCaller_reservedEvents,
    forCaller_endEvent]
  rfl

end Program

/-! ## Runs in turn -/

/-- A program with the call on whose behalf it runs and the limit under which it does. -/
structure Job where
  program : Program
  call : Call
  limit : Option Nat

def Job.run (job : Job) (memory : Memory) : Outcome := job.program.run memory job.call job.limit

/-- The outcomes of runs one after the other, each on the memory that the one before it leaves. -/
def runInTurn (memory : Memory) : List Job → List Outcome
  | [] => []
  | job :: jobs => job.run memory :: runInTurn (job.run memory).memory jobs

theorem runInTurn_eq_map (memory : Memory) (jobs : List Job) :
    runInTurn memory jobs = jobs.map fun job => job.run memory := by
  induction jobs with
  | nil => rfl
  | cons job jobs ih =>
    have hmemory : (job.run memory).memory = memory :=
      job.program.memory_runOn .empty memory job.call job.limit
    rw [runInTurn, hmemory, ih, List.map_cons]

namespace Program

/-- **A run neither reads nor writes the caller's context.** From any two memories and calls it
comes to the same result, and each memory is handed back as it was. The events are the same outside
of the fields that show the sizes of the context, and these show the sizes that were given. So each
of several runs that share a memory has the result that it has alone, on whatever memory. -/
theorem run_context (p : Program) (limit : Option Nat) (memory memory' : Memory)
    (call call' : Call) :
    let o := p.run memory call limit
    let o' := p.run memory' call' limit
    o.result = o'.result ∧
    o.memory = memory ∧ o'.memory = memory' ∧
    List.Forall₂ (Event.AgreeOutside contextNames) o.events o'.events ∧
    (∀ e ∈ o.events, ∀ f ∈ e.fields, f.1 ∈ contextNames → f ∈ contextFields memory call) ∧
    ∀ jobs : List Job,
      (runInTurn memory jobs).map Outcome.result =
        jobs.map fun job => (job.run memory').result := by
  intro o o'
  have hevents : o'.events = o.events.map (Event.forCaller memory' call') :=
    p.events_runOn_eq_map .empty memory memory' call call' limit
  have hown : o.events = o.events.map (Event.forCaller memory call) :=
    p.events_runOn_eq_map .empty memory memory call call limit
  refine ⟨(p.runOn_context .empty memory' memory call' call limit).1,
    p.memory_runOn .empty memory call limit, p.memory_runOn .empty memory' call' limit, ?_, ?_, ?_⟩
  · rw [hevents, List.forall₂_map_right_iff]
    exact List.forall₂_same.2 fun e _ => e.agreeOutside_forCaller memory' call'
  · intro e he f hf hname
    rw [hown] at he
    obtain ⟨e₀, -, rfl⟩ := List.mem_map.1 he
    exact e₀.mem_contextFields memory call hf hname
  · intro jobs
    rw [runInTurn_eq_map, List.map_map]
    apply List.map_congr_left
    intro job _
    exact (job.program.runOn_context .empty memory' memory job.call job.call job.limit).1

theorem run_context_reserved :
    let o := run (Token.push 5 ++ [.op .mload]) (.zeroed 8) ⟨[1, 2], [3]⟩ none
    let o' := run (Token.push 5 ++ [.op .mload]) (.zeroed 0) {} none
    Event.reserved .mload 8 ∈ o.events ∧
    ("memory_size", "8") ∈ (Event.reserved .mload 8).fields ∧ "memory_size" ∈ contextNames ∧
    ("memory_size", "8") ∈ contextFields (.zeroed 8) ⟨[1, 2], [3]⟩ ∧ o.result = o'.result := by
  intro o o'
  have hevents : (run (Token.push 5 ++ [.op .mload]) (.zeroed 8) ⟨[1, 2], [3]⟩ none).events =
      [.started 2 1 none, .dispatched 0 .push 0, .dispatched 2 .mload 1, .reserved .mload 8,
        .failed (.notImplemented 2 .mload) 2 1] := by cbv
  have hevent : Event.reserved .mload 8 ∈ o.events := by
    show _ ∈ (run (Token.push 5 ++ [.op .mload]) (.zeroed 8) ⟨[1, 2], [3]⟩ none).events
    simp [hevents]
  have hfield : ("memory_size", "8") ∈ (Event.reserved .mload 8).fields := by decide
  have hname : "memory_size" ∈ contextNames := by decide
  obtain ⟨hresult, -, -, -, hshown, -⟩ := run_context (Token.push 5 ++ [.op .mload]) none
    (.zeroed 8) (.zeroed 0) ⟨[1, 2], [3]⟩ {}
  exact ⟨hevent, hfield, hname, hshown _ hevent _ hfield hname, hresult⟩

end Program

end StackVM
