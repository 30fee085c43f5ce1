import StackVM.Proofs.Agenda
import StackVM.Proofs.StepLimit

/-!
# The events of a run

What a run reports follows from its result and from the number `d` of its dispatches:

* `dispatched_runOn`: the dispatches are the first `d` of the program's agenda.
* `events_runOn`: the start stands before them; behind them stands the report of a reserved opcode,
  if it is one that ended the run, and then the end.
* `events_run`: so the log agrees with the outcome, and the logs under different limits with each
  other.

The log of completed instructions is the agenda of them (`Completes.log`). The end adds at most two
events to it, by the way in which the last turn failed.
-/

set_option autoImplicit false

namespace StackVM

/-! ## Dispatches in the log -/

def Dispatch.event (d : Dispatch) : Event := .dispatched d.position d.opcode d.depth

def Event.dispatch? : Event → Option Dispatch
  | dispatched position opcode depth => some ⟨position, opcode, depth⟩
  | _ => none

/-- The dispatches that a run reported, in order. -/
def Outcome.dispatched (o : Outcome) : List Dispatch := o.events.filterMap Event.dispatch?

theorem filterMap_dispatch?_event (ds : List Dispatch) :
    (ds.map Dispatch.event).filterMap Event.dispatch? = ds := by
  rw [List.filterMap_map]
  exact List.filterMap_some

theorem Outcome.length_dispatched (o : Outcome) : o.dispatched.length = o.dispatches := by
  have h : (fun e => (Event.dispatch? e).isSome) = Event.isDispatch := by
    funext e
    cases e <;> rfl
  rw [dispatched, List.length_filterMap_eq_countP, h, dispatches]

/-! ## The end of the log -/

/-- What is reported of a run with this result between its dispatches and its end. -/
def reservedEvents (memorySize : Nat) : Except Failure Stack → List Event
  | .error ⟨.notImplemented _ opcode, _⟩ => [.reserved opcode memorySize]
  | _ => []

/-- The last event of a run with `d` dispatches and this result. -/
def endEvent (d : Nat) : Except Failure Stack → Event
  | .ok s => .finished d s.size
  | .error f => .failed f.error d f.stack.size

theorem dispatch?_of_mem_reservedEvents {memorySize : Nat} {r : Except Failure Stack} {e : Event}
    (h : e ∈ reservedEvents memorySize r) : e.dispatch? = none := by
  unfold reservedEvents at h
  split at h
  · rw [List.mem_singleton.1 h]
    rfl
  · cases h

theorem dispatch?_endEvent (d : Nat) (r : Except Failure Stack) :
    (endEvent d r).dispatch? = none := by
  rcases r with f | s
  · rfl
  · rfl

namespace Machine

open Program

variable {m m' : Machine} {limit : Option Nat}

/-- **Completed instructions are logged** as the agenda says. -/
theorem Completes.log {is : List Instruction} (h : Completes limit m is m') :
    m'.log.reverse = m.log.reverse ++
      (agenda m.cursor.position m.stack.size (ofInstructions is)).map Dispatch.event := by
  induction h with
  | nil => simp [agenda]
  | @cons m m' i is rest s _ _ hs _ ih =>
    have hsize : (s.size : Int) = m.stack.size + i.opcode.gain := i.gains_act hs
    rw [ih, ofInstructions_cons, agenda_tokens_append, List.map_cons, ← hsize]
    show (_ :: m.log).reverse ++ _ = _
    rw [List.reverse_cons, List.append_assoc]
    rfl

/-- Instructions and what is ahead of the cursor behind them make up the agenda. -/
theorem Completes.agenda {is : List Instruction} (h : Completes limit m is m') :
    agenda m.cursor.position m.stack.size m.cursor.ahead =
      agenda m.cursor.position m.stack.size (ofInstructions is) ++
        agenda m'.cursor.position m'.stack.size m'.cursor.ahead := by
  rw [h.ahead, agenda_append, h.position, gains_actAll is h.acts]

theorem log_trapped (o : Opcode) (t : Trap) (s : Stack) (n : Nat) :
    (m.trapped o t s).log.reverse =
      m.log.reverse ++ reservedEvents m.memory.size (.error ⟨.ofTrap n o t, s⟩) := by
  cases t with
  | reserved => exact List.reverse_cons
  | stackUnderflow | divisionByZero | missingLiteral => exact (List.append_nil _).symm

/-- **A turn that fails** logs a dispatch if it charges the instruction, and a reserved opcode if it
fails for that. -/
theorem log_of_step_fail {e : RuntimeError} (h : m.step limit = .fail e m') :
    m.steps ≤ m'.steps ∧ m'.log.reverse = m.log.reverse ++
      (((agenda m.cursor.position m.stack.size m.cursor.ahead).take (m'.steps - m.steps)).map
        Dispatch.event ++ reservedEvents m.memory.size (.error ⟨e, m'.stack⟩)) := by
  obtain ⟨v, rest, -, rfl, rfl⟩ | ⟨o, rest, b, -, -, -, rfl, rfl⟩ |
    ⟨o, rest, t, s, ha, -, -, rfl, rfl⟩ := step_eq_fail_iff.1 h
  · rw [Nat.sub_self]
    exact ⟨Nat.le_refl _, (List.append_nil _).symm⟩
  · rw [Nat.sub_self]
    exact ⟨Nat.le_refl _, (List.append_nil _).symm⟩
  · obtain ⟨later, hlater⟩ := exists_agenda_op m.cursor.position m.stack.size o rest
    rw [steps_trapped, stack_trapped, log_trapped o t s m.cursor.position, ha, hlater]
    refine ⟨Nat.le_succ _, ?_⟩
    show (_ :: m.log).reverse ++ _ = _ ++ ((List.take (m.steps + 1 - m.steps) _).map _ ++ _)
    rw [Nat.add_sub_cancel_left, List.reverse_cons, List.append_assoc]
    rfl

/-- **What a run logs**: dispatches of the agenda, as many as it counts, then a reserved opcode if
it is one that ended the run. -/
theorem log_run (m : Machine) (limit : Option Nat) :
    (m.run limit).1.log.reverse = m.log.reverse ++
      (((agenda m.cursor.position m.stack.size m.cursor.ahead).take
        ((m.run limit).1.steps - m.steps)).map Dispatch.event ++
          reservedEvents m.memory.size (result (m.run limit))) := by
  obtain ⟨is, m', hc, hr⟩ := exists_completes_run m limit
  have hlen : (agenda m.cursor.position m.stack.size (ofInstructions is)).length = is.length :=
    length_agenda is
  rw [hc.agenda]
  obtain ⟨-, hr⟩ | ⟨e, m'', hs, hr⟩ := hr
  · rw [hr, hc.steps, hc.log, Nat.add_sub_cancel_left, ← hlen, List.take_left]
    exact congrArg _ (List.append_nil _).symm
  · obtain ⟨hle, hlog⟩ := log_of_step_fail hs
    have hsteps : m''.steps - m.steps = is.length + (m''.steps - m'.steps) := by
      rw [hc.steps] at hle ⊢
      omega
    rw [hr, hlog, hsteps, ← hlen, List.take_length_add_append, hc.log, ← hc.memory, List.map_append,
      List.append_assoc, List.append_assoc]
    rfl

end Machine

namespace Program

variable (p : Program) (s₀ : Stack) (memory : Memory) (call : Call) (limit : Option Nat)

theorem events_runOn_eq_log :
    (p.runOn s₀ memory call limit).events =
      .started call.function.length call.arguments.length limit ::
        (((Machine.start p s₀ memory).run limit).1.log.reverse ++
          [endEvent (p.runOn s₀ memory call limit).dispatches
            (p.runOn s₀ memory call limit).result]) := by
  rw [dispatches_runOn, result_runOn]
  unfold runOn
  rcases (Machine.start p s₀ memory).run limit with ⟨m, _ | e⟩
  · simp [Machine.report, Machine.result, endEvent]
  · simp [Machine.report, Machine.result, endEvent]

/-- **The log in front of the end event**: dispatches of the agenda, then a reserved opcode if it
is one that ended the run. -/
theorem log_runOn :
    ((Machine.start p s₀ memory).run limit).1.log.reverse =
      ((p.agenda 0 s₀.size).take (p.runOn s₀ memory call limit).dispatches).map Dispatch.event ++
        reservedEvents memory.size (p.runOn s₀ memory call limit).result := by
  rw [dispatches_runOn, result_runOn]
  exact (Machine.start p s₀ memory).log_run limit

/-- **The dispatches of a run** are the first ones of the agenda. -/
theorem dispatched_runOn :
    (p.runOn s₀ memory call limit).dispatched =
      (p.agenda 0 s₀.size).take (p.runOn s₀ memory call limit).dispatches := by
  have hreserved : (reservedEvents memory.size (p.runOn s₀ memory call limit).result).filterMap
      Event.dispatch? = [] :=
    List.filterMap_eq_nil_iff.2 fun _ => dispatch?_of_mem_reservedEvents
  unfold Outcome.dispatched
  rw [events_runOn_eq_log, log_runOn p s₀ memory call limit, List.filterMap_cons,
    List.filterMap_append, List.filterMap_append, filterMap_dispatch?_event, hreserved,
    List.filterMap_cons, dispatch?_endEvent]
  simp [Event.dispatch?]

/-- **The events of a run**, by its dispatches and its result. -/
theorem events_runOn :
    (p.runOn s₀ memory call limit).events =
      .started call.function.length call.arguments.length limit ::
        ((p.runOn s₀ memory call limit).dispatched.map Dispatch.event ++
          reservedEvents memory.size (p.runOn s₀ memory call limit).result ++
          [endEvent (p.runOn s₀ memory call limit).dispatches
            (p.runOn s₀ memory call limit).result]) := by
  rw [dispatched_runOn, ← log_runOn, events_runOn_eq_log]

variable {p s₀ limit}

/-- **A run that ends in a trap** dispatches the opcode that traps last. -/
theorem Exec.getLast?_agenda {d n : Nat} {o : Opcode} {t : Trap} {s : Stack}
    (h : p.Exec s₀ limit d (.error ⟨.ofTrap n o t, s⟩)) :
    ∃ o' s' next?, ((p.agenda 0 s₀.size).take d).getLast? = some ⟨n, o', s'.size⟩ ∧
      o'.Traps next? s' t s ∧ RuntimeError.ofTrap n o' t = .ofTrap n o t := by
  obtain ⟨is, rest, s', rfl, hs, -, he⟩ := h
  generalize hf : (⟨.ofTrap n o t, s⟩ : Failure) = f at he
  cases he with
  | literal => cases t <;> cases hf
  | stepLimit => cases t <;> cases hf
  | @trap o' rest t' s'' hroom ht =>
    obtain ⟨herror, rfl⟩ := Failure.mk.inj hf
    obtain ⟨rfl, rfl⟩ : t = t' ∧ n = (ofInstructions is).length := by
      cases t <;> cases t' <;> cases herror <;> exact ⟨rfl, rfl⟩
    refine ⟨o', s', rest.head?, ?_, ht, herror.symm⟩
    rw [List.getLast?_take, if_neg (Nat.succ_ne_zero _), Nat.add_sub_cancel, getElem?_agenda hs,
      Nat.zero_add]
    rfl

/-- **A run that the limit stops** would dispatch the next instruction on the stack that it leaves.
The dispatches up to there account for the depth of that stack. -/
theorem Exec.agenda_of_stepLimit {d b : Nat} {s : Stack}
    (h : p.Exec s₀ limit d (.error ⟨.stepLimitExceeded b, s⟩)) :
    (∃ n o, (p.agenda 0 s₀.size)[d]? = some ⟨n, o, s.size⟩) ∧
      (s.size : Int) = s₀.size +
        ((((p.agenda 0 s₀.size).take d).map Dispatch.opcode).map Opcode.gain).sum := by
  obtain ⟨is, rest, s', rfl, hs, -, he⟩ := h
  generalize hf : (⟨.stepLimitExceeded b, s⟩ : Failure) = f at he
  cases he with
  | literal => cases hf
  | stepLimit o rest =>
    cases hf
    rw [take_agenda_append, map_opcode_agenda]
    exact ⟨⟨_, o, getElem?_agenda hs o rest⟩, gains_actAll is hs⟩
  | @trap o rest t =>
    cases t <;> cases hf

/-! ## Logs under different limits -/

theorem dispatches_runOn_some (p : Program) (s₀ : Stack) (k : Nat) :
    (p.runOn s₀ memory call (some k)).dispatches =
      min k (p.runOn s₀ memory call none).dispatches := by
  have hfree := p.exec_runOn s₀ memory call none
  by_cases hk : (p.runOn s₀ memory call none).dispatches ≤ k
  · rw [((hfree.of_le hk).runOn memory call).2, Nat.min_eq_right hk]
  · obtain ⟨-, s, -, hcut⟩ := hfree.cut (Nat.lt_of_not_le hk)
    rw [(hcut.runOn memory call).2, Nat.min_eq_left (Nat.le_of_not_le hk)]

/-- A run under any limit dispatches no more than the free run, nor than the limit. -/
theorem dispatches_runOn_le (p : Program) (s₀ : Stack) (limit : Option Nat) :
    (p.runOn s₀ memory call limit).dispatches ≤ (p.runOn s₀ memory call none).dispatches ∧
      ∀ b ∈ limit, (p.runOn s₀ memory call limit).dispatches ≤ b := by
  rcases limit with _ | k
  · exact ⟨Nat.le_refl _, fun b hb => by cases hb⟩
  · rw [dispatches_runOn_some]
    refine ⟨Nat.min_le_right _ _, fun b hb => ?_⟩
    obtain rfl := Option.mem_some.1 hb
    exact Nat.min_le_left _ _

/-- **The depth at a dispatch** is that of the stack at which a limit right before it stops the
run, and the dispatches before it account for it. -/
theorem depth_of_dispatched {k : Nat} {d : Dispatch}
    (h : (p.runOn s₀ memory call limit).dispatched[k]? = some d) :
    (∃ s, (p.runOn s₀ memory call (some k)).result = .error ⟨.stepLimitExceeded k, s⟩ ∧
      d.depth = s.size) ∧
      (d.depth : Int) = s₀.size + ((((p.runOn s₀ memory call limit).dispatched.take k).map
        Dispatch.opcode).map Opcode.gain).sum := by
  rw [dispatched_runOn] at h ⊢
  have hk : k < (p.runOn s₀ memory call limit).dispatches := by
    have hlen := (List.getElem?_eq_some_iff.1 h).1
    rw [List.length_take] at hlen
    omega
  have hlt := Nat.lt_of_lt_of_le hk (dispatches_runOn_le memory call p s₀ limit).1
  obtain ⟨-, s, -, hcut⟩ := (p.exec_runOn s₀ memory call none).cut hlt
  obtain ⟨⟨n, o, hat⟩, hsum⟩ := hcut.agenda_of_stepLimit
  rw [List.getElem?_take_of_lt hk, hat] at h
  cases h
  rw [List.take_take, Nat.min_eq_left (Nat.le_of_lt hk)]
  exact ⟨⟨s, (hcut.runOn memory call).1, rfl⟩, hsum⟩

/-- **The log agrees with the outcome.** It is the start, the dispatches, the report of a reserved
opcode right after its dispatch if that ends the run, and the end with the number of dispatches and
the depth of the stack that is left. Dispatches go forward through the opcodes of the program; each
finds the stack at which a limit right before it stops the run; and a limit cuts them off and
changes nothing else about them. -/
theorem events_run (p : Program) (memory : Memory) (call : Call) (limit : Option Nat) :
    let o := p.run memory call limit
    let free := p.run memory call none
    o.events = .started call.function.length call.arguments.length limit ::
      (o.dispatched.map Dispatch.event ++ reservedEvents memory.size o.result ++
        [endEvent o.dispatched.length o.result]) ∧
    (∀ n opcode s, o.result = .error ⟨.notImplemented n opcode, s⟩ →
      o.dispatched.getLast? = some ⟨n, opcode, s.size⟩) ∧
    (o.dispatched.Pairwise fun d e => d.position < e.position) ∧
    (∀ d ∈ o.dispatched, p[d.position]? = some (.op d.opcode)) ∧
    (∀ b ∈ limit, o.dispatched.length ≤ b) ∧
    (∀ k d, o.dispatched[k]? = some d →
      ∃ s, (p.run memory call (some k)).result = .error ⟨.stepLimitExceeded k, s⟩ ∧
        d.depth = s.size) ∧
    ∀ k, (p.run memory call (some k)).dispatched =
      free.dispatched.take (min k free.dispatched.length) := by
  intro o free
  have hdispatched : o.dispatched = (p.agenda 0 Stack.empty.size).take o.dispatches :=
    p.dispatched_runOn .empty memory call limit
  refine ⟨?_, fun n opcode s hr => ?_, ?_, fun d hd => ?_, fun b hb => ?_,
    fun k d hd => (depth_of_dispatched memory call hd).1, fun k => ?_⟩
  · rw [o.length_dispatched]
    exact p.events_runOn .empty memory call limit
  · have he : p.Exec .empty limit o.dispatches o.result := p.exec_runOn .empty memory call limit
    rw [hr] at he
    obtain ⟨o', s', next?, hlast, ht, herror⟩ := Exec.getLast?_agenda (t := .reserved) he
    cases herror
    cases ht
    rw [hdispatched]
    exact hlast
  · rw [hdispatched]
    exact (pairwise_agenda p).sublist (List.take_sublist _ _)
  · rw [hdispatched] at hd
    exact (getElem?_of_mem_agenda (List.mem_of_mem_take hd)).2
  · rw [o.length_dispatched]
    exact (dispatches_runOn_le memory call p .empty limit).2 b hb
  · rw [free.length_dispatched]
    show (p.runOn .empty memory call (some k)).dispatched =
      (p.runOn .empty memory call none).dispatched.take _
    rw [dispatched_runOn, dispatched_runOn, dispatches_runOn_some, List.take_take]
    congr 1
    show min k free.dispatches = min (min k free.dispatches) free.dispatches
    rw [Nat.min_assoc, Nat.min_self]

/-- The report of the reserved opcode stands between its dispatch and the end. -/
theorem events_run_reserved :
    let p : Program := Token.push 5 ++ [.op .mload]
    (p.run (.zeroed 8) {} none).dispatched.getLast? = some ⟨2, .mload, 1⟩ ∧
    (p.run (.zeroed 8) {} none).events =
      [.started 0 0 none, .dispatched 0 .push 0, .dispatched 2 .mload 1, .reserved .mload 8,
        .failed (.notImplemented 2 .mload) 2 1] ∧
    ∃ s, (p.run (.zeroed 8) {} (some 1)).result = .error ⟨.stepLimitExceeded 1, s⟩ ∧
      1 = s.size := by
  intro p
  obtain ⟨hevents, hlast, -, -, -, hdepth, -⟩ := events_run p (.zeroed 8) {} none
  have hresult : (p.run (.zeroed 8) {} none).result =
      .error ⟨.notImplemented 2 .mload, .ofList [5]⟩ := by cbv
  have hdispatched : (p.run (.zeroed 8) {} none).dispatched = [⟨0, .push, 0⟩, ⟨2, .mload, 1⟩] := by
    cbv
  refine ⟨hlast 2 .mload _ hresult, ?_, hdepth 1 ⟨2, .mload, 1⟩ ?_⟩
  · rw [hevents, hresult, hdispatched]
    rfl
  · rw [hdispatched]
    rfl

end Program

end StackVM
