import StackVM.Proofs.EventLog

/-!
# What literals cannot influence

Two programs with the same opcodes in the same places may differ in their literals. Their runs keep
step with each other until one of them divides by zero: the same instructions are dispatched, each
on stacks of the same depth, and the ends are the same but for the words on the stack.

* `Traps.alike`, `effect_alike`: on stacks of the same depth an opcode completes in both runs, or
  traps in both, or divides by zero in one of them.
* `actAll_alike`, `Ends.alike`, `Exec.alike`: so it is for instructions in a row, for the ends and
  for whole runs.
* `agenda_congr`: the agenda does not mention literals at all.
-/

set_option autoImplicit false

namespace StackVM

/-- Two successes, or two failures for the same error, with as many words on the stack. -/
inductive SameOutcome : Except Failure Stack → Except Failure Stack → Prop
  | ok {s s' : Stack} : s.size = s'.size → SameOutcome (.ok s) (.ok s')
  | error {e : RuntimeError} {s s' : Stack} : s.size = s'.size →
      SameOutcome (.error ⟨e, s⟩) (.error ⟨e, s'⟩)

/-- A failure for a zero divisor. -/
def DividesByZero (r : Except Failure Stack) : Prop := ∃ n s, r = .error ⟨.divisionByZero n, s⟩

theorem SameOutcome.dividesByZero {r r' : Except Failure Stack} (h : SameOutcome r r')
    (hr : DividesByZero r') : DividesByZero r := by
  obtain ⟨n, t, rfl⟩ := hr
  cases h
  exact ⟨n, _, rfl⟩

/-! ## One instruction -/

namespace Opcode

variable {o : Opcode} {next? next'? : Option Token} {s s' t u : Stack} {trap : Trap}

/-- **A trap is met on every stack of the same depth**, except for a zero divisor. -/
theorem Traps.alike (h : o.Traps next? s trap u) (hne : trap ≠ .divisionByZero)
    (hn : next?.map Token.opcode? = next'?.map Token.opcode?) (hs : s.size = s'.size) :
    ∃ u', o.Traps next'? s' trap u' ∧ u.size = u'.size := by
  cases h with
  | stackUnderflow hlt => exact ⟨.empty, .stackUnderflow (hs ▸ hlt), rfl⟩
  | divisionByZero => exact absurd rfl hne
  | missingLiteral ho hl =>
    refine ⟨s', .missingLiteral ho fun v hv => ?_, hs⟩
    rw [hv] at hn
    obtain ⟨token, htoken, hdata⟩ := Option.map_eq_some_iff.1 hn
    cases token with
    | op o => cases hdata
    | data w => exact hl w htoken
  | reserved ho => exact ⟨s', .reserved ho, hs⟩

/-- **An opcode that completes** does so on every stack of the same depth, or divides by zero. -/
theorem effect_alike (h : (o.effect next?).run s = .ok () t)
    (hn : next?.map Token.opcode? = next'?.map Token.opcode?) (hs : s.size = s'.size) :
    (∃ t', (o.effect next'?).run s' = .ok () t' ∧ t.size = t'.size) ∨
      ∃ u, ∀ after?, o.Traps after? s' .divisionByZero u := by
  rcases h' : (o.effect next'?).run s' with ⟨⟨⟩, t'⟩ | ⟨trap, u⟩
  · refine .inl ⟨t', rfl, ?_⟩
    have ht := o.gains_effect next? h
    have ht' := o.gains_effect next'? h'
    omega
  · have htraps := traps_of_effect h'
    by_cases hz : trap = .divisionByZero
    · subst hz
      cases htraps with
      | divisionByZero ho hs' => exact .inr ⟨u, fun _ => .divisionByZero ho hs'⟩
    · obtain ⟨u', hu, -⟩ := htraps.alike hz hn.symm hs.symm
      rw [effect_of_traps hu] at h
      cases h

end Opcode

theorem Instruction.act_alike {i i' : Instruction} {s s' t : Stack} (hi : i.opcode = i'.opcode)
    (h : i.act.run s = .ok () t) (hs : s.size = s'.size) :
    (∃ t', i'.act.run s' = .ok () t' ∧ t.size = t'.size) ∨
      ∃ u, ∀ after?, i'.opcode.Traps after? s' .divisionByZero u := by
  have hn : (i.literals.map Token.data ++ []).head?.map Token.opcode? =
      (i'.literals.map Token.data ++ []).head?.map Token.opcode? := by
    cases i with
    | plain o ho =>
      cases i' with
      | plain => rfl
      | push => exact absurd hi ho
    | push v =>
      cases i' with
      | plain o ho => exact absurd hi.symm ho
      | push => rfl
  rw [← i.effect_opcode []] at h
  rw [← i'.effect_opcode [], ← hi]
  exact Opcode.effect_alike h hn hs

/-! ## Instructions in a row -/

/-- **Instructions that complete** do so with other literals and from every stack of the same
depth, up to a division by zero. -/
theorem actAll_alike {is is' : List Instruction} {s s' t : Stack}
    (hi : is.map Instruction.opcode = is'.map Instruction.opcode)
    (h : (actAll is).run s = .ok () t) (hs : s.size = s'.size) :
    (∃ t', (actAll is').run s' = .ok () t' ∧ t.size = t'.size) ∨
      ∃ js i ks u v, is' = js ++ i :: ks ∧ (actAll js).run s' = .ok () u ∧
        ∀ after?, i.opcode.Traps after? u .divisionByZero v := by
  induction is generalizing is' s s' with
  | nil =>
    obtain rfl := List.map_eq_nil_iff.1 hi.symm
    obtain rfl := actAll_nil_eq_ok.1 h
    exact .inl ⟨s', rfl, hs⟩
  | cons i is ih =>
    obtain ⟨i', is', rfl, hopcode, hrest⟩ := List.map_eq_cons_iff.1 hi.symm
    obtain ⟨u, hu, hut⟩ := actAll_cons_eq_ok.1 h
    obtain ⟨u', hu', hsize⟩ | ⟨v, hv⟩ := Instruction.act_alike hopcode.symm hu hs
    · obtain ⟨t', ht', htt'⟩ | ⟨js, j, ks, w, v, rfl, hjs, hv⟩ := ih hrest.symm hut hsize
      · exact .inl ⟨t', actAll_cons_eq_ok.2 ⟨u', hu', ht'⟩, htt'⟩
      · exact .inr ⟨i' :: js, j, ks, w, v, rfl, actAll_cons_eq_ok.2 ⟨u', hu', hjs⟩, hv⟩
    · exact .inr ⟨[], i', is', s', v, rfl, rfl, hv⟩

/-! ## Programs -/

namespace Program

variable {p p' rest : Program} {n : Nat}

theorem exists_eq_op_cons {o : Opcode}
    (h : (.op o :: p : Program).map Token.opcode? = p'.map Token.opcode?) :
    ∃ q, p' = .op o :: q ∧ p.map Token.opcode? = q.map Token.opcode? := by
  obtain ⟨token, q, rfl, htoken, hq⟩ := List.map_eq_cons_iff.1 h.symm
  cases token with
  | op o' =>
    cases htoken
    exact ⟨q, rfl, hq.symm⟩
  | data v => cases htoken

theorem exists_eq_data_cons {v : Word}
    (h : (.data v :: p : Program).map Token.opcode? = p'.map Token.opcode?) :
    ∃ w q, p' = .data w :: q ∧ p.map Token.opcode? = q.map Token.opcode? := by
  obtain ⟨token, q, rfl, htoken, hq⟩ := List.map_eq_cons_iff.1 h.symm
  cases token with
  | op o => cases htoken
  | data w => exact ⟨w, q, rfl, hq.symm⟩

/-- **The same instructions** stand at the front of both programs, but for their literals. -/
theorem exists_instructions_alike {is : List Instruction}
    (h : (ofInstructions is ++ rest).map Token.opcode? = p'.map Token.opcode?) :
    ∃ is' rest', p' = ofInstructions is' ++ rest' ∧
      is.map Instruction.opcode = is'.map Instruction.opcode ∧
      rest.map Token.opcode? = rest'.map Token.opcode? := by
  induction is generalizing p' with
  | nil => exact ⟨[], p', rfl, rfl, h⟩
  | cons i is ih =>
    rw [ofInstructions_cons, List.append_assoc] at h
    cases i with
    | plain o ho =>
      obtain ⟨q, rfl, hq⟩ := exists_eq_op_cons h
      obtain ⟨is', rest', rfl, hi, hrest⟩ := ih hq
      exact ⟨.plain o ho :: is', rest', rfl, congrArg (o :: ·) hi, hrest⟩
    | push v =>
      obtain ⟨q, rfl, hliteral⟩ := exists_eq_op_cons h
      obtain ⟨w, q, rfl, hq⟩ := exists_eq_data_cons hliteral
      obtain ⟨is', rest', rfl, hi, hrest⟩ := ih hq
      exact ⟨.push w :: is', rest', rfl, congrArg (Opcode.push :: ·) hi, hrest⟩

/-- **The agenda** reads no literal. -/
theorem agenda_congr {depth : Int} (h : p.map Token.opcode? = p'.map Token.opcode?) :
    agenda n depth p = agenda n depth p' := by
  fun_induction agenda n depth p generalizing p' with
  | case1 n depth v p ih =>
    obtain ⟨q, rfl, hliteral⟩ := exists_eq_op_cons h
    obtain ⟨w, q, rfl, hq⟩ := exists_eq_data_cons hliteral
    rw [agenda, ih hq]
  | case2 n depth o p hpush ih =>
    obtain ⟨q, rfl, hq⟩ := exists_eq_op_cons h
    rw [agenda, ih hq]
    -- No literal follows a `PUSH` here, so none does there.
    rintro w q' rfl rfl
    obtain ⟨v, q, rfl, -⟩ := exists_eq_data_cons hq.symm
    exact hpush v q rfl rfl
  | case3 p _ _ _ hop =>
    rcases p with _ | ⟨o | v, p⟩
    · rw [List.map_eq_nil_iff.1 h.symm]
      rfl
    · exact absurd rfl (hop o p)
    · obtain ⟨w, q, rfl, -⟩ := exists_eq_data_cons h
      rfl

end Program

/-! ## Runs -/

/-- **Runs end alike** behind the same instructions, unless one of them divides by zero there. -/
theorem Ends.alike {limit : Option Nat} {n position d : Nat} {s s' : Stack} {rest rest' : Program}
    {r : Except Failure Stack} (h : Ends limit n position s rest d r) (hr : ¬ DividesByZero r)
    (hrest : rest.map Token.opcode? = rest'.map Token.opcode?) (hs : s.size = s'.size) :
    ∃ r', Ends limit n position s' rest' d r' ∧ SameOutcome r r' := by
  cases h with
  | finished =>
    rw [List.map_eq_nil_iff.1 hrest.symm]
    exact ⟨_, .finished, .ok hs⟩
  | literal v rest =>
    obtain ⟨w, rest', rfl, -⟩ := Program.exists_eq_data_cons hrest
    exact ⟨_, .literal w rest', .error hs⟩
  | stepLimit o rest hl hb =>
    obtain ⟨rest', rfl, -⟩ := Program.exists_eq_op_cons hrest
    exact ⟨_, .stepLimit o rest' hl hb, .error hs⟩
  | @trap o rest t u hroom ht =>
    obtain ⟨rest', rfl, htail⟩ := Program.exists_eq_op_cons hrest
    have hhead : rest.head?.map Token.opcode? = rest'.head?.map Token.opcode? := by
      rw [← List.head?_map, ← List.head?_map, htail]
    have hne : t ≠ .divisionByZero := by
      rintro rfl
      exact hr ⟨position, u, rfl⟩
    obtain ⟨u', ht', hu⟩ := ht.alike hne hhead hs
    exact ⟨_, .trap hroom ht', .error hu⟩

namespace Program

variable {p p' : Program} {limit : Option Nat} {s s' : Stack} {d d' : Nat}
  {r r' : Except Failure Stack}

/-- **A run that does not divide by zero** goes the same way with other literals, unless it divides
by zero then, and no later. -/
theorem Exec.exists_alike (h : p.Exec s limit d r) (hr : ¬ DividesByZero r)
    (hp : p.map Token.opcode? = p'.map Token.opcode?) (hs : s.size = s'.size) :
    ∃ d' r', p'.Exec s' limit d' r' ∧
      (d = d' ∧ SameOutcome r r' ∨ DividesByZero r' ∧ d' ≤ d) := by
  obtain ⟨is, rest, t, rfl, his, hl, he⟩ := h
  obtain ⟨is', rest', rfl, hi, hrest⟩ := exists_instructions_alike hp
  have hlen : is.length = is'.length := by simpa using congrArg List.length hi
  have hpos : (ofInstructions is).length = (ofInstructions is').length := by
    have hall := congrArg List.length hp
    have hback := congrArg List.length hrest
    simp only [List.length_map, List.length_append] at hall hback
    omega
  obtain ⟨t', ht', hsize⟩ | ⟨js, i, ks, u, v, rfl, hjs, hv⟩ := actAll_alike hi his hs
  · obtain ⟨r', he', hsame⟩ := he.alike hr hrest hsize
    rw [hlen, hpos] at he'
    exact ⟨d, r', ⟨is', rest', t', rfl, ht', hlen ▸ hl, he'⟩, .inl ⟨rfl, hsame⟩⟩
  · rw [List.length_append, List.length_cons] at hlen
    have hbound : ∀ b ∈ limit, js.length < b := by
      intro b hb
      have := hl b hb
      omega
    refine ⟨js.length + 1, _, ⟨js, i.tokens ++ (ofInstructions ks ++ rest'), u, ?_, hjs,
      fun b hb => Nat.le_of_lt (hbound b hb), .trap hbound (hv _)⟩, .inr ⟨⟨_, _, rfl⟩, ?_⟩⟩
    · rw [ofInstructions_append, ofInstructions_cons, List.append_assoc, List.append_assoc]
    · have hle := he.le_dispatches
      omega

/-- Of two runs, the one that does not divide by zero goes at least as far. -/
theorem Exec.le_of_dividesByZero (h : p.Exec s limit d r) (h' : p'.Exec s' limit d' r')
    (hr : ¬ DividesByZero r) (hr' : DividesByZero r')
    (hp : p.map Token.opcode? = p'.map Token.opcode?) (hs : s.size = s'.size) : d' ≤ d := by
  obtain ⟨d'', r'', h'', halike⟩ := h.exists_alike hr hp hs
  obtain ⟨rfl, rfl⟩ := h'.unique h''
  obtain ⟨-, hsame⟩ | ⟨-, hle⟩ := halike
  · exact absurd (hsame.dividesByZero hr') hr
  · exact hle

/-- Two runs that do not divide by zero keep step to their ends. -/
theorem Exec.alike (h : p.Exec s limit d r) (h' : p'.Exec s' limit d' r')
    (hr : ¬ DividesByZero r) (hr' : ¬ DividesByZero r')
    (hp : p.map Token.opcode? = p'.map Token.opcode?) (hs : s.size = s'.size) :
    d = d' ∧ SameOutcome r r' := by
  obtain ⟨d'', r'', h'', halike⟩ := h.exists_alike hr hp hs
  obtain ⟨rfl, rfl⟩ := h'.unique h''
  exact halike.resolve_right fun hz => hr' hz.1

/-- **Two runs go on together** as long as neither has divided by zero. -/
theorem Exec.min_dispatches_alike (h : p.Exec s limit d r) (h' : p'.Exec s' limit d' r')
    (hp : p.map Token.opcode? = p'.map Token.opcode?) (hs : s.size = s'.size) {k : Nat}
    (hk : DividesByZero r → k ≤ d) (hk' : DividesByZero r' → k ≤ d') : min k d = min k d' := by
  by_cases hr : DividesByZero r
  · have hle : k ≤ d := hk hr
    have hle' : k ≤ d' := by
      by_cases hr' : DividesByZero r'
      · exact hk' hr'
      · exact Nat.le_trans hle (h'.le_of_dividesByZero h hr' hr hp.symm hs.symm)
    rw [Nat.min_eq_left hle, Nat.min_eq_left hle']
  · by_cases hr' : DividesByZero r'
    · have hle' : k ≤ d' := hk' hr'
      have hle : k ≤ d := Nat.le_trans hle' (h.le_of_dividesByZero h' hr hr' hp hs)
      rw [Nat.min_eq_left hle, Nat.min_eq_left hle']
    · rw [(h.alike h' hr hr' hp hs).1]

/-- **Literals cannot influence where a run goes**, except through a zero divisor, which ends the
run at its last dispatch. Two programs with the same opcodes in the same places and with literals in
the same places dispatch the same instructions at the same depths, up to the first one that divides
by zero in one of the runs. If there is none, both runs end in the same way. At each dispatch the
depth is the number of `PUSH` before it less the number of `POP` and binary operators. -/
theorem run_literals {p p' : Program} (h : p.map Token.opcode? = p'.map Token.opcode?)
    (memory memory' : Memory) (call call' : Call) (limit : Option Nat) :
    let o := p.run memory call limit
    let o' := p'.run memory' call' limit
    (∀ k, (DividesByZero o.result → k ≤ o.dispatches) →
      (DividesByZero o'.result → k ≤ o'.dispatches) →
      o.dispatched.take k = o'.dispatched.take k) ∧
    (¬ DividesByZero o.result → ¬ DividesByZero o'.result →
      o.dispatched = o'.dispatched ∧ SameOutcome o.result o'.result) ∧
    (∀ n s, o.result = .error ⟨.divisionByZero n, s⟩ →
      ∃ opcode depth, o.dispatched.getLast? = some ⟨n, opcode, depth⟩) ∧
    ∀ k d, o.dispatched[k]? = some d →
      (d.depth : Int) = (o.dispatched.take k).countP (·.opcode == .push) -
        (o.dispatched.take k).countP (·.opcode.lowers) := by
  intro o o'
  have he : p.Exec .empty limit o.dispatches o.result := p.exec_runOn .empty memory call limit
  have he' : p'.Exec .empty limit o'.dispatches o'.result :=
    p'.exec_runOn .empty memory' call' limit
  have hd : o.dispatched = (p.agenda 0 Stack.empty.size).take o.dispatches :=
    p.dispatched_runOn .empty memory call limit
  have hd' : o'.dispatched = (p.agenda 0 Stack.empty.size).take o'.dispatches := by
    rw [agenda_congr h]
    exact p'.dispatched_runOn .empty memory' call' limit
  refine ⟨fun k hk hk' => ?_, fun hr hr' => ?_, fun n s hr => ?_, fun k d hat => ?_⟩
  · have hmin : min k o.dispatches = min k o'.dispatches :=
      he.min_dispatches_alike he' h rfl hk hk'
    rw [hd, hd', List.take_take, List.take_take, hmin]
  · obtain ⟨hdispatches, hsame⟩ := he.alike he' hr hr' h rfl
    rw [hd, hd', hdispatches]
    exact ⟨rfl, hsame⟩
  · rw [hr] at he
    obtain ⟨opcode, s', -, hlast, -⟩ :=
      Exec.getLast?_agenda (o := .div) (t := .divisionByZero) he
    exact ⟨opcode, s'.size, hd ▸ hlast⟩
  · have hdepth := (depth_of_dispatched memory call hat).2
    rw [Opcode.sum_gain, List.countP_map, List.countP_map] at hdepth
    rw [hdepth]
    exact Int.zero_add _

theorem run_literals_quotients :
    (Token.push 6 ++ Token.push 2 ++ [.op .div] : Program).map Token.opcode? =
      (Token.push 7 ++ Token.push 3 ++ [.op .div] : Program).map Token.opcode? ∧
    SameOutcome (run (Token.push 6 ++ Token.push 2 ++ [.op .div]) (.zeroed 0) {} none).result
      (run (Token.push 7 ++ Token.push 3 ++ [.op .div]) (.zeroed 0) {} none).result ∧
    (Token.push 6 ++ Token.push 2 ++ [.op .div] : Program).map Token.opcode? =
      (Token.push 7 ++ Token.push 0 ++ [.op .div] : Program).map Token.opcode? ∧
    (run (Token.push 7 ++ Token.push 0 ++ [.op .div]) (.zeroed 0) {} none).result =
      .error ⟨.divisionByZero 4, .empty⟩ ∧
    (run (Token.push 6 ++ Token.push 2 ++ [.op .div]) (.zeroed 0) {} none).dispatched.take 3 =
      (run (Token.push 7 ++ Token.push 0 ++ [.op .div]) (.zeroed 0) {} none).dispatched.take 3 := by
  have h : (run (Token.push 6 ++ Token.push 2 ++ [.op .div]) (.zeroed 0) {} none).result =
      .ok (.ofList [3]) := by cbv
  have h' : (run (Token.push 7 ++ Token.push 3 ++ [.op .div]) (.zeroed 0) {} none).result =
      .ok (.ofList [2]) := by cbv
  have hz : (run (Token.push 7 ++ Token.push 0 ++ [.op .div]) (.zeroed 0) {} none).result =
      .error ⟨.divisionByZero 4, .empty⟩ := by cbv
  have hn : (run (Token.push 7 ++ Token.push 0 ++ [.op .div]) (.zeroed 0) {} none).dispatches =
      3 := by cbv
  have hok : ∀ s, ¬ DividesByZero (.ok s) := by
    rintro s ⟨n, t, ⟨⟩⟩
  have hthree : (Token.push 6 ++ Token.push 2 ++ [.op .div] : Program).map Token.opcode? =
      (Token.push 7 ++ Token.push 3 ++ [.op .div] : Program).map Token.opcode? := rfl
  have hzero : (Token.push 6 ++ Token.push 2 ++ [.op .div] : Program).map Token.opcode? =
      (Token.push 7 ++ Token.push 0 ++ [.op .div] : Program).map Token.opcode? := rfl
  obtain ⟨-, hsame, -⟩ := run_literals hthree (.zeroed 0) (.zeroed 0) {} {} none
  obtain ⟨htake, -⟩ := run_literals hzero (.zeroed 0) (.zeroed 0) {} {} none
  have hfirst := htake 3 (fun hd => absurd (h ▸ hd) (hok _)) fun _ => Nat.le_of_eq hn.symm
  exact ⟨hthree, (hsame (h ▸ hok _) (h' ▸ hok _)).2, hzero, hz, hfirst⟩

end Program

end StackVM
