import StackVM.Proofs.EventLog
import StackVM.Proofs.ListingTokens
import StackVM.Proofs.WellFormedRun

/-!
# A run read against the listing

The machine and the listing cut a program into the same instructions: the instructions that a run
dispatches are on the first lines of the listing, one a line and in order, and the position of each
is the number of tokens on the lines above it. A run that fails does so on the line of its last
dispatch, or at a literal that has the next line to itself.

The parts: the agenda of a program goes along its rows (`exists_row_of_agenda`), which is a fact
about the two ways of cutting and mentions no run; the row at which a run ends
(`Exec.row_of_error`); and the stacks around an instruction that completes, by the limits right
before and behind it (`stack_runOn_length`).
-/

set_option autoImplicit false

namespace StackVM

open Listing

/-- How many tokens stand on a line: two for a `PUSH` with its value. -/
def Listing.lineTokens (line : List Char) : Nat := if "PUSH ".toList.isPrefixOf line then 2 else 1

/-- The stack that a run leaves, whether it succeeds or fails. -/
def Outcome.stack (o : Outcome) : Stack :=
  match o.result with
  | .ok s => s
  | .error f => f.stack

namespace Listing

/-! ## The tokens on a line -/

theorem lineTokens_of_shows {line : List Char} {q : Program} (h : Shows line q) :
    lineTokens line = q.length := by
  cases h with
  | opcode o => cases o <;> decide
  | push v =>
    have hprefix : "PUSH ".toList <+: "PUSH ".toList ++ (toString v.toInt).toList :=
      List.prefix_append _ _
    rw [lineTokens, if_pos (List.isPrefixOf_iff_prefix.2 hprefix)]
    rfl
  | data v => rfl

/-- The tokens on the first lines of a listing are those of the first rows. -/
theorem sum_lineTokens (p : Program) (k : Nat) :
    (((Text.lines (disassemble p).toList).take k).map lineTokens).sum =
      (((rows p).take k).map (·.tokens.length)).sum := by
  rw [lines_disassemble, ← List.map_take, List.map_map]
  exact congrArg List.sum (List.map_congr_left fun r _ => lineTokens_of_shows r.shows)

theorem getElem?_lines (p : Program) (k : Nat) :
    (Text.lines (disassemble p).toList)[k]? = (rows p)[k]?.map (·.text.toList) := by
  rw [lines_disassemble, List.getElem?_map]

/-! ## The agenda and the rows -/

/-- A row starts with the mnemonic of its opcode, a `PUSH` with or without its literal. -/
theorem head?_words_text {o : Opcode} {row : Row}
    (h : row = .opcode o ∨ o = .push ∧ ∃ v, row = .push v) :
    (Text.words row.text.toList).head? = some o.mnemonic.toList := by
  rw [Row.words_text]
  obtain rfl | ⟨rfl, v, rfl⟩ := h
  · rfl
  · rfl

/-- **The agenda goes along the rows**: each entry has its row, and the rows above it hold the
tokens before it. -/
theorem exists_row_of_agenda {p : Program} {n k : Nat} {depth : Int} {d : Dispatch}
    (h : (p.agenda n depth)[k]? = some d) :
    ∃ row, (rows p)[k]? = some row ∧
      (row = .opcode d.opcode ∨ d.opcode = .push ∧ ∃ v, row = .push v) ∧
      d.position = n + (((rows p).take k).map (·.tokens.length)).sum := by
  fun_induction Program.agenda n depth p generalizing k with
  | case1 n depth v p ih =>
    have hrows : rows (.op .push :: .data v :: p) = .push v :: rows p := by
      rw [rows_cons, rows_cons]
      rfl
    rw [hrows]
    rcases k with _ | k
    · cases h
      exact ⟨.push v, rfl, .inr ⟨rfl, v, rfl⟩, rfl⟩
    · obtain ⟨row, hrow, hopcode, hposition⟩ := ih h
      refine ⟨row, hrow, hopcode, ?_⟩
      rw [hposition, List.take_succ_cons, List.map_cons, List.sum_cons, ← Nat.add_assoc]
      rfl
  | case2 n depth o p hpush ih =>
    have hrows : rows (.op o :: p) = .opcode o :: rows p := by
      refine rows_op_cons fun ho v hv => ?_
      obtain ⟨q, rfl⟩ := List.head?_eq_some_iff.1 hv
      subst ho
      exact hpush v q rfl rfl
    rw [hrows]
    rcases k with _ | k
    · cases h
      exact ⟨.opcode o, rfl, .inl rfl, rfl⟩
    · obtain ⟨row, hrow, hopcode, hposition⟩ := ih h
      refine ⟨row, hrow, hopcode, ?_⟩
      rw [hposition, List.take_succ_cons, List.map_cons, List.sum_cons, ← Nat.add_assoc]
      rfl
  | case3 => cases h

end Listing

/-! ## Where a run ends -/

/-- A `PUSH` takes no operands, so only its literal can be missing. -/
theorem Opcode.Traps.of_push {next? : Option Token} {s s' : Stack} {t : Trap}
    (h : Opcode.push.Traps next? s t s') : t = .missingLiteral ∧ ∀ v, next? ≠ some (.data v) := by
  cases h with
  | stackUnderflow hs => exact absurd hs (Nat.not_lt_zero _)
  | divisionByZero hd => simp at hd
  | missingLiteral _ hl => exact ⟨rfl, hl⟩
  | reserved hr => simp at hr

/-- Only a `PUSH` misses a literal. -/
theorem Opcode.Traps.eq_push {o : Opcode} {next? : Option Token} {s s' : Stack}
    (h : o.Traps next? s .missingLiteral s') : o = .push := by
  cases h with
  | missingLiteral ho => exact ho

/-- An opcode that traps has a row of its own. -/
theorem Opcode.Traps.rows {o : Opcode} {tail : Program} {s s' : Stack} {t : Trap}
    (h : o.Traps tail.head? s t s') : rows (.op o :: tail) = .opcode o :: rows tail := by
  refine rows_op_cons fun ho => ?_
  subst ho
  exact h.of_push.2

/-- **What a free run fails at**: a literal, which has a row of its own, or an opcode that traps. -/
theorem Ends.literal_or_trap {n position d : Nat} {s : Stack} {rest : Program} {f : Failure}
    (h : Ends none n position s rest d (.error f)) :
    (∃ v, (rows rest).head? = some (.data v) ∧ f.error = .invalidOpcode position ∧ d = n) ∨
      ∃ o t tail, rest = .op o :: tail ∧ o.Traps tail.head? s t f.stack ∧
        f.error = .ofTrap position o t ∧ d = n + 1 := by
  cases h with
  | literal v rest => exact .inl ⟨v, rfl, rfl, rfl⟩
  | stepLimit _ _ hl => cases hl
  | @trap o tail t s' _ ht => exact .inr ⟨o, t, tail, rfl, ht, rfl, rfl⟩

namespace Program

variable {p : Program} {s₀ s : Stack} {d k : Nat} {f : Failure}

theorem getElem?_rows_length (is : List Instruction) (rest : Program) :
    (rows (ofInstructions is ++ rest))[is.length]? = (rows rest).head? := by
  rw [rows_ofInstructions_append, List.getElem?_append_right (by simp), List.head?_eq_getElem?]
  simp

/-- The rows of instructions hold their tokens. -/
theorem sum_rows_take (is : List Instruction) (rest : Program) :
    (((rows (ofInstructions is ++ rest)).take is.length).map (·.tokens.length)).sum =
      (ofInstructions is).length := by
  have htake : (rows (ofInstructions is ++ rest)).take is.length = is.map ofInstruction := by
    rw [rows_ofInstructions_append, List.take_append_of_le_length (by simp)]
    simp
  have htokens : ∀ i : Instruction, (ofInstruction i).tokens = i.tokens := by
    rintro (⟨o, ho⟩ | v)
    · rfl
    · rfl
  rw [htake, List.map_map, ofInstructions, List.length_flatMap]
  exact congrArg List.sum (List.map_congr_left fun i _ => congrArg List.length (htokens i))

theorem Exec.length_rows_of_ok (h : p.Exec s₀ none d (.ok s)) : (rows p).length = d := by
  obtain ⟨is, rest, s', rfl, -, -, he⟩ := h
  cases he
  rw [rows_ofInstructions_append]
  simp

/-- **A run that fails** does so at a literal, whose row comes behind those of its dispatches, or in
its last dispatch. -/
theorem Exec.row_of_error (h : p.Exec s₀ none d (.error f)) :
    (∃ v, (rows p)[d]? = some (.data v) ∧
      f.error = .invalidOpcode (((rows p).take d).map (·.tokens.length)).sum) ∨
      ∃ k e t, d = k + 1 ∧ (p.agenda 0 s₀.size)[k]? = some e ∧
        (rows p)[k]? = some (.opcode e.opcode) ∧ f.error = .ofTrap e.position e.opcode t ∧
          ∃ s next?, e.opcode.Traps next? s t f.stack := by
  obtain ⟨is, rest, s', rfl, hs, -, he⟩ := h
  have hrow := getElem?_rows_length is rest
  obtain ⟨v, hv, hf, rfl⟩ | ⟨o, t, tail, rfl, ht, hf, rfl⟩ := he.literal_or_trap
  · rw [sum_rows_take]
    exact .inl ⟨v, hrow.trans hv, hf⟩
  · have hat := getElem?_agenda (n := 0) hs o tail
    rw [Nat.zero_add] at hat
    rw [ht.rows] at hrow
    exact .inr ⟨is.length, _, t, rfl, hat, hrow, hf, s', tail.head?, ht⟩

/-! ## Stacks between instructions -/

variable (memory : Memory) (call : Call)

/-- **Under the limit behind completed instructions** a run leaves the stack that they leave,
whatever comes next. -/
theorem stack_runOn_length {is : List Instruction} (hs : (actAll is).run s₀ = .ok () s)
    (rest : Program) :
    ((ofInstructions is ++ rest).runOn s₀ memory call (some is.length)).stack = s := by
  have hroom : ∀ b ∈ some is.length, is.length ≤ b := fun b hb =>
    Nat.le_of_eq (Option.mem_some.1 hb)
  have hstack {d : Nat} {r : Except Failure Stack}
      (he : Ends (some is.length) is.length (ofInstructions is).length s rest d r) :
      ((ofInstructions is ++ rest).runOn s₀ memory call (some is.length)).result = r :=
    (Exec.runOn memory call ⟨is, rest, s, rfl, hs, hroom, he⟩).1
  unfold Outcome.stack
  rcases rest with _ | ⟨o | v, rest⟩
  · rw [hstack .finished]
  · rw [hstack (.stepLimit o rest rfl (Nat.le_refl _))]
  · rw [hstack (.literal v rest)]

theorem stack_runOn_push {is : List Instruction} (hs : (actAll is).run s₀ = .ok () s) (v : Word)
    (rest : Program) :
    let p := ofInstructions is ++ (Token.push v ++ rest)
    (p.runOn s₀ memory call (some (is.length + 1))).stack =
      (p.runOn s₀ memory call (some is.length)).stack.push v := by
  intro p
  have hpush : (actAll (is ++ [.push v])).run s₀ = .ok () (s.push v) :=
    actAll_append_eq_ok.2 ⟨s, hs, rfl⟩
  have hbehind := stack_runOn_length memory call hpush rest
  rw [ofInstructions_append, List.append_assoc, List.length_append] at hbehind
  have hbefore : (p.runOn s₀ memory call (some is.length)).stack = s :=
    stack_runOn_length memory call hs (Token.push v ++ rest)
  rw [hbefore]
  exact hbehind

variable {memory call} {r : Except Failure Stack}

/-- **A dispatched instruction** completes, or is the last one and traps. -/
theorem Exec.dispatch (h : p.Exec s₀ none d r) (hk : k < d) :
    ∃ is s, is.length = k ∧ (actAll is).run s₀ = .ok () s ∧
      ((∃ (i : Instruction) (rest : Program), p = ofInstructions is ++ (i.tokens ++ rest)) ∨
        ∃ o tail t s', p = ofInstructions is ++ .op o :: tail ∧ o.Traps tail.head? s t s' ∧
          r = .error ⟨.ofTrap (ofInstructions is).length o t, s'⟩) := by
  obtain ⟨is, rest, s, rfl, hs, -, he⟩ := h
  by_cases hlt : k < is.length
  · have hsplit : is = is.take k ++ is[k] :: is.drop (k + 1) := by
      rw [← List.drop_eq_getElem_cons hlt, List.take_append_drop]
    rw [hsplit] at hs
    obtain ⟨u, hu, -⟩ := actAll_append_eq_ok.1 hs
    refine ⟨is.take k, u, List.length_take_of_le (Nat.le_of_lt hlt), hu,
      .inl ⟨is[k], ofInstructions (is.drop (k + 1)) ++ rest, ?_⟩⟩
    conv => lhs; rw [hsplit]
    rw [ofInstructions_append, ofInstructions_cons, List.append_assoc, List.append_assoc]
  · cases he with
    | finished => exact absurd hk hlt
    | literal => exact absurd hk hlt
    | stepLimit _ _ hl => cases hl
    | @trap o tail t s' _ ht =>
      have hlen : is.length = k := by omega
      exact ⟨is, s, hlen, hs, .inr ⟨o, tail, t, s', rfl, ht, rfl⟩⟩

theorem getElem?_rows_length_tokens (is : List Instruction) (i : Instruction) (rest : Program) :
    (rows (ofInstructions is ++ (i.tokens ++ rest)))[is.length]? = some (ofInstruction i) := by
  rw [getElem?_rows_length, rows_tokens_append, List.head?_cons]

/-- **A dispatched `PUSH` that is listed with a value** puts the value on the stack. -/
theorem Exec.stack_of_row_push {v : Word} (h : p.Exec s₀ none d r) (hk : k < d)
    (hrow : (rows p)[k]? = some (.push v)) (memory : Memory) (call : Call) :
    (p.runOn s₀ memory call (some (k + 1))).stack =
      (p.runOn s₀ memory call (some k)).stack.push v := by
  obtain ⟨is, s, rfl, hs, ⟨i, rest, rfl⟩ | ⟨o, tail, t, s', rfl, ht, -⟩⟩ := h.dispatch hk
  · rw [getElem?_rows_length_tokens] at hrow
    cases i with
    | plain => cases hrow
    | push w =>
      cases hrow
      exact stack_runOn_push memory call hs v rest
  · rw [getElem?_rows_length, ht.rows] at hrow
    cases hrow

/-- **A dispatched `PUSH` that is listed without a value** fails for that. -/
theorem Exec.error_of_row_push (h : p.Exec s₀ none d r) (hk : k < d)
    (hrow : (rows p)[k]? = some (.opcode .push)) :
    ∃ s, r = .error ⟨.invalidData (((rows p).take k).map (·.tokens.length)).sum, s⟩ := by
  obtain ⟨is, s, rfl, hs, ⟨i, rest, rfl⟩ | ⟨o, tail, t, s', rfl, ht, rfl⟩⟩ := h.dispatch hk
  · rw [getElem?_rows_length_tokens] at hrow
    cases i with
    | plain o ho =>
      cases hrow
      exact absurd rfl ho
    | push => cases hrow
  · rw [getElem?_rows_length, ht.rows] at hrow
    cases hrow
    rw [sum_rows_take, ht.of_push.1]
    exact ⟨s', rfl⟩

/-- **The machine and the listing cut a program into the same instructions.** Of the instructions
that a free run dispatches, each stands on the line of its number, and the tokens on the lines above
make up its position. A `PUSH` shows the value that it puts on the stack, unless it fails for want
of one. A run that succeeds has come through all lines; a literal in the place of an opcode is on
the line behind those of the dispatches; any other failure is that of the instruction on the last
of them. -/
theorem disassemble_run (p : Program) (memory : Memory) (call : Call) :
    let o := p.run memory call none
    let lines := Text.lines (disassemble p).toList
    (∀ k d, o.dispatched[k]? = some d → ∃ line, lines[k]? = some line ∧
      (Text.words line).head? = some d.opcode.mnemonic.toList ∧
      d.position = ((lines.take k).map lineTokens).sum ∧
      (d.opcode ≠ .push → line = d.opcode.mnemonic.toList) ∧
      (d.opcode = .push → (∀ s, o.result ≠ .error ⟨.invalidData d.position, s⟩) → ∃ v : Word,
        line = "PUSH ".toList ++ (toString v.toInt).toList ∧
        (p.run memory call (some (k + 1))).stack = (p.run memory call (some k)).stack.push v)) ∧
    (∀ s, o.result = .ok s → lines.length = o.dispatched.length) ∧
    (∀ n s, o.result = .error ⟨.invalidOpcode n, s⟩ → ∃ v : Word,
      lines[o.dispatched.length]? = some ("DATA 0x".toList ++ (Hex.ofBytes v.bytes).toList) ∧
        n = ((lines.take o.dispatched.length).map lineTokens).sum) ∧
    (∀ n s, o.result = .error ⟨.invalidData n, s⟩ → ∃ k, o.dispatched.length = k + 1 ∧
      lines[k]? = some "PUSH".toList) ∧
    ∀ f, o.result = .error f → (∀ n, f.error ≠ .invalidOpcode n) → ∃ k d t,
      o.dispatched.length = k + 1 ∧ o.dispatched[k]? = some d ∧
        f.error = .ofTrap d.position d.opcode t ∧ lines[k]? = some d.opcode.mnemonic.toList := by
  intro o lines
  have he : p.Exec .empty none o.dispatches o.result := p.exec_runOn .empty memory call none
  have hdispatched : o.dispatched = (p.agenda 0 Stack.empty.size).take o.dispatches :=
    p.dispatched_runOn .empty memory call none
  have hlength : o.dispatched.length = o.dispatches := o.length_dispatched
  have hline : ∀ {k : Nat} {row : Row}, (rows p)[k]? = some row →
      lines[k]? = some row.text.toList := fun hrow => by rw [getElem?_lines, hrow, Option.map_some]
  refine ⟨fun k d hd => ?_, fun s hr => ?_, fun n s hr => ?_, fun n s hr => ?_, fun f hr hf => ?_⟩
  · have hk : k < o.dispatches := hlength ▸ (List.getElem?_eq_some_iff.1 hd).1
    rw [hdispatched, List.getElem?_take_of_lt hk] at hd
    obtain ⟨row, hrow, hopcode, hposition⟩ := exists_row_of_agenda hd
    rw [Nat.zero_add] at hposition
    refine ⟨row.text.toList, hline hrow, head?_words_text hopcode,
      hposition.trans (sum_lineTokens p k).symm, ?_, ?_⟩
    · intro ho
      obtain rfl | ⟨hpush, -⟩ := hopcode
      · rfl
      · exact absurd hpush ho
    · intro ho hvalid
      obtain rfl | ⟨-, v, rfl⟩ := hopcode
      · rw [ho] at hrow
        obtain ⟨s, hs⟩ := he.error_of_row_push hk hrow
        exact absurd (hposition ▸ hs) (hvalid s)
      · exact ⟨v, Row.toList_text_push v, he.stack_of_row_push hk hrow memory call⟩
  · rw [hr] at he
    rw [hlength, ← he.length_rows_of_ok]
    show (Text.lines (disassemble p).toList).length = _
    rw [lines_disassemble, List.length_map]
  · rw [hr] at he
    obtain ⟨v, hv, hn⟩ | ⟨k, e, t, -, -, -, hn, -⟩ := he.row_of_error
    · cases hn
      rw [hlength]
      exact ⟨v, (hline hv).trans (congrArg some (Row.toList_text_data v)),
        (sum_lineTokens p o.dispatches).symm⟩
    · exact absurd hn.symm RuntimeError.ofTrap_ne_invalidOpcode
  · rw [hr] at he
    obtain ⟨v, -, hn⟩ | ⟨k, e, t, hd, -, hrow, hn, s', next?, ht⟩ := he.row_of_error
    · cases hn
    · obtain ⟨rfl, -⟩ := RuntimeError.ofTrap_eq_invalidData_iff.1 hn.symm
      rw [ht.eq_push] at hrow
      exact ⟨k, hlength.trans hd, hline hrow⟩
  · rw [hr] at he
    obtain ⟨v, -, hn⟩ | ⟨k, e, t, hd, hat, hrow, hn, -⟩ := he.row_of_error
    · exact absurd hn (hf _)
    · have hk : k < o.dispatches := hd ▸ Nat.lt_succ_self k
      refine ⟨k, e, t, hlength.trans hd, ?_, hn, hline hrow⟩
      rw [hdispatched, List.getElem?_take_of_lt hk, hat]

end Program

end StackVM
