import StackVM.Proofs.Sequencing

/-!
# Words that an instruction does not need

An instruction acts at the top of the stack. What lies below its operands is there afterwards, and
it makes no difference (`Effect.Framed`): on a higher stack the instruction does the same, also if
it fails, unless what it lacks are operands. This holds of popping, pushing and failing, it is kept
by doing one after the other, and so it holds of every opcode (`Opcode.framed_effect`), of
instructions in a row (`framed_actAll`) and of whole runs (`Program.Exec.above`).
-/

set_option autoImplicit false

namespace StackVM

/-! ## Stacks on stacks -/

namespace Stack

/-- The words of `t` on top of those of `s`. -/
def append (s t : Stack) : Stack := ⟨t.topFirst ++ s.topFirst⟩

instance : Append Stack := ⟨append⟩

@[simp] theorem append_empty (s : Stack) : s ++ empty = s := rfl

@[simp] theorem append_push (s t : Stack) (w : Word) : s ++ t.push w = (s ++ t).push w := rfl

end Stack

/-! ## Actions -/

/-- An action does the same above a stack that lies below, if it does not lack operands. -/
structure Effect.Framed {α : Type} (e : Effect α) : Prop where
  ok {s t : Stack} {a : α} (base : Stack) :
    e.run s = .ok a t → e.run (base ++ s) = .ok a (base ++ t)
  error {s t : Stack} {trap : Trap} (base : Stack) :
    e.run s = .error trap t → trap ≠ .stackUnderflow →
      e.run (base ++ s) = .error trap (base ++ t)

namespace Effect

variable {α β : Type}

theorem framed_pure (a : α) : Framed (pure a : Effect α) where
  ok _ h := by
    cases h
    rfl
  error _ h _ := by cases h

theorem framed_throw (trap : Trap) : Framed (throw trap : Effect α) where
  ok _ h := by cases h
  error _ h _ := by
    cases h
    rfl

theorem framed_push (w : Word) : Framed (push w) where
  ok _ h := by
    cases h
    rfl
  error _ h _ := by cases h

theorem framed_pop : Framed pop where
  ok {s t w} base h := by
    obtain rfl | ⟨r, x, rfl⟩ := s.eq_empty_or_push
    · cases h
    · cases h
      rw [Stack.append_push, run_pop_push]
  error {s t trap} base h hne := by
    obtain rfl | ⟨r, x, rfl⟩ := s.eq_empty_or_push
    · cases h
      exact absurd rfl hne
    · cases h

/-- **One after the other**: if the first action lacks operands, so does the whole. -/
theorem Framed.bind {e : Effect α} {g : α → Effect β} (he : e.Framed) (hg : ∀ a, (g a).Framed) :
    (e >>= g).Framed where
  ok {s t b} base h := by
    rw [EStateM.run_bind] at h ⊢
    rcases hs : e.run s with ⟨a, u⟩ | ⟨trap, u⟩
    · rw [hs] at h
      rw [he.ok base hs]
      exact (hg a).ok base h
    · rw [hs] at h
      cases h
  error {s t trap} base h hne := by
    rw [EStateM.run_bind] at h ⊢
    rcases hs : e.run s with ⟨a, u⟩ | ⟨trap', u⟩
    · rw [hs] at h
      rw [he.ok base hs]
      exact (hg a).error base h hne
    · rw [hs] at h
      cases h
      rw [he.error base hs hne]

theorem framed_discard_pop : (discard pop).Framed := framed_pop.bind fun _ => framed_pure ()

theorem framed_unary (f : Word → Word) : (unary f).Framed := framed_pop.bind fun _ => framed_push _

theorem framed_binary (f : Word → Word → Word) : (binary f).Framed :=
  framed_pop.bind fun _ => framed_pop.bind fun _ => framed_push _

/-- A division by zero has both operands, which it finds at the top. -/
theorem framed_division (part : Word × Word → Word) : (division part).Framed := by
  refine framed_pop.bind fun y => framed_pop.bind fun x => ?_
  rcases Word.divMod? x y with _ | parts
  · exact framed_throw _
  · exact framed_push _

theorem framed_literal (next? : Option Token) : (literal next?).Framed := by
  rcases next? with _ | ⟨o | v⟩
  · exact framed_throw _
  · exact framed_throw _
  · exact framed_push v

end Effect

open Effect

theorem Opcode.framed_effect (o : Opcode) (next? : Option Token) : (o.effect next?).Framed := by
  cases o with
  | add | mul | sub | lt | gt | eq => exact framed_binary _
  | div | mod => exact framed_division _
  | not => exact framed_unary _
  | pop => exact framed_discard_pop
  | push => exact framed_literal next?
  | mload | mstore => exact framed_throw _

theorem Instruction.framed_act (i : Instruction) : i.act.Framed := by
  cases i with
  | plain o _ => exact o.framed_effect none
  | push v => exact framed_push v

theorem framed_actAll (is : List Instruction) : (actAll is).Framed := by
  induction is with
  | nil => exact framed_pure ()
  | cons i is ih => exact i.framed_act.bind fun _ => ih

theorem Opcode.Traps.above {o : Opcode} {next? : Option Token} {s s' : Stack} {t : Trap}
    (h : o.Traps next? s t s') (ht : t ≠ .stackUnderflow) (base : Stack) :
    o.Traps next? (base ++ s) t (base ++ s') := by
  have hs := effect_of_traps h
  exact traps_of_effect ((o.framed_effect next?).error base hs ht)

/-! ## Runs -/

/-- The result of a run with the words of `base` below. -/
def resultAbove (base : Stack) : Except Failure Stack → Except Failure Stack
  | .ok s => .ok (base ++ s)
  | .error f => .error ⟨f.error, base ++ f.stack⟩

variable {limit : Option Nat} {s : Stack} {d : Nat} {r : Except Failure Stack}

theorem Ends.above {n position : Nat} {rest : Program}
    (h : Ends limit n position s rest d r)
    (hr : ∀ f m, r = .error f → f.error ≠ .stackUnderflow m) (base : Stack) :
    Ends limit n position (base ++ s) rest d (resultAbove base r) := by
  cases h with
  | finished => exact .finished
  | literal v rest => exact .literal v rest
  | stepLimit o rest hl hb => exact .stepLimit o rest hl hb
  | @trap o rest t s' hroom ht =>
    have hne : t ≠ .stackUnderflow := by
      rintro rfl
      exact hr _ position rfl rfl
    exact .trap hroom (ht.above hne base)

namespace Program

variable {p q : Program}

/-- **A run above other words** goes as it does without them, unless it lacks operands. -/
theorem Exec.above (h : p.Exec s limit d r)
    (hr : ∀ f m, r = .error f → f.error ≠ .stackUnderflow m) (base : Stack) :
    p.Exec (base ++ s) limit d (resultAbove base r) := by
  obtain ⟨is, rest, t, hp, his, hl, he⟩ := h
  exact ⟨is, rest, base ++ t, hp, (framed_actAll is).ok base his, hl, he.above hr base⟩

/-- A run of `q` behind `p`, by the run of `q` on the empty stack. -/
theorem Exec.append_above {d' : Nat} (hp : p.Exec .empty none d (.ok s))
    (hq : q.Exec .empty none d' r) (hr : ∀ f m, r = .error f → f.error ≠ .stackUnderflow m) :
    (p ++ q).Exec .empty none (d + d')
      ((resultAbove s r).mapError (Failure.after p.length none)) := by
  have hs := hq.above hr s
  rw [Stack.append_empty] at hs
  exact hp.append_of_ok hs

/-- **A program leaves alone what lies below.** Behind `p`, which leaves `s`, the program `q` does
on top of `s` what it does on the empty stack, if it does not lack operands there: it leaves its
words on top of `s`, or fails with them on top of `s`, at its position behind `p`. -/
theorem run_append_above (p q : Program) (memory : Memory) (call : Call) :
    (∀ s t, (p.run memory call none).result = .ok s → (q.run memory call none).result = .ok t →
      ((p ++ q).run memory call none).result = .ok (s ++ t)) ∧
    (∀ s t e, (p.run memory call none).result = .ok s →
      (q.run memory call none).result = .error ⟨e, t⟩ → (∀ n, e ≠ .stackUnderflow n) →
      ((p ++ q).run memory call none).result = .error ⟨e.after p.length none, s ++ t⟩) := by
  refine ⟨fun s t hp hq => ?_, fun s t e hp hq he => ?_⟩
  · obtain ⟨d, hp⟩ := exec_of_result hp
    obtain ⟨d', hq⟩ := exec_of_result hq
    have hr : ∀ f m, (.ok t : Except Failure Stack) = .error f → f.error ≠ .stackUnderflow m := by
      rintro f m ⟨⟩
    exact ((hp.append_above hq hr).runOn memory call).1
  · obtain ⟨d, hp⟩ := exec_of_result hp
    obtain ⟨d', hq⟩ := exec_of_result hq
    have hr : ∀ f m, (.error ⟨e, t⟩ : Except Failure Stack) = .error f →
        f.error ≠ .stackUnderflow m := by
      rintro f m ⟨⟩
      exact he m
    exact ((hp.append_above hq hr).runOn memory call).1

theorem run_append_above_division :
    (run (Token.push 5) (.zeroed 0) {} none).result = .ok (.ofList [5]) ∧
    (run (Token.push 7 ++ Token.push 0 ++ [.op .div]) (.zeroed 0) {} none).result =
      .error ⟨.divisionByZero 4, .empty⟩ ∧
    (∀ n, RuntimeError.divisionByZero 4 ≠ .stackUnderflow n) ∧
    (run (Token.push 5 ++ (Token.push 7 ++ Token.push 0 ++ [.op .div])) (.zeroed 0) {}
      none).result = .error ⟨.divisionByZero 6, .ofList [5]⟩ := by
  have hp : (run (Token.push 5) (.zeroed 0) {} none).result = .ok (.ofList [5]) := by cbv
  have hq : (run (Token.push 7 ++ Token.push 0 ++ [.op .div]) (.zeroed 0) {} none).result =
      .error ⟨.divisionByZero 4, .empty⟩ := by cbv
  have hne : ∀ n, RuntimeError.divisionByZero 4 ≠ .stackUnderflow n := by simp
  exact ⟨hp, hq, hne, (run_append_above _ _ (.zeroed 0) {}).2 _ _ _ hp hq hne⟩

end Program

end StackVM
