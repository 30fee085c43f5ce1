import StackVM.Proofs.Sequencing

/-!
# Expressions in postfix order

The code of an expression (`Expr.code`) has the operands of each operator before it. Run on any
stack, it leaves the value of the expression on top of what was there (`exec_code_of_value?`).
Values are defined by recursion on the expression, with the operands in the order in which they are
written; the only way not to have one is a division by zero.

Where that happens is read off the expression alone. `Expr.sites` lists the binary operators in
postfix order, each with the position of its token and with the left operands that wait on the
stack while its own operands are evaluated. The run fails at the first of them that divides by zero,
and leaves the values that were waiting there (`exec_code_of_find?`).
-/

set_option autoImplicit false

namespace StackVM

inductive Operator where
  | add
  | sub
  | mul
  | div
  | mod
  | lt
  | gt
  | eq
  deriving DecidableEq, Repr

namespace Operator

def opcode : Operator → Opcode
  | add => .add
  | sub => .sub
  | mul => .mul
  | div => .div
  | mod => .mod
  | lt => .lt
  | gt => .gt
  | eq => .eq

/-- The operators that are not defined where the right operand is zero. -/
def divides : Operator → Bool
  | div | mod => true
  | _ => false

/-- The operator with `x` on its left and `y` on its right. -/
def value? (x y : Word) : Operator → Option Word
  | add => some (x + y)
  | sub => some (x - y)
  | mul => some (x * y)
  | div => (Word.divMod? x y).map Prod.fst
  | mod => (Word.divMod? x y).map Prod.snd
  | lt => some (if x < y then 1 else 0)
  | gt => some (if x > y then 1 else 0)
  | eq => some (if x = y then 1 else 0)

variable {o : Operator} {x y v : Word}

theorem opcode_ne_push (o : Operator) : o.opcode ≠ .push := by
  cases o <;> decide

theorem value?_eq_none_iff : o.value? x y = none ↔ o.divides ∧ y = 0 := by
  cases o <;> simp [value?, divides]

theorem opcode_of_divides (h : o.divides) : o.opcode = .div ∨ o.opcode = .mod := by
  cases o <;> simp [divides, opcode] at h ⊢

/-- **The opcode of an operator** puts its value in the place of the operands, the right one of
which is on top. -/
theorem effect_opcode (h : o.value? x y = some v) (s : Stack) :
    (o.opcode.effect none).run ((s.push x).push y) = .ok () (s.push v) := by
  cases o with
  | add | sub | mul =>
    cases h
    rfl
  | lt | gt =>
    cases h
    rw [opcode, Opcode.effect, Effect.run_binary_push_push, Word.ofBool_decide]
  | eq =>
    cases h
    rw [opcode, Opcode.effect, Effect.run_binary_push_push, Word.ofBool_beq]
  | div | mod =>
    obtain ⟨parts, hparts, rfl⟩ := Option.map_eq_some_iff.1 h
    simp only [opcode, Opcode.effect, Effect.run_division_push_push, hparts]

end Operator

inductive Expr where
  | literal (v : Word)
  | not (operand : Expr)
  | binary (operator : Operator) (left right : Expr)
  deriving DecidableEq, Repr

/-- A binary operator in an expression: its right operand, the position of its token in the code,
and the left operands of the operators around it in whose right operand it lies, the outermost
first. -/
structure Site where
  operator : Operator
  right : Expr
  position : Nat
  waiting : List Expr
  deriving DecidableEq, Repr

namespace Expr

def code : Expr → Program
  | literal v => Token.push v
  | not e => e.code ++ [.op .not]
  | binary o l r => l.code ++ r.code ++ [.op o.opcode]

/-- The value of an expression, if no divisor in it is zero. -/
def value? : Expr → Option Word
  | literal v => some v
  | not e => e.value?.map (~~~ ·)
  | binary o l r => l.value?.bind fun x => r.value?.bind fun y => o.value? x y

/-- The binary operators of an expression in postfix order, where its code stands at position `n`
behind the code of the operands `waiting`. -/
def sites (n : Nat) (waiting : List Expr) : Expr → List Site
  | literal _ => []
  | not e => e.sites n waiting
  | binary o l r =>
    l.sites n waiting ++ r.sites (n + l.code.length) (waiting ++ [l]) ++
      [⟨o, r, n + l.code.length + r.code.length, waiting⟩]

end Expr

/-- Whether the operator divides and its right operand has the value zero. -/
def Site.dividesByZero (site : Site) : Bool :=
  site.operator.divides && site.right.value? == some 0

theorem Site.dividesByZero_iff {site : Site} :
    site.dividesByZero ↔ site.operator.divides ∧ site.right.value? = some 0 := by
  simp [Site.dividesByZero]

/-! ## Single opcodes -/

namespace Program

variable {o : Opcode} {s s' : Stack} {t : Trap}

theorem exec_op_of_effect (ho : o ≠ .push) (h : (o.effect none).run s = .ok () s') :
    Exec [.op o] s none 1 (.ok s') := by
  have hs : (actAll [.plain o ho]).run s = .ok () s' := actAll_cons_eq_ok.2 ⟨s', h, rfl⟩
  exact exec_ofInstructions hs

theorem exec_op_of_traps (h : o.Traps none s t s') :
    Exec [.op o] s none 1 (.error ⟨.ofTrap 0 o t, s'⟩) := by
  refine ⟨[], [.op o], s, rfl, rfl, ?_, .trap ?_ h⟩
  · intro b hb
    cases hb
  · intro b hb
    cases hb

theorem exec_push (v : Word) (s : Stack) : Exec (Token.push v) s none 1 (.ok (s.push v)) := by
  have hs : (actAll [.push v]).run s = .ok () (s.push v) := actAll_cons_eq_ok.2 ⟨_, rfl, rfl⟩
  exact exec_ofInstructions hs

/-- A division by zero is not mended by tokens behind it. -/
theorem Exec.append_of_divisionByZero {p : Program} {d n : Nat}
    (h : p.Exec s none d (.error ⟨.divisionByZero n, s'⟩)) (q : Program) :
    (p ++ q).Exec s none d (.error ⟨.divisionByZero n, s'⟩) := by
  refine h.append_of_error fun m hm => ?_
  cases hm

end Program

namespace Expr

open Program

/-! ## Values -/

/-- **The code of an expression** leaves its value on top of the stack. -/
theorem exec_code_of_value? {e : Expr} {v : Word} (h : e.value? = some v) (s : Stack) :
    ∃ d, e.code.Exec s none d (.ok (s.push v)) := by
  induction e generalizing v s with
  | literal w =>
    cases h
    exact ⟨1, exec_push w s⟩
  | not e ih =>
    obtain ⟨x, hx, rfl⟩ := Option.map_eq_some_iff.1 h
    obtain ⟨d, hd⟩ := ih hx s
    exact ⟨d + 1, hd.append_of_ok (exec_op_of_effect (by decide) rfl)⟩
  | binary o l r ihl ihr =>
    obtain ⟨x, hx, h⟩ := Option.bind_eq_some_iff.1 h
    obtain ⟨y, hy, h⟩ := Option.bind_eq_some_iff.1 h
    obtain ⟨d, hl⟩ := ihl hx s
    obtain ⟨d', hr⟩ := ihr hy (s.push x)
    have hoperands : (l.code ++ r.code).Exec s none (d + d') (.ok ((s.push x).push y)) :=
      hl.append_of_ok hr
    have hop : Exec [.op o.opcode] ((s.push x).push y) none 1 (.ok (s.push v)) :=
      exec_op_of_effect o.opcode_ne_push (o.effect_opcode h s)
    exact ⟨d + d' + 1, hoperands.append_of_ok hop⟩

/-- **An expression has a value** if none of its operators divides by zero. -/
theorem exists_value?_of_find? {e : Expr} {n : Nat} {waiting : List Expr}
    (h : (e.sites n waiting).find? Site.dividesByZero = none) : ∃ v, e.value? = some v := by
  induction e generalizing n waiting with
  | literal v => exact ⟨v, rfl⟩
  | not e ih =>
    obtain ⟨v, hv⟩ := ih h
    exact ⟨~~~ v, by rw [value?, hv]; rfl⟩
  | binary o l r ihl ihr =>
    simp only [sites, List.find?_append, Option.or_eq_none_iff] at h
    obtain ⟨⟨hl, hr⟩, hhere⟩ := h
    obtain ⟨x, hx⟩ := ihl hl
    obtain ⟨y, hy⟩ := ihr hr
    have hzero : o.value? x y ≠ none := by
      intro hnone
      obtain ⟨hdiv, rfl⟩ := Operator.value?_eq_none_iff.1 hnone
      simp [Site.dividesByZero, hdiv, hy] at hhere
    obtain ⟨v, hv⟩ := Option.ne_none_iff_exists'.1 hzero
    exact ⟨v, by rw [value?, hx, Option.bind_some, hy, Option.bind_some, hv]⟩

/-! ## Divisions by zero -/

/-- **The token of a site** stands in the code where the site says. -/
theorem getElem?_of_mem_sites {e : Expr} {n : Nat} {waiting : List Expr} {site : Site}
    (h : site ∈ e.sites n waiting) :
    ∃ k, site.position = n + k ∧ e.code[k]? = some (.op site.operator.opcode) := by
  have hfront : ∀ {p : Program} {k : Nat} {t : Token} (q : Program), p[k]? = some t →
      (p ++ q)[k]? = some t := by
    intro p k t q hk
    rw [List.getElem?_append_left (List.getElem?_eq_some_iff.1 hk).1, hk]
  induction e generalizing n waiting with
  | literal v => cases h
  | not e ih =>
    obtain ⟨k, hpos, hk⟩ := ih h
    exact ⟨k, hpos, hfront _ hk⟩
  | binary o l r ihl ihr =>
    simp only [sites, List.mem_append, List.mem_singleton] at h
    obtain (hl | hr) | rfl := h
    · obtain ⟨k, hpos, hk⟩ := ihl hl
      exact ⟨k, hpos, hfront _ (hfront _ hk)⟩
    · obtain ⟨k, hpos, hk⟩ := ihr hr
      refine ⟨l.code.length + k, by omega, hfront _ ?_⟩
      rw [List.getElem?_append_right (Nat.le_add_right _ _), Nat.add_sub_cancel_left, hk]
    · refine ⟨(l.code ++ r.code).length, ?_, ?_⟩
      · rw [List.length_append, ← Nat.add_assoc]
      · rw [code, List.getElem?_concat_length]

/-- **The first site that divides by zero** is where the run fails, on top of the values that wait
there. -/
theorem exec_code_of_find? {e : Expr} {n : Nat} {waiting : List Expr} {ws : List Word}
    {site : Site} (hws : waiting.mapM value? = some ws)
    (h : (e.sites n waiting).find? Site.dividesByZero = some site) :
    ∃ k us d, site.position = n + k ∧ site.waiting.mapM value? = some us ∧
      e.code.Exec (.ofList ws) none d (.error ⟨.divisionByZero k, .ofList us⟩) := by
  induction e generalizing n waiting ws with
  | literal v => cases h
  | not e ih =>
    obtain ⟨k, us, d, hpos, hus, he⟩ := ih hws h
    exact ⟨k, us, d, hpos, hus, he.append_of_divisionByZero _⟩
  | binary o l r ihl ihr =>
    simp only [sites, List.find?_append, Option.or_eq_some_iff, Option.or_eq_none_iff] at h
    obtain (hl | ⟨hl, hr⟩) | ⟨⟨hl, hr⟩, hhere⟩ := h
    · obtain ⟨k, us, d, hpos, hus, he⟩ := ihl hws hl
      exact ⟨k, us, d, hpos, hus, (he.append_of_divisionByZero _).append_of_divisionByZero _⟩
    · -- The left operand has a value, which waits below the right one.
      obtain ⟨x, hx⟩ := exists_value?_of_find? hl
      have hwaiting : (waiting ++ [l]).mapM value? = some (ws ++ [x]) := by
        simp [List.mapM_append, hws, hx]
      obtain ⟨k, us, d', hpos, hus, he⟩ := ihr hwaiting hr
      obtain ⟨d, hleft⟩ := exec_code_of_value? hx (.ofList ws)
      have hstack : (Stack.ofList ws).push x = .ofList (ws ++ [x]) := by
        simp [Stack.ofList, Stack.push]
      rw [hstack] at hleft
      refine ⟨l.code.length + k, us, d + d', by omega, hus, ?_⟩
      exact Exec.append_of_divisionByZero (hleft.append_of_ok he) _
    · obtain ⟨x, hx⟩ := exists_value?_of_find? hl
      simp only [List.find?_singleton] at hhere
      split at hhere
      · next hdiv =>
        cases hhere
        obtain ⟨hop, hy⟩ := Site.dividesByZero_iff.1 hdiv
        obtain ⟨d, hleft⟩ := exec_code_of_value? hx (.ofList ws)
        obtain ⟨d', hright⟩ := exec_code_of_value? hy ((Stack.ofList ws).push x)
        have htrap : Exec [.op o.opcode] (((Stack.ofList ws).push x).push 0) none 1
            (.error ⟨.divisionByZero 0, .ofList ws⟩) :=
          exec_op_of_traps (.divisionByZero (Operator.opcode_of_divides hop) rfl)
        refine ⟨(l.code ++ r.code).length, ws, d + d' + 1, ?_, hws, ?_⟩
        · rw [List.length_append, Nat.add_assoc]
        · exact Exec.append_of_ok (hleft.append_of_ok hright) htrap
      · cases hhere

/-- **Postfix evaluation.** From the empty stack the code of an expression runs to the value of the
expression, if none of its operators divides by zero. Otherwise it fails at the token of the first
one in postfix order that does, with the values of the left operands of the operators around it in
whose right operand it lies. -/
theorem run_code (e : Expr) (memory : Memory) (call : Call) :
    ((e.sites 0 []).find? Site.dividesByZero = none →
      ∃ v, e.value? = some v ∧ (e.code.run memory call none).result = .ok (.ofList [v])) ∧
    ∀ site, (e.sites 0 []).find? Site.dividesByZero = some site →
      e.code[site.position]? = some (.op site.operator.opcode) ∧
      ∃ ws, site.waiting.mapM value? = some ws ∧
        (e.code.run memory call none).result =
          .error ⟨.divisionByZero site.position, .ofList ws⟩ := by
  refine ⟨fun h => ?_, fun site h => ?_⟩
  · obtain ⟨v, hv⟩ := exists_value?_of_find? h
    obtain ⟨d, he⟩ := exec_code_of_value? hv .empty
    exact ⟨v, hv, (he.runOn memory call).1⟩
  · obtain ⟨k, hpos, hk⟩ := getElem?_of_mem_sites (List.mem_of_find?_eq_some h)
    have hwaiting : ([] : List Expr).mapM value? = some [] := rfl
    obtain ⟨k', ws, d, hpos', hws, he⟩ := exec_code_of_find? hwaiting h
    rw [Nat.zero_add] at hpos hpos'
    rw [hpos']
    exact ⟨by rw [← hpos', hpos, hk], ws, hws, (he.runOn memory call).1⟩

theorem run_code_differences :
    let zero := binary .sub (literal 2) (literal 2)
    let fails := binary .sub (literal 5) (binary .div (literal 7) zero)
    let site := Site.mk .div zero 9 [literal 5]
    let succeeds := binary .sub (literal 5) (binary .mod (literal (-7)) (literal 2))
    (fails.sites 0 []).find? Site.dividesByZero = some site ∧
    (fails.code.run (.zeroed 0) {} none).result = .error ⟨.divisionByZero 9, .ofList [5]⟩ ∧
    (succeeds.sites 0 []).find? Site.dividesByZero = none ∧
    (succeeds.code.run (.zeroed 0) {} none).result = .ok (.ofList [4]) := by
  intro zero fails site succeeds
  have hfails : (fails.sites 0 []).find? Site.dividesByZero = some site := by decide
  have hsucceeds : (succeeds.sites 0 []).find? Site.dividesByZero = none := by decide
  obtain ⟨-, ws, hws, hresult⟩ := (run_code fails (.zeroed 0) {}).2 site hfails
  obtain ⟨v, hv, hresult'⟩ := (run_code succeeds (.zeroed 0) {}).1 hsucceeds
  have hfive : site.waiting.mapM value? = some [5] := by decide
  have hfour : succeeds.value? = some 4 := by decide
  rw [hfive] at hws
  rw [hfour] at hv
  cases hws
  cases hv
  exact ⟨hfails, hresult, hsucceeds, hresult'⟩

end Expr

end StackVM
