import Mathlib.Data.Int.ModEq
import StackVM.Proofs.Postfix

/-!
# Arithmetic without division

Expressions over `ADD`, `SUB`, `MUL` and `NOT` have a value over the integers too, which no bound
applies to (`RingExpr.exact`). The machine reduces the result of every operator to a word, and it
does not matter that it does so at every step: turning an integer into a word respects the operators
(`value?_toExpr`), so that the code of an expression leaves the word of its exact value. Overflows
on the way, in whichever direction and however many, cancel out.
-/

set_option autoImplicit false

namespace StackVM

/-! ## Integers as words -/

namespace Word

theorem ofInt_complement (k : Int) : Int32.ofInt (-k - 1) = ~~~ Int32.ofInt k := by
  rw [Int32.ofInt_sub, Int32.ofInt_neg, Int32.not_eq_neg_sub]
  rfl

/-- **The word of an integer** is the one in its class modulo `0x100000000`, read as signed. -/
theorem toInt_ofInt_eq_iff {a k : Int} :
    (Int32.ofInt a).toInt = k ↔
      -0x80000000 ≤ k ∧ k ≤ 0x7FFFFFFF ∧ k ≡ a [ZMOD 0x100000000] := by
  have hsize : 0 < Int32.size := by decide
  rw [Int32.toInt_ofInt, Int.bmod_eq_iff hsize, Int.modEq_comm, Int.modEq_iff_dvd]
  have hlow : -((Int32.size : Int) / 2) = -0x80000000 := by decide
  have hhigh : ((Int32.size : Int) + 1) / 2 = 0x7FFFFFFF + 1 := by decide
  rw [hlow, hhigh, Int.lt_add_one_iff]
  rfl

end Word

/-! ## Expressions -/

theorem Expr.value?_binary {o : Operator} {l r : Expr} {x y : Word} (hl : l.value? = some x)
    (hr : r.value? = some y) : (binary o l r).value? = o.value? x y := by
  rw [Expr.value?, hl, Option.bind_some, hr, Option.bind_some]

/-- Expressions of which all operators are defined on the integers. -/
inductive RingExpr where
  | literal (v : Word)
  | not (operand : RingExpr)
  | add (left right : RingExpr)
  | sub (left right : RingExpr)
  | mul (left right : RingExpr)
  deriving DecidableEq, Repr

namespace RingExpr

def toExpr : RingExpr → Expr
  | literal v => .literal v
  | not e => .not e.toExpr
  | add l r => .binary .add l.toExpr r.toExpr
  | sub l r => .binary .sub l.toExpr r.toExpr
  | mul l r => .binary .mul l.toExpr r.toExpr

/-- The value of an expression over the integers. -/
def exact : RingExpr → Int
  | literal v => v.toInt
  | not e => -e.exact - 1
  | add l r => l.exact + r.exact
  | sub l r => l.exact - r.exact
  | mul l r => l.exact * r.exact

/-- **The value of an expression over words** is the word of its value over the integers. -/
theorem value?_toExpr (e : RingExpr) : e.toExpr.value? = some (.ofInt e.exact) := by
  induction e with
  | literal v => rw [toExpr, Expr.value?, exact, Int32.ofInt_toInt]
  | not e ih => rw [toExpr, Expr.value?, ih, Option.map_some, exact, Word.ofInt_complement]
  | add l r ihl ihr =>
    rw [toExpr, Expr.value?_binary ihl ihr, Operator.value?, exact, Int32.ofInt_add]
  | sub l r ihl ihr =>
    rw [toExpr, Expr.value?_binary ihl ihr, Operator.value?, exact, Int32.ofInt_sub]
  | mul l r ihl ihr =>
    rw [toExpr, Expr.value?_binary ihl ihr, Operator.value?, exact, Int32.ofInt_mul]

/-- **Wrapping at every step is wrapping once.** From the empty stack the code of an expression
without division succeeds with one word, the only one that is congruent to the exact value of the
expression. -/
theorem run_code_wraps_once (e : RingExpr) (memory : Memory) (call : Call) :
    ∃ v, (e.toExpr.code.run memory call none).result = .ok (.ofList [v]) ∧
      ∀ k : Int, v.toInt = k ↔
        -0x80000000 ≤ k ∧ k ≤ 0x7FFFFFFF ∧ k ≡ e.exact [ZMOD 0x100000000] := by
  obtain ⟨d, hd⟩ := Expr.exec_code_of_value? e.value?_toExpr .empty
  exact ⟨_, (hd.runOn memory call).1, fun k => Word.toInt_ofInt_eq_iff⟩

end RingExpr

end StackVM
