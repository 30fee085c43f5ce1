import StackVM.Token

/-!
# Cursors

A cursor is a place in a program: the number of tokens behind it and the tokens from it on.
Advancing moves one token on; at the end it stays where it is (`Cursor.advance_cons`,
`Cursor.advance_nil`).
-/

set_option autoImplicit false

namespace StackVM

/-- A place in a program: how many tokens lie behind, and those from it on. -/
structure Cursor where
  position : Nat
  ahead : List Token
  deriving DecidableEq, Repr

namespace Cursor

def start (p : Program) : Cursor := ⟨0, p⟩

/-- The token under the cursor; there is none at the end. -/
def current? (c : Cursor) : Option Token := c.ahead.head?

/-- The cursor one token on, or the same cursor at the end. -/
def advance (c : Cursor) : Cursor :=
  match c.ahead with
  | [] => c
  | _ :: ahead => ⟨c.position + 1, ahead⟩

def isExhausted (c : Cursor) : Bool := c.ahead.isEmpty

@[simp] theorem advance_nil (n : Nat) : advance ⟨n, []⟩ = ⟨n, []⟩ := rfl

@[simp] theorem advance_cons (n : Nat) (t : Token) (ts : List Token) :
    advance ⟨n, t :: ts⟩ = ⟨n + 1, ts⟩ := rfl

@[simp] theorem ahead_advance (c : Cursor) : c.advance.ahead = c.ahead.tail := by
  rcases c with ⟨n, _ | ⟨t, ts⟩⟩ <;> rfl

theorem isExhausted_iff {c : Cursor} : c.isExhausted ↔ c.current? = none := by
  simp [isExhausted, current?]

end Cursor

end StackVM
