import StackVM.Text.Hex
import StackVM.Token

/-!
# Listings

The listing of a program is its canonical text, one row a line: each instruction in the spelling
that assembly text reads back, `PUSH` with its literal in decimal. Tokens that form no instruction
are listed too: a literal that no `PUSH` takes as `DATA` with its bytes, and a `PUSH` that has no
literal by itself. So a listing shows every token, and shows it once (`tokens_rows`).
-/

set_option autoImplicit false

namespace StackVM.Listing

/-- One row of a listing. A `PUSH` that has no literal is listed like a single opcode. -/
inductive Row where
  | opcode (opcode : Opcode)
  | push (value : Word)
  | data (value : Word)
  deriving DecidableEq, Repr

def Row.text : Row → String
  | opcode o => o.mnemonic
  | push v => s!"{Opcode.push.mnemonic} {v}"
  | data v => s!"DATA 0x{Hex.ofBytes v.bytes}"

def Row.tokens : Row → Program
  | opcode o => [.op o]
  | push v => Token.push v
  | data v => [.data v]

/-- The rows of a token that the rows of the tokens after it follow. A `PUSH` takes the literal that
stands right after it. -/
def consRow : Token → List Row → List Row
  | .op .push, .data v :: rows => .push v :: rows
  | .op o, rows => .opcode o :: rows
  | .data v, rows => .data v :: rows

def rows (p : Program) : List Row := p.foldr consRow []

/-- The text of a program: its rows, each with a line feed after it. -/
def disassemble (p : Program) : String := String.join ((rows p).map fun row => row.text ++ "\n")

@[simp] theorem rows_nil : rows [] = [] := rfl

@[simp] theorem rows_cons (t : Token) (p : Program) : rows (t :: p) = consRow t (rows p) := rfl

theorem tokens_consRow (t : Token) (rs : List Row) :
    (consRow t rs).flatMap Row.tokens = t :: rs.flatMap Row.tokens := by
  unfold consRow
  split <;> simp [Row.tokens, Token.push]

/-- The rows show every token once, in order. -/
@[simp] theorem tokens_rows (p : Program) : (rows p).flatMap Row.tokens = p := by
  induction p with
  | nil => rfl
  | cons t p ih => rw [rows_cons, tokens_consRow, ih]

end StackVM.Listing
