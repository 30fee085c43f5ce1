import StackVM.Text.Hex
import StackVM.Text.Layout
import StackVM.Text.Numeral
import StackVM.Text.UpperCase

/-!
# Lexemes of assembly text

Each word of a line stands for a name or a number, told apart by how the word starts:
`Lexeme.ofWord?` refuses a word that starts like a number and is none. `Lexeme.text` prints a lexeme
in the one spelling that error messages use.
-/

set_option autoImplicit false

namespace StackVM.Assembly

inductive Lexeme where
  | name (text : String)
  | decimal (value : Int)
  | hex (value : Nat)
  deriving DecidableEq, Repr

namespace Lexeme

/-- Whether a word starts like a decimal number: with a digit after an optional minus sign. -/
def startsDecimal : List Char → Bool
  | '-' :: c :: _ => c.isDigit
  | c :: _ => c.isDigit
  | [] => false

/-- The hexadecimal number that is written with these digits after `0x`. -/
def hex? (digits : List Char) : Option Lexeme :=
  ((Numeral.unsigned? 16 digits).filter (· < 0x10000000000000000)).map hex

def decimal? (word : List Char) : Option Lexeme :=
  ((Numeral.signed? 10 word).filter fun n =>
    -0x8000000000000000 ≤ n ∧ n < 0x8000000000000000).map decimal

/-- What a word stands for; nothing if it starts like a number and is none. -/
def ofWord? : List Char → Option Lexeme
  | '0' :: 'x' :: digits => hex? digits
  | '0' :: 'X' :: digits => hex? digits
  | word =>
    if startsDecimal word then decimal? word else some (name (String.ofList (Text.upper word)))

/-- The lexeme as it is printed: names in upper case, numbers without leading zeros. -/
def text : Lexeme → String
  | name text => text
  | decimal value => toString value
  | hex value => s!"0x{Hex.ofNat value}"

end Lexeme

end StackVM.Assembly
