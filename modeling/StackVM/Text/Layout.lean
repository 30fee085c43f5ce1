/-!
# Lines and words

`Text.lines` cuts a text into lines and `Text.words` a line into words. A line ends at a line feed,
and a carriage return right before the line feed belongs to the end; what follows the last line feed
is a line only if it is not empty. A word is a longest run of characters that are not blank.

Both work through the text from its end, putting one character after the other in front: `consCut`
and `extendRun` say what that does to the lines and to the words.
-/

set_option autoImplicit false

namespace StackVM.Text

/-! ## Lines -/

/-- Puts a character in front of a text that is cut after each line feed. -/
def consCut (c : Char) (pieces : List (List Char)) : List (List Char) :=
  if c = '\n' then [c] :: pieces
  else match pieces with
    | [] => [[c]]
    | piece :: pieces => (c :: piece) :: pieces

/-- Drops the end of a line: a line feed, with the carriage return before it if there is one. -/
def dropLineEnd (line : List Char) : List Char :=
  match line.reverse with
  | '\n' :: '\r' :: rest => rest.reverse
  | '\n' :: rest => rest.reverse
  | _ => line

/-- The lines of a text, without their ends. -/
def lines (text : List Char) : List (List Char) := (text.foldr consCut []).map dropLineEnd

/-! ## Words -/

def isBlank (c : Char) : Bool :=
  let n := c.toNat
  (0x09 ≤ n && n ≤ 0x0D) || n == 0x20 || n == 0x85 || n == 0xA0 || n == 0x1680 ||
    (0x2000 ≤ n && n ≤ 0x200A) || n == 0x2028 || n == 0x2029 || n == 0x202F || n == 0x205F ||
    n == 0x3000

/-- Puts a run in front of others, unless it is empty. -/
def consRun (run : List Char) (runs : List (List Char)) : List (List Char) :=
  if run.isEmpty then runs else run :: runs

/-- Puts a character in front of a text that starts with `run`, perhaps empty, and goes on with a
separator and `runs`. -/
def extendRun (separates : Char → Bool) (c : Char) :
    List Char × List (List Char) → List Char × List (List Char)
  | (run, runs) => if separates c then ([], consRun run runs) else (c :: run, runs)

/-- The longest runs of characters of a text that do not separate. -/
def runs (separates : Char → Bool) (text : List Char) : List (List Char) :=
  let (run, runs) := text.foldr (extendRun separates) ([], [])
  consRun run runs

def words (line : List Char) : List (List Char) := runs isBlank line

end StackVM.Text
