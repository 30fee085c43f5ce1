import StackVM.Text.UpperCase.Table

/-!
# Upper case

`Text.upper` maps a text to upper case letter by letter, by the table of the full mapping, so that a
text can become longer.
-/

set_option autoImplicit false

namespace StackVM.Text

def upperCode (n : Nat) : List Nat :=
  match caseRuns.find? (·.covers n) with
  | some r => [((n : Int) + r.offset).toNat]
  | none => (caseExpansions.lookup n).getD [n]

def upperChar (c : Char) : List Char := (upperCode c.toNat).map Char.ofNat

def upper (text : List Char) : List Char := text.flatMap upperChar

@[simp] theorem upper_nil : upper [] = [] := rfl

@[simp] theorem upper_cons (c : Char) (cs : List Char) :
    upper (c :: cs) = upperChar c ++ upper cs := by
  simp [upper]

@[simp] theorem upper_append (cs ds : List Char) : upper (cs ++ ds) = upper cs ++ upper ds := by
  simp [upper]

end StackVM.Text
