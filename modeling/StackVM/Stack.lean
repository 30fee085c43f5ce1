import StackVM.Word

/-!
# The operand stack

A stack is read through `Stack.toList`, its words from the bottom to the top. The lemmas of this
module say what each operation does to that list: pushing appends to it, popping takes its last
word off.
-/

set_option autoImplicit false

namespace StackVM

/-- A last-in, first-out store of words, the top one first. -/
structure Stack where
  topFirst : List Word
  deriving DecidableEq, Repr

namespace Stack

def empty : Stack := ⟨[]⟩

/-- The words from the bottom to the top. -/
def toList (s : Stack) : List Word := s.topFirst.reverse

def ofList (ws : List Word) : Stack := ⟨ws.reverse⟩

def push (s : Stack) (w : Word) : Stack := ⟨w :: s.topFirst⟩

/-- The top word and the stack under it. -/
def pop? (s : Stack) : Option (Word × Stack) :=
  match s.topFirst with
  | [] => none
  | w :: rest => some (w, ⟨rest⟩)

def peek? (s : Stack) : Option Word := s.topFirst.head?

def size (s : Stack) : Nat := s.topFirst.length

def isEmpty (s : Stack) : Bool := s.topFirst.isEmpty

/-- The words from the bottom to the top, between brackets and with commas. -/
def text (s : Stack) : String :=
  "[" ++ ", ".intercalate (s.toList.map toString) ++ "]"

/-- A stack is empty or has a word on top. -/
theorem eq_empty_or_push (s : Stack) : s = empty ∨ ∃ t w, s = push t w := by
  rcases s with ⟨_ | ⟨w, ws⟩⟩
  · exact .inl rfl
  · exact .inr ⟨⟨ws⟩, w, rfl⟩

/-! ## Operations through the list of words -/

@[simp] theorem toList_empty : empty.toList = [] := rfl

@[simp] theorem toList_ofList (ws : List Word) : (ofList ws).toList = ws := by
  simp [ofList, toList]

@[simp] theorem ofList_toList (s : Stack) : ofList s.toList = s := by
  simp [ofList, toList]

theorem toList_inj {s t : Stack} : s.toList = t.toList ↔ s = t :=
  ⟨fun h => by rw [← ofList_toList s, h, ofList_toList], congrArg _⟩

@[simp] theorem toList_push (s : Stack) (w : Word) : (s.push w).toList = s.toList ++ [w] := by
  simp [push, toList]

theorem pop?_eq_some_iff {s t : Stack} {w : Word} :
    s.pop? = some (w, t) ↔ s.toList = t.toList ++ [w] := by
  rw [← toList_push, toList_inj]
  cases s with | mk ws => cases t with | mk us => cases ws <;> simp [pop?, push]

@[simp] theorem pop?_push (s : Stack) (w : Word) : (s.push w).pop? = some (w, s) := rfl

theorem pop?_eq_none_iff {s : Stack} : s.pop? = none ↔ s.toList = [] := by
  cases s with | mk ws => cases ws <;> simp [pop?, toList]

theorem peek?_eq_getLast? (s : Stack) : s.peek? = s.toList.getLast? := by
  simp [peek?, toList]

@[simp] theorem length_toList (s : Stack) : s.toList.length = s.size := by
  simp [toList, size]

@[simp] theorem size_empty : empty.size = 0 := rfl

@[simp] theorem size_push (s : Stack) (w : Word) : (s.push w).size = s.size + 1 := rfl

@[simp] theorem push_ne_empty (s : Stack) (w : Word) : s.push w ≠ empty := by
  simp [push, empty]

@[simp] theorem empty_ne_push (s : Stack) (w : Word) : empty ≠ s.push w := by
  simp [push, empty]

@[simp] theorem push_inj {s t : Stack} {v w : Word} : s.push v = t.push w ↔ s = t ∧ v = w := by
  cases s; cases t; simp [push, and_comm]

end Stack

end StackVM
