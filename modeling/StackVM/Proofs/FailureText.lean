import Mathlib.Data.List.TakeWhile
import Mathlib.Logic.Function.Basic
import StackVM.Failure
import StackVM.Proofs.Numerals

/-!
# The text of a failure

The printed text of a failure tells which failure it is, in all its parts: it can be read from left
to right (`Failure.text_identifies`).

* A message starts with words that no other kind of error starts with (`RuntimeError.Kind.lead`).
* A number ends where no digit follows. A printer is `Delimited` if its output can be told from what
  follows it in this way; messages are put together from such printers (`delimited_message`).
* A stack is printed as words with a comma between them, up to a bracket (`Stack.text_inj`).
-/

set_option autoImplicit false

namespace StackVM

/-! ## How a text starts -/

/-- **Texts that start in different ways** are told apart by that, whatever follows, if none of the
starts is the start of another. -/
theorem eq_of_lead_append {κ : Type} {lead : κ → String}
    (hfree : ∀ k k', (lead k).toList <+: (lead k').toList → k = k') {k k' : κ} {r s : List Char}
    (h : (lead k).toList ++ r = (lead k').toList ++ s) : k = k' := by
  have hk : (lead k).toList <+: (lead k').toList ++ s := ⟨r, h⟩
  have hk' : (lead k').toList <+: (lead k').toList ++ s := List.prefix_append _ _
  obtain hle | hle := List.prefix_or_prefix_of_prefix hk hk'
  · exact hfree k k' hle
  · exact (hfree k' k hle).symm

/-! ## Where a number ends -/

/-- A character of a printed integer. -/
def isNumeric (c : Char) : Bool := c == '-' || c.isDigit

/-- A text that cannot be taken for the rest of a number. -/
def Breaks (rest : List Char) : Prop := rest.takeWhile isNumeric = []

/-- What is printed can be told from what follows it, if that cannot be the rest of a number. -/
def Delimited {α : Type} (print : α → List Char) : Prop :=
  ∀ ⦃a b : α⦄ ⦃r s : List Char⦄, Breaks r → Breaks s → print a ++ r = print b ++ s →
    a = b ∧ r = s

theorem breaks_append {t r : List Char} {c : Char} (ht : t.head? = some c)
    (hc : isNumeric c = false) : Breaks (t ++ r) := by
  obtain ⟨cs, rfl⟩ := List.head?_eq_some_iff.1 ht
  exact List.takeWhile_cons_of_neg (by rw [hc]; decide)

theorem Delimited.injective {α : Type} {print : α → List Char} (h : Delimited print) :
    Function.Injective print := by
  intro a b hab
  exact (h (r := []) (s := []) rfl rfl (congrArg (· ++ []) hab)).1

theorem Delimited.comp {α β : Type} {print : α → List Char} {f : β → α} (h : Delimited print)
    (hf : Function.Injective f) : Delimited fun b => print (f b) := by
  intro a b r s hr hs heq
  obtain ⟨hab, hrs⟩ := h hr hs heq
  exact ⟨hf hab, hrs⟩

/-- **Numbers are delimited.** -/
theorem delimited_of_numeric {α : Type} {print : α → List Char}
    (hinj : Function.Injective print) (hnum : ∀ a, ∀ c ∈ print a, isNumeric c) :
    Delimited print := by
  intro a b r s hr hs h
  have htake : ∀ (a : α) {r : List Char}, Breaks r →
      (print a ++ r).takeWhile isNumeric = print a := by
    intro a r hr
    rw [List.takeWhile_append_of_pos (hnum a), hr, List.append_nil]
  obtain rfl : a = b := hinj (by rw [← htake a hr, h, htake b hs])
  exact ⟨rfl, List.append_cancel_left h⟩

theorem isNumeric_of_mem_toString {n : Int} {c : Char} (hc : c ∈ (toString n).toList) :
    isNumeric c := by
  obtain rfl | hdigit := Numeral.mem_toString hc
  · rfl
  · exact Bool.or_eq_true_iff.2 (.inr hdigit)

theorem delimited_int : Delimited fun n : Int => (toString n).toList := by
  refine delimited_of_numeric (fun m n h => ?_) fun n c => isNumeric_of_mem_toString
  have hread := Numeral.signed?_toString m
  rw [h, Numeral.signed?_toString] at hread
  exact (Option.some.inj hread).symm

theorem delimited_nat : Delimited fun n : Nat => (toString n).toList := by
  have h : Delimited fun n : Nat => (toString (Int.ofNat n)).toList :=
    delimited_int.comp fun _ _ => Int.ofNat.inj
  exact h

theorem delimited_word : Delimited fun w : Word => (toString w).toList := by
  have h : Delimited fun w : Word => (toString w.toInt).toList :=
    delimited_int.comp fun _ _ => Int32.toInt_inj.1
  exact h

/-- **A number in front of a text** can be told, and so can what follows the text. -/
theorem nat_text_append_inj {m n : Nat} {t r s : List Char} {c : Char} (ht : t.head? = some c)
    (hc : isNumeric c = false)
    (h : (toString m).toList ++ (t ++ r) = (toString n).toList ++ (t ++ s)) : m = n ∧ r = s := by
  obtain ⟨hmn, hrest⟩ := delimited_nat (breaks_append ht hc) (breaks_append ht hc) h
  exact ⟨hmn, List.append_cancel_left hrest⟩

/-- Two digits are printed for a byte, whatever follows. -/
theorem byteDigits_append_inj {b b' : UInt8} {r s : List Char}
    (h : Hex.byteDigits b ++ r = Hex.byteDigits b' ++ s) : b = b' ∧ r = s := by
  obtain ⟨hb, hrs⟩ := List.append_inj h rfl
  have hread := Numeral.continue?_byteDigits 0 b
  rw [hb, Numeral.continue?_byteDigits, Option.some.injEq] at hread
  exact ⟨UInt8.toNat_inj.1 (by omega), hrs⟩

/-! ## Messages -/

/-- What an error is about, but for the numbers in it. -/
inductive RuntimeError.Kind where
  | illegalOpcode
  | unknownOpcode
  | truncatedOperand
  | invalidOpcode
  | invalidData
  | stackUnderflow
  | divisionByZero
  | notImplemented (opcode : Opcode)
  | stepLimitExceeded
  deriving DecidableEq

namespace RuntimeError

namespace Kind

def all : List Kind :=
  [illegalOpcode, unknownOpcode, truncatedOperand, invalidOpcode, invalidData, stackUnderflow,
    divisionByZero, stepLimitExceeded] ++ Opcode.all.map notImplemented

theorem mem_all (k : Kind) : k ∈ all := by
  cases k with
  | notImplemented o => exact List.mem_append_right _ (List.mem_map_of_mem o.mem_all)
  | _ => decide

/-- The words that a message starts with, up to its first number. -/
def lead : Kind → String
  | illegalOpcode => "decode error: " ++ "illegal opcode 0x00"
  | unknownOpcode => "decode error: " ++ "unknown opcode: 0x"
  | truncatedOperand => "decode error: " ++ "truncated operand at byte "
  | invalidOpcode => "expected opcode, found data literal at instruction "
  | invalidData => "PUSH without data literal at instruction "
  | stackUnderflow => "stack underflow at instruction "
  | divisionByZero => "division by zero at instruction "
  | notImplemented o => o.mnemonic ++ " is not implemented (instruction "
  | stepLimitExceeded => "step limit of "

/-- **Messages of different kinds** start differently. -/
theorem lead_prefixFree (k k' : Kind) (h : k.lead.toList <+: k'.lead.toList) : k = k' := by
  have hall : ∀ k ∈ all, ∀ k' ∈ all, k.lead.toList <+: k'.lead.toList → k = k' := by
    decide +kernel
  exact hall k k.mem_all k' k'.mem_all h

end Kind

def kind : RuntimeError → Kind
  | decode .illegalOpcode => .illegalOpcode
  | decode (.unknownOpcode _) => .unknownOpcode
  | decode (.truncatedOperand ..) => .truncatedOperand
  | invalidOpcode _ => .invalidOpcode
  | invalidData _ => .invalidData
  | stackUnderflow _ => .stackUnderflow
  | divisionByZero _ => .divisionByZero
  | notImplemented _ opcode => .notImplemented opcode
  | stepLimitExceeded _ => .stepLimitExceeded

/-- What stands in a message from its first number on. -/
def detail : RuntimeError → List Char
  | decode .illegalOpcode => []
  | decode (.unknownOpcode b) => Hex.byteDigits b
  | decode (.truncatedOperand offset expected found) =>
    (toString offset).toList ++ (": expected ".toList ++ ((toString expected).toList ++
      (" bytes, found ".toList ++ (toString found).toList)))
  | invalidOpcode position | invalidData position | stackUnderflow position
  | divisionByZero position => (toString position).toList
  | notImplemented position _ => (toString position).toList ++ ")".toList
  | stepLimitExceeded limit => (toString limit).toList ++ " instructions exceeded".toList

variable {e e' : RuntimeError}

-- A message is put together from the left. To be read from there, its rest has to stand by itself.

theorem toList_append_append (s t u : String) :
    (s ++ t ++ u).toList = s.toList ++ (t.toList ++ u.toList) := by
  rw [String.toList_append, String.toList_append, List.append_assoc]

theorem toList_append_nested (s t u : String) :
    (s ++ (t ++ u)).toList = (s ++ t).toList ++ u.toList := by
  rw [← String.append_assoc, String.toList_append]

theorem toList_append_truncated (s t o u e v f : String) :
    (s ++ (t ++ o ++ u ++ e ++ v ++ f)).toList =
      (s ++ t).toList ++ (o.toList ++ (u.toList ++ (e.toList ++ (v.toList ++ f.toList)))) := by
  simp only [String.toList_append, List.append_assoc]

theorem toList_message (e : RuntimeError) : e.message.toList = e.kind.lead.toList ++ e.detail := by
  cases e with
  | decode e =>
    cases e with
    | illegalOpcode => exact (List.append_nil _).symm
    | unknownOpcode b =>
      refine (toList_append_nested _ _ _).trans (congrArg _ ?_)
      exact (String.toList_ofList).trans (List.append_nil _)
    | truncatedOperand offset expected found => exact toList_append_truncated ..
  | notImplemented n o => exact toList_append_append ..
  | stepLimitExceeded limit => exact toList_append_append ..
  | invalidOpcode n | invalidData n | stackUnderflow n | divisionByZero n =>
    exact String.toList_append

theorem truncated_append_inj {o e f o' e' f' : Nat} {r s : List Char} (hr : Breaks r)
    (hs : Breaks s)
    (h : (decode (.truncatedOperand o e f)).detail ++ r =
      (decode (.truncatedOperand o' e' f')).detail ++ s) :
    o = o' ∧ e = e' ∧ f = f' ∧ r = s := by
  simp only [detail, List.append_assoc] at h
  obtain ⟨ho, h⟩ := nat_text_append_inj (c := ':') (by decide) (by decide) h
  obtain ⟨he, h⟩ := nat_text_append_inj (c := ' ') (by decide) (by decide) h
  obtain ⟨hf, h⟩ := delimited_nat hr hs h
  exact ⟨ho, he, hf, h⟩

/-- Errors of one kind are told by their numbers. -/
theorem detail_append_inj {r s : List Char} (hk : e.kind = e'.kind) (hr : Breaks r) (hs : Breaks s)
    (h : e.detail ++ r = e'.detail ++ s) : e = e' ∧ r = s := by
  cases e with
  | decode e =>
    cases e with
    | illegalOpcode =>
      rcases e' with (_ | _ | _) | _ | _ | _ | _ | _ | _ <;> cases hk
      exact ⟨rfl, h⟩
    | unknownOpcode b =>
      rcases e' with (_ | b' | _) | _ | _ | _ | _ | _ | _ <;> cases hk
      obtain ⟨rfl, hrs⟩ := byteDigits_append_inj h
      exact ⟨rfl, hrs⟩
    | truncatedOperand offset expected found =>
      rcases e' with (_ | _ | ⟨offset', expected', found'⟩) | _ | _ | _ | _ | _ | _ <;> cases hk
      obtain ⟨rfl, rfl, rfl, hrs⟩ := truncated_append_inj hr hs h
      exact ⟨rfl, hrs⟩
  | invalidOpcode n | invalidData n | stackUnderflow n | divisionByZero n =>
    rcases e' with (_ | _ | _) | n' | n' | n' | n' | _ | _ <;> cases hk
    obtain ⟨rfl, hrs⟩ := delimited_nat hr hs h
    exact ⟨rfl, hrs⟩
  | notImplemented n o =>
    rcases e' with (_ | _ | _) | _ | _ | _ | _ | ⟨n', o'⟩ | _ <;> cases hk
    simp only [detail, List.append_assoc] at h
    obtain ⟨rfl, hrs⟩ := nat_text_append_inj (c := ')') (by decide) (by decide) h
    exact ⟨rfl, hrs⟩
  | stepLimitExceeded limit =>
    rcases e' with (_ | _ | _) | _ | _ | _ | _ | _ | limit' <;> cases hk
    simp only [detail, List.append_assoc] at h
    obtain ⟨rfl, hrs⟩ := nat_text_append_inj (c := ' ') (by decide) (by decide) h
    exact ⟨rfl, hrs⟩

/-- **Messages** tell their error, whatever follows that does not go on with its last number. -/
theorem delimited_message : Delimited fun e : RuntimeError => e.message.toList := by
  intro e e' r s hr hs h
  simp only [toList_message, List.append_assoc] at h
  have hk := eq_of_lead_append Kind.lead_prefixFree h
  rw [hk] at h
  exact detail_append_inj hk hr hs (List.append_cancel_left h)

end RuntimeError

/-- A fault in a byte stream is told by its message too. -/
theorem DecodeError.message_injective : Function.Injective DecodeError.message := by
  intro e e' h
  have hmessage : (RuntimeError.decode e).message = (RuntimeError.decode e').message := by
    show "decode error: " ++ e.message = "decode error: " ++ e'.message
    rw [h]
  have hlist := congrArg String.toList hmessage
  exact RuntimeError.decode.inj (RuntimeError.delimited_message.injective hlist)

/-! ## Stacks -/

/-- Words that are printed behind others, each after a comma. -/
def laterWords (ws : List Word) : List Char :=
  ws.flatMap fun w => ',' :: ' ' :: (toString w).toList

theorem laterWords_cons_append (w : Word) (ws : List Word) (t : List Char) :
    laterWords (w :: ws) ++ t = ',' :: ' ' :: ((toString w).toList ++ (laterWords ws ++ t)) := by
  rw [laterWords, List.flatMap_cons, List.append_assoc]
  rfl

theorem breaks_laterWords (ws : List Word) : Breaks (laterWords ws ++ [']']) := by
  cases ws with
  | nil => exact List.takeWhile_cons_of_neg (by decide)
  | cons w ws =>
    rw [laterWords_cons_append]
    exact List.takeWhile_cons_of_neg (by decide)

/-- **Words between commas** can be told up to the bracket behind them. -/
theorem laterWords_inj {ws vs : List Word}
    (h : laterWords ws ++ [']'] = laterWords vs ++ [']']) : ws = vs := by
  induction ws generalizing vs with
  | nil =>
    cases vs with
    | nil => rfl
    | cons v vs =>
      rw [laterWords_cons_append] at h
      cases h
  | cons w ws ih =>
    cases vs with
    | nil =>
      rw [laterWords_cons_append] at h
      cases h
    | cons v vs =>
      rw [laterWords_cons_append, laterWords_cons_append, List.cons.injEq, List.cons.injEq] at h
      obtain ⟨rfl, hrest⟩ := delimited_word (breaks_laterWords ws) (breaks_laterWords vs) h.2.2
      rw [ih hrest]

theorem intercalate_cons (w : Word) (ws : List Word) :
    [',', ' '].intercalate ((toString w).toList :: ws.map fun w => (toString w).toList) =
      (toString w).toList ++ laterWords ws := by
  induction ws generalizing w with
  | nil => exact List.intercalate_singleton.trans (List.append_nil _).symm
  | cons v ws ih =>
    rw [List.map_cons, List.intercalate_cons_cons, ih, laterWords, laterWords, List.flatMap_cons,
      List.append_assoc]
    rfl

namespace Stack

theorem toList_text (s : Stack) :
    s.text.toList =
      '[' :: ([',', ' '].intercalate (s.toList.map fun w => (toString w).toList) ++ [']']) := by
  unfold text
  rw [String.toList_append, String.toList_append, String.toList_intercalate, List.map_map,
    List.append_assoc]
  rfl

theorem toList_text_ofList_cons (w : Word) (ws : List Word) :
    (ofList (w :: ws)).text.toList = '[' :: ((toString w).toList ++ (laterWords ws ++ [']'])) := by
  rw [toList_text, toList_ofList, List.map_cons, intercalate_cons, List.append_assoc]

/-- A word is printed in one character at least, none of which is a bracket. -/
theorem text_ofList_cons_ne (w : Word) (ws : List Word) :
    (ofList (w :: ws)).text ≠ (ofList []).text := by
  intro h
  have hlist := congrArg String.toList h
  rw [toList_text_ofList_cons, toList_text, toList_ofList, List.cons.injEq] at hlist
  have htake := congrArg (List.takeWhile isNumeric) hlist.2
  have hnumeric : ∀ c ∈ (toString w).toList, isNumeric c := fun c => isNumeric_of_mem_toString
  rw [List.takeWhile_append_of_pos hnumeric] at htake
  exact Numeral.toString_ne_nil w.toInt (List.append_eq_nil_iff.1 htake).1

/-- **Stacks with the same text** have the same words. -/
theorem text_ofList_inj {ws vs : List Word} (h : (ofList ws).text = (ofList vs).text) :
    ws = vs := by
  cases ws with
  | nil =>
    cases vs with
    | nil => rfl
    | cons v vs => exact absurd h.symm (text_ofList_cons_ne v vs)
  | cons w ws =>
    cases vs with
    | nil => exact absurd h (text_ofList_cons_ne w ws)
    | cons v vs =>
      have hlist := congrArg String.toList h
      rw [toList_text_ofList_cons, toList_text_ofList_cons, List.cons.injEq] at hlist
      obtain ⟨rfl, hrest⟩ := delimited_word (breaks_laterWords ws) (breaks_laterWords vs) hlist.2
      rw [laterWords_inj hrest]

theorem text_inj {s t : Stack} (h : s.text = t.text) : s = t := by
  rw [← ofList_toList s, ← ofList_toList t] at h
  exact toList_inj.1 (text_ofList_inj h)

end Stack

/-! ## Failures -/

theorem Failure.toList_text (f : Failure) :
    f.text.toList =
      f.error.message.toList ++ (" (stack: ".toList ++ (f.stack.text.toList ++ [')'])) := by
  have happend : ∀ s t u v : String,
      (s ++ t ++ u ++ v).toList = s.toList ++ (t.toList ++ (u.toList ++ v.toList)) := by
    intro s t u v
    simp only [String.toList_append, List.append_assoc]
  exact happend ..

/-- **The text of a failure tells the failure**: its error, with the numbers, the byte and the
opcode in it, and its stack, word by word. The text of a stack and the message of an error tell
these by themselves. -/
theorem Failure.text_identifies :
    (∀ f g : Failure, f.text = g.text → f.error = g.error ∧ f.stack.toList = g.stack.toList) ∧
    Function.Injective Stack.text ∧ Function.Injective RuntimeError.message := by
  refine ⟨fun f g h => ?_, fun s t => Stack.text_inj, fun e e' h => ?_⟩
  · have hlist := congrArg String.toList h
    have hbreaks : ∀ t, Breaks (" (stack: ".toList ++ t) := fun _ =>
      breaks_append (c := ' ') (by decide) (by decide)
    rw [toList_text, toList_text] at hlist
    obtain ⟨herror, hrest⟩ := RuntimeError.delimited_message (hbreaks _) (hbreaks _) hlist
    have hstack := List.append_cancel_right (List.append_cancel_left hrest)
    exact ⟨herror, Stack.toList_inj.2 (Stack.text_inj (String.toList_inj.1 hstack))⟩
  · exact RuntimeError.delimited_message.injective (congrArg String.toList h)

example : Failure.text ⟨.notImplemented 4 .mload, .ofList [1, -2, 3]⟩ =
    "MLOAD is not implemented (instruction 4) (stack: [1, -2, 3])" := by decide

end StackVM
