import StackVM.Text.UpperCase

/-!
# Upper case of characters below the lower-case letters

The rows of the upper-case table start at `a`, so that capitals, digits and most signs of ASCII are
their own upper case.
-/

set_option autoImplicit false

namespace StackVM.Text

theorem caseRuns_first_ge : ∀ r ∈ caseRuns, 0x61 ≤ r.first := by decide +kernel

theorem caseExpansions_code_ge : ∀ e ∈ caseExpansions, 0x61 ≤ e.1 := by decide +kernel

theorem upperCode_of_lt {n : Nat} (h : n < 0x61) : upperCode n = [n] := by
  have hruns : caseRuns.find? (·.covers n) = none := by
    rw [List.find?_eq_none]
    intro r hr hc
    have := caseRuns_first_ge r hr
    simp only [CaseRun.covers, Bool.and_eq_true, decide_eq_true_eq] at hc
    omega
  have hexpansions : caseExpansions.lookup n = none := by
    rw [List.lookup_eq_none_iff]
    intro e he
    have := caseExpansions_code_ge e he
    simp only [bne_iff_ne]
    omega
  rw [upperCode, hruns, hexpansions]
  rfl

theorem upperChar_of_lt {c : Char} (h : c.toNat < 0x61) : upperChar c = [c] := by
  rw [upperChar, upperCode_of_lt h, List.map_singleton, Char.ofNat_toNat]

theorem toNat_of_isUpper {c : Char} (h : c.isUpper) : 0x41 ≤ c.toNat ∧ c.toNat < 0x5B := by
  have hc : 'A'.val ≤ c.val ∧ c.val ≤ 'Z'.val := of_decide_eq_true h
  rw [UInt32.le_iff_toNat_le, UInt32.le_iff_toNat_le] at hc
  exact ⟨hc.1, Nat.lt_succ_of_le hc.2⟩

theorem upper_of_forall_lt {cs : List Char} (h : ∀ c ∈ cs, c.toNat < 0x61) : upper cs = cs := by
  induction cs with
  | nil => rfl
  | cons c cs ih =>
    obtain ⟨hc, hcs⟩ := List.forall_mem_cons.1 h
    rw [upper_cons, upperChar_of_lt hc, ih hcs]
    rfl

end StackVM.Text
