import Mathlib.Algebra.Group.Nat.Even
import StackVM.Proofs.OptionPairs

/-!
# The order of options

Where an argument of `run` stands decides what it is: behind complete pairs the next one is a name,
and what follows a name is a value (`parseAfter_append`, `OptionFault.exists_headFault`). Which
value an option has in the end depends on the order of its own pairs only: a later pair replaces an
earlier one with the same option, and pairs with different options may change places
(`parseAfter_swap`). `parse_pairs_exact` puts these together for all arguments.
-/

set_option autoImplicit false

namespace StackVM.CommandLine

/-- What is wrong at the head of arguments, where the name of an option has to stand. -/
inductive HeadFault : List String → Refusal → Prop
  | unknown {name : String} {arguments : List String} : (∀ option : RunOption, option.name ≠ name) →
      HeadFault (name :: arguments) (.unknownOption name)
  | missing (option : RunOption) : HeadFault [option.name] (.missingValue option.name)
  | invalid {value : String} {arguments : List String} (option : RunOption) :
      (∀ n, ¬ IsCount value n) →
      HeadFault (option.name :: value :: arguments) (.invalidValue option.name value)

/-- The count that an option has been set to. -/
def RunOptions.setting? (options : RunOptions) : RunOption → Option Nat
  | .maxSteps => options.maxSteps
  | .memory => options.memory

variable {name value name' value' : String} {option option' : RunOption} {n n' : Nat}
  {arguments before after rest : List String} {pairs : List (RunOption × Nat)}
  {options options' : RunOptions} {r : Refusal}

/-! ## The pair that counts -/

/-- **The last pair with an option** is the one that has no other behind it. -/
theorem lastCount_eq_some_iff :
    lastCount option pairs = some n ↔ ∃ earlier later,
      pairs = earlier ++ (option, n) :: later ∧ ∀ m, (option, m) ∉ later := by
  rw [lastCount, List.lookup_eq_some_iff]
  constructor
  · rintro ⟨later, earlier, hpairs, hlast⟩
    refine ⟨earlier.reverse, later.reverse, ?_, fun m hm => ?_⟩
    · rw [List.reverse_eq_iff.1 hpairs, List.reverse_append, List.reverse_cons,
        List.append_assoc, List.singleton_append]
    · simpa using hlast (option, m) (List.mem_reverse.1 hm)
  · rintro ⟨earlier, later, rfl, hlast⟩
    refine ⟨later.reverse, earlier.reverse, by simp, fun pair hpair => ?_⟩
    rw [bne_iff_ne]
    rintro rfl
    exact hlast pair.2 (List.mem_reverse.1 hpair)

namespace RunOptions

/-- Options are the same if they are set to the same counts. -/
theorem eq_lastCounts_iff :
    options = ⟨lastCount .maxSteps pairs, lastCount .memory pairs⟩ ↔
      ∀ option n, options.setting? option = some n ↔ lastCount option pairs = some n := by
  constructor
  · rintro rfl option n
    cases option with
    | maxSteps => rfl
    | memory => rfl
  · intro h
    have hsteps : options.maxSteps = lastCount .maxSteps pairs := Option.ext (h .maxSteps)
    have hmemory : options.memory = lastCount .memory pairs := Option.ext (h .memory)
    rw [← hsteps, ← hmemory]

theorem set_comm (h : option ≠ option') :
    (options.set option n).set option' n' = (options.set option' n').set option n := by
  cases option with
  | maxSteps =>
    cases option' with
    | maxSteps => exact absurd rfl h
    | memory => rfl
  | memory =>
    cases option' with
    | maxSteps => rfl
    | memory => exact absurd rfl h

/-! ## Names and values take turns -/

/-- **Arguments in two parts** are read one part after the other, if the first one ends behind a
value. -/
theorem parseAfter_append (h : Even before.length) :
    parseAfter options (before ++ rest) =
      (parseAfter options before).bind fun options => parseAfter options rest := by
  fun_induction parseAfter options before with
  | case1 => rfl
  | case2 options name arguments hname => exact parseAfter_unknown hname
  | case3 => exact absurd h Nat.not_even_one
  | case4 options name option hname value arguments hvalue =>
    obtain rfl := RunOption.ofName?_eq_some_iff.1 hname
    exact parseAfter_invalid hvalue
  | case5 options name option hname value arguments n hvalue ih =>
    obtain rfl := RunOption.ofName?_eq_some_iff.1 hname
    have heven : Even arguments.length := by
      rw [List.length_cons, List.length_cons, Nat.even_add_one, Nat.even_add_one, not_not] at h
      exact h
    exact (parseAfter_pair hvalue).trans (ih heven)

/-- **Pairs with different options** may change places. -/
theorem parseAfter_swap (hname : name ≠ name')
    (h : parseAfter options (name :: value :: name' :: value' :: after) = .ok options') :
    parseAfter options (name' :: value' :: name :: value :: after) = .ok options' := by
  rw [parseAfter_eq_ok_iff] at h ⊢
  obtain ⟨pairs, hpairs, rfl⟩ := h
  cases hpairs with
  | cons option hvalue hrest =>
    cases hrest with
    | @cons _ n' _ pairs option' hvalue' hafter =>
      have hne : option ≠ option' := fun heq => hname (heq ▸ rfl)
      refine ⟨_, .cons option' hvalue' (.cons option hvalue hafter), ?_⟩
      rw [List.foldl_cons, List.foldl_cons, List.foldl_cons, List.foldl_cons, set_comm hne]

theorem parse_swap (hbefore : Even before.length) (hname : name ≠ name')
    (h : parse (before ++ name :: value :: name' :: value' :: after) = .ok options) :
    parse (before ++ name' :: value' :: name :: value :: after) = .ok options := by
  rw [parse, parseAfter_append hbefore] at h ⊢
  rcases hmiddle : parseAfter {} before with r | middle
  · rw [hmiddle] at h
    cases h
  · rw [hmiddle] at h
    exact parseAfter_swap hname h

end RunOptions

/-! ## The first fault -/

theorem OptionFault.of_headFault (hbefore : IsOptionList before pairs) (h : HeadFault rest r) :
    OptionFault (before ++ rest) r := by
  induction hbefore with
  | nil =>
    cases h with
    | unknown hname => exact .unknown hname
    | missing option => exact .missing option
    | invalid option hvalue => exact .invalid option hvalue
  | cons option hvalue _ ih => exact .later option hvalue ih

theorem OptionFault.exists_headFault (h : OptionFault arguments r) :
    ∃ before pairs rest, arguments = before ++ rest ∧ IsOptionList before pairs ∧
      HeadFault rest r := by
  induction h with
  | unknown hname => exact ⟨[], [], _, rfl, .nil, .unknown hname⟩
  | missing option => exact ⟨[], [], _, rfl, .nil, .missing option⟩
  | invalid option hvalue => exact ⟨[], [], _, rfl, .nil, .invalid option hvalue⟩
  | @later value n arguments r option hvalue _ ih =>
    obtain ⟨before, pairs, rest, rfl, hpairs, hhead⟩ := ih
    exact ⟨option.name :: value :: before, (option, n) :: pairs, rest, rfl,
      .cons option hvalue hpairs, hhead⟩

/-- The name of an option is no count. -/
theorem not_isCount_name (option : RunOption) (n : Nat) : ¬ IsCount option.name n := by
  have hnone : count? option.name = none := by
    cases option with
    | maxSteps => decide
    | memory => decide
  exact count?_eq_none_iff.1 hnone n

namespace RunOptions

/-- **The arguments of `run` behind its input.** They are accepted exactly if they are pairs of a
name and a count, and then each option has the count of its last pair, if it has one. Pairs with
different names may change places. Other arguments are refused for the first place that is wrong,
behind complete pairs; where a value has to stand, the name of an option is a wrong value. -/
theorem parse_pairs_exact :
    (∀ arguments, (∃ options, parse arguments = .ok options) ↔
      ∃ pairs, IsOptionList arguments pairs) ∧
    (∀ arguments options, parse arguments = .ok options ↔
      ∃ pairs, IsOptionList arguments pairs ∧ ∀ option n, options.setting? option = some n ↔
        ∃ earlier later, pairs = earlier ++ (option, n) :: later ∧ ∀ m, (option, m) ∉ later) ∧
    (∀ before name value name' value' after options, Even before.length → name ≠ name' →
      (parse (before ++ name :: value :: name' :: value' :: after) = .ok options ↔
        parse (before ++ name' :: value' :: name :: value :: after) = .ok options)) ∧
    (∀ arguments r, parse arguments = .error r ↔ ∃ before pairs rest,
      arguments = before ++ rest ∧ IsOptionList before pairs ∧ HeadFault rest r) ∧
    ∀ before pairs (option option' : RunOption) rest, IsOptionList before pairs →
      parse (before ++ option.name :: option'.name :: rest) =
        .error (.invalidValue option.name option'.name) := by
  refine ⟨fun arguments => ⟨fun ⟨options, h⟩ => ?_, fun ⟨pairs, hpairs⟩ => ?_⟩,
    fun arguments options => ?_,
    fun before name value name' value' after options hbefore hname =>
      ⟨parse_swap hbefore hname, parse_swap hbefore hname.symm⟩,
    fun arguments r => ⟨fun h => ?_, ?_⟩,
    fun before pairs option option' rest hpairs => ?_⟩
  · obtain ⟨pairs, hpairs, -⟩ := parse_eq_ok_iff.1 h
    exact ⟨pairs, hpairs⟩
  · exact ⟨_, parse_eq_ok_iff.2 ⟨pairs, hpairs, rfl⟩⟩
  · simp only [parse_eq_ok_iff, eq_lastCounts_iff, lastCount_eq_some_iff]
  · exact (parse_eq_error_iff.1 h).exists_headFault
  · rintro ⟨before, pairs, rest, rfl, hpairs, hhead⟩
    exact parse_eq_error_iff.2 (.of_headFault hpairs hhead)
  · have hhead : HeadFault (option.name :: option'.name :: rest)
        (.invalidValue option.name option'.name) := .invalid option (not_isCount_name option')
    exact parse_eq_error_iff.2 (.of_headFault hpairs hhead)

theorem parse_pairs_exact_repeated :
    parse ["--memory", "8", "--memory", "016", "--max-steps", "+3"] = .ok ⟨some 3, some 16⟩ ∧
    parse ["--memory", "8", "--max-steps", "+3", "--memory", "016"] = .ok ⟨some 3, some 16⟩ ∧
    parse ["--memory", "8", "--max-steps", "--memory", "016"] =
      .error (.invalidValue "--max-steps" "--memory") := by
  obtain ⟨-, -, hswap, -, hname⟩ := parse_pairs_exact
  have h : parse ["--memory", "8", "--memory", "016", "--max-steps", "+3"] =
      .ok ⟨some 3, some 16⟩ := by decide
  have height : IsOptionList ["--memory", "8"] [(.memory, 8)] :=
    .cons .memory (count?_eq_some_iff.1 (by decide)) .nil
  exact ⟨h, (hswap ["--memory", "8"] _ _ _ _ [] _ (by decide) (by decide)).1 h,
    hname _ _ .maxSteps .memory ["016"] height⟩

end RunOptions

end StackVM.CommandLine
