import StackVM.CommandLine.Options
import StackVM.Proofs.NumeralForm

/-!
# Options as pairs

The arguments that `run` accepts behind its input are pairs of a name and a count (`IsOptionList`),
and of the pairs with the same name the last one counts (`lastCount`). In all other arguments there
is a first place that is wrong (`OptionFault`): a name that is none, a name without a value, or a
value that is no count. Names and values take turns, so what an argument is depends on where it
stands and not on how it looks.

* `parse_eq_ok_iff`: the options that are read, and from which arguments.
* `parse_eq_error_iff`: the refusals, each for the first fault.
-/

set_option autoImplicit false

namespace StackVM.CommandLine

/-- The value of an option: decimal digits with or without a plus sign, for at most 64 bits. -/
def IsCount (value : String) (n : Nat) : Prop :=
  Numeral.IsUnsigned 10 value.toList n ∧ n < 0x10000000000000000

/-- Arguments that are pairs of the name of an option and a count. -/
inductive IsOptionList : List String → List (RunOption × Nat) → Prop
  | nil : IsOptionList [] []
  | cons {value : String} {n : Nat} {arguments : List String} {pairs : List (RunOption × Nat)}
      (option : RunOption) : IsCount value n → IsOptionList arguments pairs →
      IsOptionList (option.name :: value :: arguments) ((option, n) :: pairs)

/-- The count in the last pair with this option. -/
def lastCount (option : RunOption) (pairs : List (RunOption × Nat)) : Option Nat :=
  pairs.reverse.lookup option

/-- What is wrong at the first place where arguments cease to be such pairs. -/
inductive OptionFault : List String → Refusal → Prop
  | unknown {name : String} {arguments : List String} : (∀ option : RunOption, option.name ≠ name) →
      OptionFault (name :: arguments) (.unknownOption name)
  | missing (option : RunOption) : OptionFault [option.name] (.missingValue option.name)
  | invalid {value : String} {arguments : List String} (option : RunOption) :
      (∀ n, ¬ IsCount value n) →
      OptionFault (option.name :: value :: arguments) (.invalidValue option.name value)
  | later {value : String} {n : Nat} {arguments : List String} {r : Refusal} (option : RunOption) :
      IsCount value n → OptionFault arguments r →
      OptionFault (option.name :: value :: arguments) r

variable {name value : String} {option : RunOption} {n : Nat} {arguments : List String}
  {pairs : List (RunOption × Nat)} {options options' : RunOptions} {r : Refusal}

/-! ## Names and counts -/

@[simp] theorem RunOption.ofName?_name (option : RunOption) :
    ofName? option.name = some option := by
  cases option <;> decide

theorem RunOption.ofName?_eq_some_iff : ofName? name = some option ↔ option.name = name :=
  ⟨fun h => by simpa using List.find?_some h, fun h => h ▸ ofName?_name option⟩

theorem RunOption.ofName?_eq_none_iff :
    ofName? name = none ↔ ∀ option : RunOption, option.name ≠ name := by
  simp only [Option.eq_none_iff_forall_ne_some, ne_eq, ofName?_eq_some_iff]

theorem count?_eq_some_iff : count? value = some n ↔ IsCount value n := by
  rw [count?, Option.filter_eq_some_iff, Numeral.unsigned?_eq_some_iff, decide_eq_true_eq, IsCount]

theorem count?_eq_none_iff : count? value = none ↔ ∀ n, ¬ IsCount value n := by
  simp only [Option.eq_none_iff_forall_ne_some, ne_eq, count?_eq_some_iff]

/-! ## The pair that counts -/

/-- A pair counts unless a later one has the same option. -/
theorem lastCount_cons (option' : RunOption) :
    lastCount option ((option', n) :: pairs) =
      (lastCount option pairs).or (if option = option' then some n else none) := by
  rw [lastCount, List.reverse_cons, List.lookup_append, List.lookup_cons, List.lookup_nil,
    lastCount]
  by_cases h : option = option'
  · simp [h]
  · have hne : (option == option') = false := by simpa using h
    simp [h, hne]

/-- **Options that are set one after the other** have the last counts, and where there is none,
what they had before. -/
theorem foldl_set (options : RunOptions) (pairs : List (RunOption × Nat)) :
    pairs.foldl (fun options pair => options.set pair.1 pair.2) options =
      ⟨(lastCount .maxSteps pairs).or options.maxSteps,
        (lastCount .memory pairs).or options.memory⟩ := by
  induction pairs generalizing options with
  | nil => rfl
  | cons pair pairs ih =>
    obtain ⟨option, n⟩ := pair
    rw [List.foldl_cons, ih, lastCount_cons, lastCount_cons]
    cases option with
    | maxSteps => simp [RunOptions.set]
    | memory => simp [RunOptions.set]

/-! ## Reading arguments -/

namespace RunOptions

theorem parseAfter_unknown (h : RunOption.ofName? name = none) :
    parseAfter options (name :: arguments) = .error (.unknownOption name) := by
  rw [parseAfter, h]

theorem parseAfter_missing :
    parseAfter options [option.name] = .error (.missingValue option.name) := by
  rw [parseAfter, RunOption.ofName?_name]

theorem parseAfter_invalid (h : count? value = none) :
    parseAfter options (option.name :: value :: arguments) =
      .error (.invalidValue option.name value) := by
  rw [parseAfter, RunOption.ofName?_name]
  simp only [h]

theorem parseAfter_pair (h : count? value = some n) :
    parseAfter options (option.name :: value :: arguments) =
      parseAfter (options.set option n) arguments := by
  rw [parseAfter, RunOption.ofName?_name]
  simp only [h]

theorem parseAfter_eq_ok_iff :
    parseAfter options arguments = .ok options' ↔ ∃ pairs, IsOptionList arguments pairs ∧
      options' = pairs.foldl (fun options pair => options.set pair.1 pair.2) options := by
  constructor
  · intro h
    fun_induction parseAfter options arguments with
    | case1 options =>
      cases h
      exact ⟨[], .nil, rfl⟩
    | case2 => cases h
    | case3 => cases h
    | case4 => cases h
    | case5 options name option hname value arguments n hvalue ih =>
      obtain ⟨pairs, hpairs, rfl⟩ := ih h
      obtain rfl := RunOption.ofName?_eq_some_iff.1 hname
      exact ⟨(option, n) :: pairs, .cons option (count?_eq_some_iff.1 hvalue) hpairs, rfl⟩
  · rintro ⟨pairs, hpairs, rfl⟩
    induction hpairs generalizing options with
    | nil => rfl
    | cons option hvalue _ ih =>
      rw [parseAfter_pair (count?_eq_some_iff.2 hvalue), ih, List.foldl_cons]

theorem parseAfter_eq_error_iff :
    parseAfter options arguments = .error r ↔ OptionFault arguments r := by
  constructor
  · intro h
    fun_induction parseAfter options arguments with
    | case1 => cases h
    | case2 options name arguments hname =>
      cases h
      exact .unknown (RunOption.ofName?_eq_none_iff.1 hname)
    | case3 options name option hname =>
      cases h
      obtain rfl := RunOption.ofName?_eq_some_iff.1 hname
      exact .missing option
    | case4 options name option hname value arguments hvalue =>
      cases h
      obtain rfl := RunOption.ofName?_eq_some_iff.1 hname
      exact .invalid option (count?_eq_none_iff.1 hvalue)
    | case5 options name option hname value arguments n hvalue ih =>
      obtain rfl := RunOption.ofName?_eq_some_iff.1 hname
      exact .later option (count?_eq_some_iff.1 hvalue) (ih h)
  · intro h
    induction h generalizing options with
    | unknown hname => exact parseAfter_unknown (RunOption.ofName?_eq_none_iff.2 hname)
    | missing option => exact parseAfter_missing
    | invalid option hvalue => exact parseAfter_invalid (count?_eq_none_iff.2 hvalue)
    | later option hvalue _ ih => rw [parseAfter_pair (count?_eq_some_iff.2 hvalue), ih]

/-- **The options that are read** are those of a list of pairs, each with its last count. -/
theorem parse_eq_ok_iff :
    parse arguments = .ok options ↔ ∃ pairs, IsOptionList arguments pairs ∧
      options = ⟨lastCount .maxSteps pairs, lastCount .memory pairs⟩ := by
  simp only [parse, parseAfter_eq_ok_iff, foldl_set, Option.or_none]

/-- **Other arguments are refused** for the first fault in them. -/
theorem parse_eq_error_iff : parse arguments = .error r ↔ OptionFault arguments r :=
  parseAfter_eq_error_iff

end RunOptions

end StackVM.CommandLine
