import Mathlib.Data.List.Induction
import StackVM.Memory
import StackVM.Proofs.WordBytes

/-!
# Memory as a map of its history

A memory that starts out zeroed is the map from each address to the byte that the latest store
covering it put there (`latest?`). The map is read off the calls alone: no memory is at work in it,
and which calls count is a matter of their bounds.

Calls are actions, so a memory comes out of each of them whatever the reply. That it is the old one
behind a call that is refused is a fact about how stores are checked, and not about their type.

* `run_perform`: one call, of each kind. Its bounds decide whether it is answered and leaves its
  bytes stored, or is refused and changes nothing.
* `size_behind`, `byte_behind`: what one call leaves behind, in either case.
* `size_after`, `byte_after`: what a history of calls leaves behind, by induction on the last call.
* `perform_after`: each call, after any calls to a zeroed memory.
-/

set_option autoImplicit false

namespace StackVM

namespace Memory

/-- A call to a memory. Offsets and lengths are 64-bit numbers. -/
inductive Access where
  | get (offset length : UInt64)
  | set (offset : UInt64) (data : List UInt8)
  | getWord (offset : UInt64)
  | setWord (offset : UInt64) (w : Word)
  deriving DecidableEq, Repr

/-- What a call that is carried out gives back. -/
inductive Answer where
  | bytes (data : List UInt8)
  | word (w : Word)
  | stored
  deriving DecidableEq, Repr

/-- What is read of a memory, as an action on it. -/
def reading {α : Type} (read : Memory → Except MemoryError α) : Action α := do
  MonadExcept.ofExcept (read (← getThe Memory))

namespace Access

def offset : Access → Nat
  | get offset _ | set offset _ | getWord offset | setWord offset _ => offset.toNat

/-- The number of bytes that a call is about. -/
def length : Access → Nat
  | get _ length => length.toNat
  | set _ data => data.length
  | getWord _ | setWord _ _ => Word.width

/-- The bytes that a call stores. -/
def data : Access → List UInt8
  | get _ _ | getWord _ => []
  | set _ data => data
  | setWord _ w => w.bytes

/-- What a call does to the memory. -/
def perform : Access → Action Answer
  | get offset length => reading fun m => (m.get offset.toNat length.toNat).map .bytes
  | set offset data => do
    Memory.set offset.toNat data
    return .stored
  | getWord offset => reading fun m => (m.getWord offset.toNat).map .word
  | setWord offset w => do
    Memory.setWord offset.toNat w
    return .stored

/-- The byte that a call stores at an address of a memory of `n` bytes. It stores nothing unless all
that it is about is in bounds. -/
def stores? (n address : Nat) (c : Access) : Option UInt8 :=
  if c.offset + c.length ≤ n ∧ c.offset ≤ address then c.data[address - c.offset]? else none

/-- The answers that a call may give if `f` is the map from addresses to bytes. A word is read
through its bytes, the most significant first. -/
inductive Answers (f : Nat → UInt8) : Access → Answer → Prop
  | get {offset length : UInt64} :
      Answers f (get offset length) (.bytes ((List.range' offset.toNat length.toNat).map f))
  | set {offset : UInt64} {data : List UInt8} : Answers f (set offset data) .stored
  | getWord {offset : UInt64} {w : Word} :
      w.bytes = (List.range' offset.toNat Word.width).map f → Answers f (getWord offset) (.word w)
  | setWord {offset : UInt64} {w : Word} : Answers f (setWord offset w) .stored

end Access

/-- The memory behind a call, whatever the reply to it is. -/
def behind (m : Memory) (c : Access) : Memory :=
  match c.perform.run m with
  | .ok _ m' | .error _ m' => m'

/-- The memory behind calls, the first one first. -/
def after (m : Memory) (calls : List Access) : Memory := calls.foldl behind m

/-- The byte that the latest store covering an address put there, if there is one. -/
def latest? (n : Nat) (calls : List Access) (address : Nat) : Option UInt8 :=
  calls.reverse.findSome? (·.stores? n address)

/-! ## One call -/

variable {m m' : Memory} {c : Access}

/-- What follows a check takes place in bounds only. -/
theorem check_bind {α : Type} (hm : m.size < addressSpace) (offset length : Nat)
    (x : Except MemoryError α) :
    (m.check offset length >>= fun _ => x) = if offset + length ≤ m.size then x
      else .error (.outOfBounds offset length m.size) := by
  rw [check_eq hm]
  split <;> rfl

theorem run_reading {α : Type} (read : Memory → Except MemoryError α) :
    (reading read).run m = (MonadExcept.ofExcept (read m) : Action α).run m := rfl

/-- A store answers that it is done, or nothing is stored. -/
theorem run_set_stored (hm : m.size < addressSpace) (offset : Nat) (data : List UInt8) :
    (Memory.set offset data >>= fun _ => pure Answer.stored : Action Answer).run m =
      if offset + data.length ≤ m.size then .ok .stored (m.store offset data)
      else .error (.outOfBounds offset data.length m.size) m := by
  rw [EStateM.run_bind, run_set hm]
  by_cases h : offset + data.length ≤ m.size
  · rw [if_pos h, if_pos h]
    rfl
  · rw [if_neg h, if_neg h]

/-- **One call**: in bounds it is answered and leaves its bytes stored. Out of bounds it is refused
with its own offset and length, and changes nothing. -/
theorem run_perform (hm : m.size < addressSpace) (c : Access) :
    ∃ answer, c.Answers m.byte answer ∧
      c.perform.run m =
        if c.offset + c.length ≤ m.size then .ok answer (m.store c.offset c.data)
        else .error (.outOfBounds c.offset c.length m.size) m := by
  cases c with
  | get offset length =>
    refine ⟨_, .get, ?_⟩
    rw [Access.perform, run_reading, Memory.get, check_bind hm, Access.offset, Access.length]
    split
    · rfl
    · rfl
  | set offset data =>
    exact ⟨_, .set, run_set_stored hm offset.toNat data⟩
  | getWord offset =>
    refine ⟨_, .getWord (Word.bytes_ofBytes ..), ?_⟩
    rw [Access.perform, run_reading, Memory.getWord, check_bind hm, Access.offset, Access.length]
    split
    · rfl
    · rfl
  | setWord offset w =>
    exact ⟨_, .setWord, run_set_stored hm offset.toNat w.bytes⟩

theorem run_perform_of_le (hm : m.size < addressSpace) (h : c.offset + c.length ≤ m.size) :
    ∃ answer, c.Answers m.byte answer ∧
      c.perform.run m = .ok answer (m.store c.offset c.data) := by
  obtain ⟨answer, hanswer, heq⟩ := run_perform hm c
  exact ⟨answer, hanswer, heq.trans (if_pos h)⟩

theorem run_perform_of_lt (hm : m.size < addressSpace) (h : m.size < c.offset + c.length) :
    c.perform.run m = .error (.outOfBounds c.offset c.length m.size) m := by
  obtain ⟨answer, -, heq⟩ := run_perform hm c
  exact heq.trans (if_neg (Nat.not_le.2 h))

/-! A call is in bounds or not, and this decides all about it. -/

theorem exists_answer_iff (hm : m.size < addressSpace) :
    (∃ answer m', c.perform.run m = .ok answer m') ↔ c.offset + c.length ≤ m.size := by
  refine ⟨fun ⟨answer, m', heq⟩ => ?_, fun h => ?_⟩
  · by_contra h
    rw [run_perform_of_lt hm (Nat.not_le.1 h)] at heq
    cases heq
  · obtain ⟨answer, -, heq⟩ := run_perform_of_le hm h
    exact ⟨answer, _, heq⟩

theorem answers_of_ok (hm : m.size < addressSpace) {answer : Answer}
    (h : c.perform.run m = .ok answer m') : c.Answers m.byte answer := by
  obtain ⟨answer', hanswer, heq⟩ :=
    run_perform_of_le hm ((exists_answer_iff hm).1 ⟨answer, m', h⟩)
  rw [heq] at h
  cases h
  exact hanswer

/-- **A call that is refused** is out of bounds, and leaves the memory as it was. -/
theorem refused_of_error (hm : m.size < addressSpace) {e : MemoryError}
    (h : c.perform.run m = .error e m') :
    e = .outOfBounds c.offset c.length m.size ∧ m' = m := by
  rcases Nat.lt_or_ge m.size (c.offset + c.length) with hlt | hle
  · rw [run_perform_of_lt hm hlt] at h
    cases h
    exact ⟨rfl, rfl⟩
  · obtain ⟨answer, -, heq⟩ := run_perform_of_le hm hle
    rw [heq] at h
    cases h

theorem behind_of_le (hm : m.size < addressSpace) (h : c.offset + c.length ≤ m.size) :
    m.behind c = m.store c.offset c.data := by
  obtain ⟨answer, -, heq⟩ := run_perform_of_le hm h
  rw [behind, heq]

theorem behind_of_lt (hm : m.size < addressSpace) (h : m.size < c.offset + c.length) :
    m.behind c = m := by
  rw [behind, run_perform_of_lt hm h]

theorem size_behind (hm : m.size < addressSpace) (c : Access) : (m.behind c).size = m.size := by
  by_cases h : c.offset + c.length ≤ m.size
  · rw [behind_of_le hm h, size_store]
  · rw [behind_of_lt hm (Nat.not_le.1 h)]

/-- A call puts its bytes where it stores, and leaves all other bytes alone. -/
theorem byte_behind (hm : m.size < addressSpace) (c : Access) (address : Nat) :
    (m.behind c).byte address = (c.stores? m.size address).getD (m.byte address) := by
  rw [Access.stores?]
  by_cases h : c.offset + c.length ≤ m.size
  · rw [behind_of_le hm h, byte_store]
    by_cases ha : c.offset ≤ address
    · rw [if_pos ha, if_pos ⟨h, ha⟩]
    · rw [if_neg ha, if_neg (fun hc => ha hc.2), Option.getD_none]
  · rw [behind_of_lt hm (Nat.not_le.1 h), if_neg (fun hc => h hc.1), Option.getD_none]

/-! ## A history of calls -/

theorem after_append (m : Memory) (calls : List Access) (c : Access) :
    m.after (calls ++ [c]) = (m.after calls).behind c := by
  rw [after, after, List.foldl_append, List.foldl_cons, List.foldl_nil]

theorem latest?_append (n : Nat) (calls : List Access) (c : Access) (address : Nat) :
    latest? n (calls ++ [c]) address = (c.stores? n address).or (latest? n calls address) := by
  rw [latest?, List.reverse_append, List.reverse_singleton, List.singleton_append,
    List.findSome?_cons]
  cases c.stores? n address <;> rfl

/-- Calls leave a memory its size. -/
theorem size_after (hm : m.size < addressSpace) (calls : List Access) :
    (m.after calls).size = m.size := by
  induction calls using List.reverseRecOn with
  | nil => rfl
  | append_singleton calls c ih => rw [after_append, size_behind (ih ▸ hm), ih]

/-- **The bytes behind calls** are those of the latest stores, and the ones before all calls where
nothing was stored. -/
theorem byte_after (hm : m.size < addressSpace) (calls : List Access) (address : Nat) :
    (m.after calls).byte address = (latest? m.size calls address).getD (m.byte address) := by
  induction calls using List.reverseRecOn with
  | nil => rfl
  | append_singleton calls c ih =>
    have hsize : (m.after calls).size = m.size := size_after hm calls
    rw [after_append, byte_behind (hsize ▸ hm), hsize, latest?_append, ih, Option.getD_or]

/-- **Memory refines a map from addresses to bytes.** After any calls to a zeroed memory of `n`
bytes, the size is still `n`. The next call is answered exactly if all that it is about is in
bounds, as a sum of numbers without bound. What it gives back are the bytes that the latest stores
covering them put there, zeros where there is none; a call that stores counts for what it is
followed by. A call that is refused names its own offset and length and the size, and leaves the
memory as it is. The bytes that make up a word are its signed value in two's complement, the most
significant first. -/
theorem perform_after (n : UInt64) (before : List Access) (call : Access) :
    let m := (zeroed n.toNat).after before
    m.size = n.toNat ∧
    ((∃ answer m', call.perform.run m = .ok answer m') ↔
      call.offset + call.length ≤ n.toNat) ∧
    (∀ answer m', call.perform.run m = .ok answer m' →
      call.Answers (fun address => (latest? n.toNat before address).getD 0) answer ∧
      ∀ address, m'.byte address = (latest? n.toNat (before ++ [call]) address).getD 0) ∧
    (∀ e m', call.perform.run m = .error e m' →
      e = .outOfBounds call.offset call.length n.toNat ∧ m' = m) ∧
    (∀ w : Word, w.bytes.length = 4 ∧
      ((Nat.ofDigits 0x100 (w.bytes.reverse.map UInt8.toNat) : Nat) : Int) =
        w.toInt % 0x100000000) := by
  intro m
  have hn : (zeroed n.toNat).size < addressSpace := n.toNat_lt
  have hsize : m.size = n.toNat := size_after hn before
  have hm : m.size < addressSpace := hsize.symm ▸ hn
  have hbyte : m.byte = fun address => (latest? n.toNat before address).getD 0 := by
    funext address
    rw [byte_after hn before, byte_zeroed]
    rfl
  refine ⟨hsize, hsize ▸ exists_answer_iff hm, fun answer m' h => ⟨?_, fun address => ?_⟩,
    fun e m' h => hsize ▸ refused_of_error hm h, fun w => ⟨rfl, w.ofDigits_bytes_eq_emod⟩⟩
  · exact hbyte ▸ answers_of_ok hm h
  · have hbehind : (zeroed n.toNat).after (before ++ [call]) = m' := by
      rw [after_append, behind, h]
    rw [← hbehind, byte_after hn, byte_zeroed]
    rfl

/-- A word is stored over three bytes, and a store that is refused stands in between. -/
theorem perform_after_overlap :
    let m := (zeroed 8).after [.set 1 [1, 2, 3], .setWord 5 7, .setWord 2 (-2)]
    (∃ m', (Access.get 1 6).perform.run m = .ok (.bytes [1, 0xFF, 0xFF, 0xFF, 0xFE, 0]) m') ∧
    (∃ m', (Access.getWord 2).perform.run m = .ok (.word (-2)) m') ∧
    (Access.setWord 5 7).perform.run m = .error (.outOfBounds 5 4 8) m ∧
    (Access.get 0xFFFFFFFFFFFFFFFF 2).perform.run m =
      .error (.outOfBounds 0xFFFFFFFFFFFFFFFF 2 8) m := by
  intro m
  have h := perform_after 8 [.set 1 [1, 2, 3], .setWord 5 7, .setWord 2 (-2)]
  -- Both calls that are out of bounds leave the memory as it is.
  have hrefused : ∀ call : Access, 8 < call.offset + call.length →
      call.perform.run m = .error (.outOfBounds call.offset call.length 8) m := by
    intro call hcall
    obtain ⟨-, hok, -, herror, -⟩ := h call
    rcases hreply : call.perform.run m with ⟨answer, m'⟩ | ⟨e, m'⟩
    · have hle : call.offset + call.length ≤ 8 := hok.1 ⟨answer, m', hreply⟩
      omega
    · obtain ⟨rfl, rfl⟩ := herror e m' hreply
      rfl
  refine ⟨?_, ?_, hrefused (.setWord 5 7) (by decide),
    hrefused (.get 0xFFFFFFFFFFFFFFFF 2) (by decide)⟩
  · obtain ⟨-, hok, hanswers, -⟩ := h (.get 1 6)
    obtain ⟨answer, m', heq⟩ := hok.2 (by decide)
    obtain ⟨hanswer, -⟩ := hanswers answer m' heq
    cases hanswer with
    | get => exact ⟨m', heq⟩
  · obtain ⟨-, hok, hanswers, -⟩ := h (.getWord 2)
    obtain ⟨answer, m', heq⟩ := hok.2 (by decide)
    obtain ⟨hanswer, -⟩ := hanswers answer m' heq
    cases hanswer with
    | @getWord _ w hw =>
      obtain rfl : w = -2 := Word.bytes_inj.1 (hw.trans (by decide))
      exact ⟨m', heq⟩

end Memory

end StackVM
