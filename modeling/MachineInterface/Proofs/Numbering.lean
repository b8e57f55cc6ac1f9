import Mathlib.Data.List.Range
import MachineInterface.Stoppoint.Numbering

/-!
# MachineInterface.Proofs.Numbering

Numberings over whole runs of operations, in whatever order the commands and
the notifications make them.

* `allocations_eq_range'` — new numbers come in the order 1, 2, 3, …;
* `id?_run` — a handle keeps its number until it is erased;
* `handle?_run` — a number that is taken back belongs to no handle again;
* `laws_of_run` — the laws of a numbering that started empty, up to the
  exhaustion of its numbers.
-/

namespace MachineInterface.Numbering

/-! ## Runs -/

/-- A call on a numbering. -/
inductive Operation
  | number (handle : Handle)
  | id? (handle : Handle)
  | handle? (id : Nat)
  | erase (handle : Handle)
deriving DecidableEq, Repr

/-- The numbering behind a call; a call that fails leaves it as it is. -/
def perform (m : Numbering) : Operation → Numbering
  | .number handle =>
    match m.number handle with
    | .ok (_, m') => m'
    | .error _ => m
  | .id? _ | .handle? _ => m
  | .erase handle => m.erase handle

/-- The numbering behind a sequence of calls. -/
def run (m : Numbering) (operations : List Operation) : Numbering := operations.foldl perform m

/-- The number that a call gives to a handle that had none. -/
def allocation? (m : Numbering) : Operation → Option Nat
  | .number handle =>
    if m.id? handle = none then (m.number handle).toOption.map (·.1) else none
  | _ => none

/-- The numbers that a sequence of calls gives to handles that had none, in
order. -/
def allocations (m : Numbering) : List Operation → List Nat
  | [] => []
  | operation :: operations =>
    (m.allocation? operation).toList ++ (m.perform operation).allocations operations

@[simp] theorem run_nil (m : Numbering) : m.run [] = m := rfl

@[simp] theorem run_cons (m : Numbering) (operation : Operation) (operations : List Operation) :
    m.run (operation :: operations) = (m.perform operation).run operations := rfl

/-! ## One call -/

/-- A call keeps the two maps inverse. -/
theorem Valid.perform {m : Numbering} (hm : m.Valid) (operation : Operation) :
    (m.perform operation).Valid := by
  cases operation with
  | number handle =>
      cases h : m.number handle with
      | ok r => simpa only [Numbering.perform, h] using hm.number h
      | error e => simpa only [Numbering.perform, h] using hm
  | id? handle => exact hm
  | handle? id => exact hm
  | erase handle => exact hm.erase handle

@[simp] theorem max_perform (m : Numbering) (operation : Operation) :
    (m.perform operation).max = m.max := by
  cases operation with
  | number handle =>
      cases h : m.number handle with
      | ok r => simp only [perform, h, max_number h]
      | error e => simp only [perform, h]
  | id? handle => rfl
  | handle? id => rfl
  | erase handle => exact max_erase m handle

/-- A number given to a handle that had none is one more than were given
before. -/
theorem allocation?_eq {m : Numbering} {operation : Operation} {id : Nat}
    (h : m.allocation? operation = some id) : id = m.given + 1 := by
  cases operation with
  | number handle =>
      simp only [allocation?] at h
      by_cases hnone : m.id? handle = none
      · rw [if_pos hnone] at h
        cases hr : m.number handle with
        | error e => simp [hr, Except.toOption] at h
        | ok r =>
            obtain rfl : r.1 = id := by simpa [hr, Except.toOption] using h
            obtain ⟨hsome, -⟩ | ⟨-, hid, -⟩ := number_cases hr
            · rw [hnone] at hsome
              contradiction
            · exact hid
      · rw [if_neg hnone] at h
        contradiction
  | id? handle => cases h
  | handle? id => cases h
  | erase handle => cases h

/-- The count of given numbers grows by the numbers that a call gives. -/
theorem given_perform (m : Numbering) (operation : Operation) :
    (m.perform operation).given = m.given + (m.allocation? operation).toList.length := by
  cases operation with
  | number handle =>
      cases hr : m.number handle with
      | error e => simp [perform, allocation?, hr, Except.toOption]
      | ok r =>
          have hgiven := given_number hr
          by_cases hnone : m.id? handle = none
          · simpa [perform, allocation?, hr, hnone, Except.toOption] using hgiven
          · simpa [perform, allocation?, hr, hnone, Except.toOption] using hgiven
  | id? handle => rfl
  | handle? id => rfl
  | erase handle => exact given_erase m handle

/-- A call other than its erasure keeps the number of a handle. -/
theorem id?_perform {m : Numbering} {handle : Handle} {id : Nat} (h : m.id? handle = some id)
    {operation : Operation} (hop : operation ≠ .erase handle) :
    (m.perform operation).id? handle = some id := by
  cases operation with
  | number other =>
      cases hr : m.number other with
      | error e => simpa only [perform, hr] using h
      | ok r =>
          simp only [perform, hr, id?_number hr handle]
          by_cases heq : other = handle
          · subst heq
            have hid := number_of_id? h
            rw [hr] at hid
            obtain rfl := Except.ok.inj hid
            simp
          · rwa [if_neg heq]
  | id? other => exact h
  | handle? id => exact h
  | erase other =>
      have hne : other ≠ handle := fun heq => hop (heq ▸ rfl)
      rw [perform, id?_erase, if_neg hne]
      exact h

/-- The number that an erased handle had belongs to no handle. -/
theorem handle?_erase {m : Numbering} (hm : m.Valid) {handle : Handle} {id : Nat}
    (h : m.id? handle = some id) : (m.erase handle).handle? id = none := by
  rw [Option.eq_none_iff_forall_ne_some]
  intro other hother
  rw [← (hm.erase handle).id_iff, id?_erase] at hother
  split at hother
  · cases hother
  · next hne =>
    have hhandle := (hm.id_iff handle id).mp h
    rw [(hm.id_iff other id).mp hother] at hhandle
    exact hne (Option.some_inj.mp hhandle).symm

/-- A number that was given out and belongs to no handle is not given out by a
call. -/
theorem handle?_perform {m : Numbering} (hm : m.Valid) {id : Nat} (hgiven : id ≤ m.given)
    (hnone : m.handle? id = none) (operation : Operation) :
    (m.perform operation).handle? id = none := by
  rw [Option.eq_none_iff_forall_ne_some]
  intro handle hhandle
  have hold : m.id? handle ≠ some id := by
    rw [ne_eq, hm.id_iff, hnone]
    exact nofun
  rw [← (hm.perform operation).id_iff] at hhandle
  cases operation with
  | number other =>
      cases hr : m.number other with
      | error e =>
          simp only [perform, hr] at hhandle
          exact hold hhandle
      | ok r =>
          simp only [perform, hr, id?_number hr handle] at hhandle
          split at hhandle
          · next heq =>
            subst heq
            obtain ⟨hid, -⟩ | ⟨-, hid, -⟩ := number_cases hr
            · exact hold (hid.trans hhandle)
            · -- A new number lies above all that were given out.
              have := Option.some_inj.mp hhandle
              omega
          · exact hold hhandle
  | id? other => exact hold hhandle
  | handle? other => exact hold hhandle
  | erase other =>
      rw [perform, id?_erase] at hhandle
      split at hhandle
      · cases hhandle
      · exact hold hhandle

/-! ## Runs of calls -/

theorem Valid.run {m : Numbering} (hm : m.Valid) (operations : List Operation) :
    (m.run operations).Valid := by
  induction operations generalizing m with
  | nil => exact hm
  | cons operation operations ih => exact ih (hm.perform operation)

@[simp] theorem max_run (m : Numbering) (operations : List Operation) :
    (m.run operations).max = m.max := by
  induction operations generalizing m with
  | nil => rfl
  | cons operation operations ih => rw [run_cons, ih, max_perform]

/-- The count of given numbers is the number of allocations. -/
theorem given_run (m : Numbering) (operations : List Operation) :
    (m.run operations).given = m.given + (m.allocations operations).length := by
  induction operations generalizing m with
  | nil => rfl
  | cons operation operations ih =>
      rw [run_cons, ih, given_perform, allocations, List.length_append, Nat.add_assoc]

/-- **Allocation**: new numbers come in ascending order and without gaps,
whatever is erased between them. -/
theorem allocations_eq_range' (m : Numbering) (operations : List Operation) :
    m.allocations operations =
      List.range' (m.given + 1) (m.allocations operations).length := by
  induction operations generalizing m with
  | nil => rfl
  | cons operation operations ih =>
      have hrest := ih (m.perform operation)
      rw [given_perform] at hrest
      cases halloc : m.allocation? operation with
      | none => simpa [allocations, halloc] using hrest
      | some id =>
          rw [halloc] at hrest
          simp only [allocations, halloc, allocation?_eq halloc, Option.toList_some,
            List.singleton_append, List.length_cons, List.range'_succ]
          exact congrArg _ hrest

/-- **Stability**: a handle keeps its number until it is erased. -/
theorem id?_run {m : Numbering} {handle : Handle} {id : Nat} (h : m.id? handle = some id)
    {operations : List Operation} (hops : .erase handle ∉ operations) :
    (m.run operations).id? handle = some id := by
  induction operations generalizing m with
  | nil => exact h
  | cons operation operations ih =>
      rw [List.mem_cons, not_or] at hops
      exact ih (id?_perform h fun heq => hops.1 heq.symm) hops.2

/-- **No reuse**: a number that was given out and belongs to no handle never belongs
to one again. -/
theorem handle?_run {m : Numbering} (hm : m.Valid) {id : Nat} (hgiven : id ≤ m.given)
    (hnone : m.handle? id = none) (operations : List Operation) :
    (m.run operations).handle? id = none := by
  induction operations generalizing m with
  | nil => exact hnone
  | cons operation operations ih =>
      refine ih (hm.perform operation) ?_ (handle?_perform hm hgiven hnone operation)
      rw [given_perform]
      exact Nat.le_add_right_of_le hgiven

/-- **Exhaustion**: when as many numbers were given out as there are, no later
call gives another. -/
theorem allocations_of_max_le {m : Numbering} (hm : m.Valid) (hmax : m.max ≤ m.given)
    (operations : List Operation) : m.allocations operations = [] := by
  have hle := (hm.run operations).given_le
  rw [max_run, given_run] at hle
  exact List.length_eq_zero_iff.mp (by omega)

/-- A numbering whose largest number has 32 bits fails for the handles without
a number, once all numbers are given out. -/
theorem number_error_iff {m : Numbering} (hm : m.Valid) (hmax : m.max < UInt32.size)
    (handle : Handle) :
    (∃ e, m.number handle = .error e) ↔ m.id? handle = none ∧ m.given = m.max := by
  constructor
  · rintro ⟨e, he⟩
    have hgiven : m.given = m.max := by
      by_contra hne
      obtain ⟨id, m', hok⟩ := number_ok hmax (Nat.lt_of_le_of_ne hm.given_le hne) handle
      rw [he] at hok
      contradiction
    exact ⟨(number_error he).1, hgiven⟩
  · rintro ⟨hnone, hgiven⟩
    exact ⟨_, number_of_max_le hnone hgiven.ge⟩

/-- A handle that is numbered again behind its erasure gets the next number. -/
theorem number_erase {m : Numbering} (hsize : m.max < UInt32.size) (hleft : m.given < m.max)
    (handle : Handle) : ∃ m', (m.erase handle).number handle = .ok (m.given + 1, m') := by
  rw [← max_erase m handle] at hsize
  rw [← max_erase m handle, ← given_erase m handle] at hleft
  obtain ⟨id, m', hok⟩ := number_ok hsize hleft handle
  obtain ⟨hid, -⟩ | ⟨-, rfl, -⟩ := number_cases hok
  · rw [id?_erase, if_pos rfl] at hid
    cases hid
  · rw [given_erase] at hok
    exact ⟨m', hok⟩

/-- **The laws of a numbering.**  Behind every sequence of calls on a numbering
that started empty: the two maps are inverse to each other; the numbers given
out so far were 1, 2, 3, … in this order; a handle gets the same number again
until it is erased; an erased handle has no number, and only it has lost one, which
no handle has ever again; if it is numbered again, it gets the next number, which is
none of those before; and exactly when all numbers up to the largest are given
out, handles without a number are refused, from then on and without a trace,
while the others keep their numbers. -/
theorem laws_of_run (max : UInt32) (operations : List Operation) :
    let m := (empty max.toNat).run operations
    let numbers := (empty max.toNat).allocations operations
    (∀ handle id, m.id? handle = some id ↔ m.handle? id = some handle) ∧
    (numbers = List.range' 1 numbers.length ∧ numbers.length ≤ max.toNat) ∧
    (∀ handle id m' between, m.number handle = .ok (id, m') → .erase handle ∉ between →
      (m'.run between).number handle = .ok (id, m'.run between)) ∧
    (∀ handle, let erased := m.erase handle
      erased.id? handle = none ∧
      (∀ other, other ≠ handle → erased.id? other = m.id? other) ∧
      (m.id? handle = none → erased = m) ∧
      (∀ id, m.id? handle = some id → ∀ later, (erased.run later).handle? id = none) ∧
      (numbers.length < max.toNat → numbers.length + 1 ∉ numbers ∧
        ∃ m', erased.number handle = .ok (numbers.length + 1, m'))) ∧
    (∀ handle, (∃ e, m.number handle = .error e) ↔
      m.id? handle = none ∧ numbers.length = max.toNat) ∧
    (numbers.length = max.toNat → ∀ later, m.allocations later = [] ∧ ∀ handle,
      ((m.run later).id? handle = none →
        (m.run later).number handle = .error (.idsExhausted max.toNat) ∧
        (m.run later).perform (.number handle) = m.run later) ∧
      (∀ id, (m.run later).id? handle = some id →
        (m.run later).number handle = .ok (id, m.run later))) := by
  intro m numbers
  have hm : m.Valid := (valid_empty max.toNat).run operations
  have hmax : m.max = max.toNat := max_run (empty max.toNat) operations
  have hgiven : m.given = numbers.length := by
    rw [given_run, given_empty, Nat.zero_add]
  have hrange : numbers = List.range' 1 numbers.length := by
    have hrange := allocations_eq_range' (empty max.toNat) operations
    rwa [given_empty] at hrange
  have hlength : numbers.length ≤ max.toNat := by
    rw [← hgiven, ← hmax]
    exact hm.given_le
  have hstable : ∀ handle id m' between, m.number handle = .ok (id, m') →
      .erase handle ∉ between →
      (m'.run between).number handle = .ok (id, m'.run between) := by
    intro handle id m' between hnumber hbetween
    have hid : m'.id? handle = some id := by rw [id?_number hnumber, if_pos rfl]
    exact number_of_id? (id?_run hid hbetween)
  have hrefused : ∀ handle, (∃ e, m.number handle = .error e) ↔
      m.id? handle = none ∧ numbers.length = max.toNat := by
    intro handle
    rw [number_error_iff hm (hmax ▸ max.toNat_lt_size) handle, hgiven, hmax]
  have hfresh : numbers.length + 1 ∉ numbers := by
    rw [hrange, List.mem_range'_1, List.length_range']
    omega
  have hagain : ∀ handle, numbers.length < max.toNat → numbers.length + 1 ∉ numbers ∧
      ∃ m', (m.erase handle).number handle = .ok (numbers.length + 1, m') := by
    intro handle hleft
    rw [← hmax, ← hgiven] at hleft
    refine ⟨hfresh, ?_⟩
    rw [← hgiven]
    exact number_erase (hmax ▸ max.toNat_lt_size) hleft handle
  have herased : ∀ handle id, m.id? handle = some id →
      ∀ later, ((m.erase handle).run later).handle? id = none := by
    intro handle id hid later
    refine handle?_run (hm.erase handle) ?_ (handle?_erase hm hid) later
    rw [given_erase]
    exact (hm.range id handle ((hm.id_iff handle id).mp hid)).2
  refine ⟨hm.id_iff, ⟨hrange, hlength⟩, hstable, fun handle => ⟨?_, fun other hother => ?_,
    erase_of_id?, herased handle, hagain handle⟩, hrefused, ?_⟩
  · rw [id?_erase, if_pos rfl]
  · rw [id?_erase, if_neg hother.symm]
  intro hfull later
  have hall : m.max ≤ m.given := by rw [hmax, hgiven, hfull]
  have hnone := allocations_of_max_le hm hall later
  refine ⟨hnone, fun handle => ⟨fun hid => ?_, fun id hid => number_of_id? hid⟩⟩
  have herror : (m.run later).number handle = .error (.idsExhausted max.toNat) := by
    rw [← hmax, ← max_run m later]
    apply number_of_max_le hid
    rw [max_run, given_run, hnone]
    exact hall
  exact ⟨herror, by simp only [perform, herror]⟩

/-- The engine uses a native handle for a breakpoint and a watchpoint, and once more for
a breakpoint when the first one is gone. -/
theorem laws_of_run_again :
    let breakpoint : Handle := ⟨7, .breakpoint⟩
    let watchpoint : Handle := ⟨7, .watchpoint⟩
    let m := (empty 100).run [.number breakpoint, .number watchpoint]
    let erased := m.erase breakpoint
    m.id? breakpoint = some 1 ∧ erased.id? breakpoint = none ∧ erased.id? watchpoint = some 2 ∧
    (∀ later, (erased.run later).handle? 1 = none) ∧
    ∃ m', erased.number breakpoint = .ok (3, m') := by
  intro breakpoint watchpoint m erased
  obtain ⟨-, -, -, herase, -⟩ := laws_of_run 100 [.number breakpoint, .number watchpoint]
  obtain ⟨hnone, hothers, -, hlost, hagain⟩ := herase breakpoint
  have hfirst : m.id? breakpoint = some 1 := by decide +kernel
  have hsecond : m.id? watchpoint = some 2 := by decide +kernel
  have hgiven : ((empty (100 : UInt32).toNat).allocations
      [.number breakpoint, .number watchpoint]).length = 2 := by
    decide +kernel
  rw [hgiven] at hagain
  exact ⟨hfirst, hnone, (hothers watchpoint (by decide)).trans hsecond, hlost 1 hfirst,
    (hagain (by decide)).2⟩

end MachineInterface.Numbering
