import Std.Data.ExtTreeMap
import MachineInterface.Stoppoint.Handle
import MachineInterface.Error

/-!
# MachineInterface.Stoppoint.Numbering

The numbers of stoppoints.  Numbers are given out in order from 1 up to a
largest one and never a second time, also when the engine uses a native
handle again.  The counter has 32 bits; it stops at 0 when it has run
through all of them.
-/

namespace MachineInterface

/-- Two maps, from handles to numbers and back, and the next number. -/
structure Numbering where
  /-- The largest number that may be given out. -/
  max : Nat
  /-- The next number; 0 if no number of 32 bits is left. -/
  next : UInt32
  ids : Std.ExtTreeMap Handle Nat
  handles : Std.ExtTreeMap Nat Handle

namespace Numbering

/-- No stoppoint is numbered yet. -/
def empty (max : Nat) : Numbering := ⟨max, 1, ∅, ∅⟩

/-- The number of a handle. -/
def id? (m : Numbering) (handle : Handle) : Option Nat := m.ids[handle]?

/-- The handle of a number. -/
def handle? (m : Numbering) (id : Nat) : Option Handle := m.handles[id]?

/-- The number of a handle; an unnumbered handle gets the next number.  Behind
the largest number of 32 bits the counter comes back to 0 and stays there. -/
def number (m : Numbering) (handle : Handle) : Except Error (Nat × Numbering) :=
  match m.id? handle with
  | some id => .ok (id, m)
  | none =>
    if m.next = 0 ∨ m.max < m.next.toNat then .error (.idsExhausted m.max)
    else .ok (m.next.toNat, { m with
      next := m.next + 1
      ids := m.ids.insert handle m.next.toNat
      handles := m.handles.insert m.next.toNat handle })

/-- Forget the number of a handle. -/
def erase (m : Numbering) (handle : Handle) : Numbering :=
  match m.id? handle with
  | none => m
  | some id => { m with ids := m.ids.erase handle, handles := m.handles.erase id }

def size (m : Numbering) : Nat := m.ids.size

/-- How many numbers were given out: all below the next one, which is 0 when
the counter has come round. -/
def given (m : Numbering) : Nat := (m.next - 1).toNat

/-- The two maps are inverse to each other, every number in them was given
out, and no number above the largest was. -/
structure Valid (m : Numbering) : Prop where
  id_iff : ∀ handle id, m.id? handle = some id ↔ m.handle? id = some handle
  range : ∀ id handle, m.handle? id = some handle → 1 ≤ id ∧ id ≤ m.given
  given_le : m.given ≤ m.max

@[simp] theorem id?_empty (max : Nat) (handle : Handle) : (empty max).id? handle = none := by
  simp [empty, id?]

@[simp] theorem handle?_empty (max id : Nat) : (empty max).handle? id = none := by
  simp [empty, handle?]

@[simp] theorem given_empty (max : Nat) : (empty max).given = 0 := by
  simp [empty, given]

/-! ## Numbering a handle -/

/-- A numbered handle keeps its number, and the map stays as it is. -/
theorem number_of_id? {m : Numbering} {handle : Handle} {id : Nat}
    (h : m.id? handle = some id) : m.number handle = .ok (id, m) := by
  simp [number, h]

/-- The next number, while there is one, is one more than were given out. -/
theorem toNat_next {m : Numbering} (h : m.next ≠ 0) : m.next.toNat = m.given + 1 := by
  have hpos : m.next.toNat ≠ 0 := fun hz => h (UInt32.toNat_inj.mp hz)
  have hle : (1 : UInt32) ≤ m.next := by
    rw [UInt32.le_iff_toNat_le]
    exact Nat.one_le_iff_ne_zero.mpr hpos
  have hsub : (m.next - 1).toNat = m.next.toNat - 1 := UInt32.toNat_sub_of_le m.next 1 hle
  rw [given, hsub]
  omega

/-- Numbering either finds the handle's number or gives it the next one. -/
theorem number_cases {m m' : Numbering} {handle : Handle} {id : Nat}
    (h : m.number handle = .ok (id, m')) :
    (m.id? handle = some id ∧ m' = m) ∨
    (m.id? handle = none ∧ id = m.given + 1 ∧ id ≤ m.max ∧ m' = { m with
      next := m.next + 1
      ids := m.ids.insert handle id
      handles := m.handles.insert id handle }) := by
  unfold number at h
  split at h
  · next old hold =>
    obtain ⟨rfl, rfl⟩ := by simpa using h
    exact .inl ⟨hold, rfl⟩
  · next hnone =>
    split at h
    · cases h
    · next hleft =>
      obtain ⟨hnext, hmax⟩ := not_or.mp hleft
      obtain ⟨rfl, rfl⟩ := by simpa using h
      exact .inr ⟨hnone, toNat_next hnext, Nat.le_of_not_lt hmax, rfl⟩

/-- Numbering fails for an unnumbered handle when no number is left, and for
no other reason. -/
theorem number_error {m : Numbering} {handle : Handle} {e : Error}
    (h : m.number handle = .error e) : m.id? handle = none ∧ e = .idsExhausted m.max := by
  unfold number at h
  split at h
  · cases h
  · next hnone =>
    split at h
    · exact ⟨hnone, (Except.error.inj h).symm⟩
    · cases h

/-- A number that is given out anew is one more than were given out before, and
it counts from then on. -/
theorem given_number {m m' : Numbering} {handle : Handle} {id : Nat}
    (h : m.number handle = .ok (id, m')) :
    m'.given = if m.id? handle = none then m.given + 1 else m.given := by
  unfold number at h
  split at h
  · next old hold =>
    obtain ⟨rfl, rfl⟩ := by simpa using h
    simp [hold]
  · next hnone =>
    split at h
    · cases h
    · next hleft =>
      obtain ⟨rfl, rfl⟩ := by simpa using h
      rw [if_pos hnone, ← toNat_next (not_or.mp hleft).1]
      simp [given]

@[simp] theorem max_number {m m' : Numbering} {handle : Handle} {id : Nat}
    (h : m.number handle = .ok (id, m')) : m'.max = m.max := by
  obtain ⟨-, rfl⟩ | ⟨-, -, -, rfl⟩ := number_cases h <;> rfl

/-- A handle that is numbered anew gets the next number, and no other handle
changes its number. -/
theorem id?_number {m m' : Numbering} {handle : Handle} {id : Nat}
    (h : m.number handle = .ok (id, m')) (other : Handle) :
    m'.id? other = if handle = other then some id else m.id? other := by
  obtain ⟨hid, rfl⟩ | ⟨-, -, -, rfl⟩ := number_cases h
  · split
    · next heq => rw [← heq, hid]
    · rfl
  · simp [id?, Std.ExtTreeMap.getElem?_insert]

/-- While numbers are left, every handle has a number or gets one. -/
theorem number_ok {m : Numbering} (hmax : m.max < UInt32.size) (hleft : m.given < m.max)
    (handle : Handle) : ∃ id m', m.number handle = .ok (id, m') := by
  cases hid : m.id? handle with
  | some id => exact ⟨id, m, number_of_id? hid⟩
  | none =>
      have hnext : m.next ≠ 0 := by
        intro hz
        have : m.given = UInt32.size - 1 := by simp [given, hz]
        omega
      have hle : ¬ m.max < m.next.toNat := by
        rw [toNat_next hnext]
        omega
      simp only [number, hid, hnext, hle, or_self, ↓reduceIte]
      exact ⟨_, _, rfl⟩

/-- Once the largest number is given out, no further handle gets one. -/
theorem number_of_max_le {m : Numbering} {handle : Handle} (h : m.id? handle = none)
    (hmax : m.max ≤ m.given) : m.number handle = .error (.idsExhausted m.max) := by
  have hout : m.next = 0 ∨ m.max < m.next.toNat := by
    by_cases hz : m.next = 0
    · exact .inl hz
    · rw [toNat_next hz]
      exact .inr (Nat.lt_succ_of_le hmax)
  simp [number, h, hout]

/-! ## Erasing a handle -/

/-- Erasing a handle takes its number off it and no other. -/
@[simp] theorem id?_erase (m : Numbering) (handle other : Handle) :
    (m.erase handle).id? other = if handle = other then none else m.id? other := by
  unfold erase
  split
  · next hnone =>
    split
    · next heq => rw [← heq, hnone]
    · rfl
  · simp [id?, Std.ExtTreeMap.getElem?_erase]

/-- Erasing an unnumbered handle changes nothing. -/
theorem erase_of_id? {m : Numbering} {handle : Handle} (h : m.id? handle = none) :
    m.erase handle = m := by
  simp [erase, h]

/-- Erasing gives no number back. -/
@[simp] theorem given_erase (m : Numbering) (handle : Handle) :
    (m.erase handle).given = m.given := by
  unfold erase
  split <;> rfl

@[simp] theorem max_erase (m : Numbering) (handle : Handle) : (m.erase handle).max = m.max := by
  unfold erase
  split <;> rfl

/-! ## Validity -/

/-- The two maps of a new numbering are inverse to each other. -/
theorem valid_empty (max : Nat) : (empty max).Valid where
  id_iff := by simp
  range := by simp
  given_le := by simp

/-- Numbering keeps the two maps inverse. -/
theorem Valid.number {m m' : Numbering} {handle : Handle} {id : Nat} (hm : m.Valid)
    (h : m.number handle = .ok (id, m')) : m'.Valid := by
  have hgiven := given_number h
  obtain ⟨-, rfl⟩ | ⟨hnone, hid, hle, rfl⟩ := number_cases h
  · exact hm
  · rw [if_pos hnone] at hgiven
    have hfresh : m.handle? id = none := by
      cases hh : m.handle? id with
      | none => rfl
      | some h' =>
          have := (hm.range id h' hh).2
          omega
    constructor
    case id_iff =>
      intro h' i
      have hiff := hm.id_iff h' i
      simp only [id?, handle?, Std.ExtTreeMap.getElem?_insert, Std.LawfulEqCmp.compare_eq_iff_eq]
        at hiff hfresh hnone ⊢
      by_cases hhandle : handle = h'
      · subst hhandle
        by_cases hi : id = i
        · simp [hi]
        · rw [if_pos rfl, if_neg hi, ← hiff, hnone]
          simp [hi]
      · by_cases hi : id = i
        · subst hi
          rw [if_neg hhandle, if_pos rfl, hiff, hfresh]
          simp [hhandle]
        · rw [if_neg hhandle, if_neg hi, hiff]
    case range =>
      intro i h' hi
      have hr := hm.range i h'
      simp only [handle?, Std.ExtTreeMap.getElem?_insert, Std.LawfulEqCmp.compare_eq_iff_eq]
        at hr hi
      rw [hgiven]
      split at hi
      · omega
      · have := hr hi
        omega
    case given_le =>
      rw [hgiven, ← hid]
      exact hle

/-- Erasing keeps the two maps inverse. -/
theorem Valid.erase {m : Numbering} (hm : m.Valid) (handle : Handle) : (m.erase handle).Valid := by
  have hgiven := given_erase m handle
  unfold Numbering.erase at hgiven ⊢
  split
  · exact hm
  · next id hid =>
    simp only [hid] at hgiven
    constructor
    case id_iff =>
      intro h' i
      have hiff := hm.id_iff h' i
      have hback := (hm.id_iff handle id).mp hid
      simp only [id?, handle?, Std.ExtTreeMap.getElem?_erase, Std.LawfulEqCmp.compare_eq_iff_eq]
        at hiff hback hid ⊢
      by_cases hhandle : handle = h'
      · subst hhandle
        by_cases hi : id = i
        · simp [hi]
        · rw [if_pos rfl, if_neg hi, ← hiff, hid]
          simp [hi]
      · by_cases hi : id = i
        · subst hi
          rw [if_neg hhandle, if_pos rfl, hiff, hback]
          simp [hhandle]
        · rw [if_neg hhandle, if_neg hi, hiff]
    case range =>
      intro i h' hi
      simp only [handle?, Std.ExtTreeMap.getElem?_erase] at hi
      rw [hgiven]
      split at hi
      · cases hi
      · exact hm.range i h' hi
    case given_le =>
      rw [hgiven]
      exact hm.given_le

end Numbering

end MachineInterface
