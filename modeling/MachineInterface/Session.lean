import MachineInterface.Config
import MachineInterface.Stoppoint.Basic
import MachineInterface.Stoppoint.Numbering
import MachineInterface.Variable

/-!
# MachineInterface.Session

What the adapter remembers between command lines and notifications: the
numbers and records of stoppoints, and the variable objects.
-/

namespace MachineInterface

/-- The memory of an adapter. -/
structure Session where
  numbering : Numbering
  /-- The stoppoints by number. -/
  stoppoints : Std.ExtTreeMap Nat Stoppoint
  /-- The variable objects by name. -/
  objects : Std.ExtTreeMap String Variable
  /-- How many variable names were generated. -/
  generated : Nat
  threadGroup : String
  /-- The format of new variable objects. -/
  format : Format

namespace Session

/-- A session in which nothing has happened. -/
def new (config : Config) : Session where
  numbering := .empty config.maxStoppointId
  stoppoints := ∅
  objects := ∅
  generated := 0
  threadGroup := config.threadGroup
  format := config.format

/-! ## Stoppoints -/

/-- The number of a handle. -/
def id? (s : Session) (handle : Handle) : Option Nat := s.numbering.id? handle

/-- The number of a handle; an unnumbered handle gets the next number. -/
def number (s : Session) (handle : Handle) : Except Error (Nat × Session) :=
  (s.numbering.number handle).map fun (id, numbering) => (id, { s with numbering })

def stoppoint? (s : Session) (id : Nat) : Option Stoppoint := s.stoppoints[id]?

def stoppointOf? (s : Session) (handle : Handle) : Option Stoppoint :=
  (s.id? handle).bind s.stoppoint?

/-- Add or replace the record of a stoppoint. -/
def record (s : Session) (stoppoint : Stoppoint) : Session :=
  { s with stoppoints := s.stoppoints.insert stoppoint.id stoppoint }

/-- Change the record with a number, if there is one; also give the new
record. -/
def update (s : Session) (id : Nat) (f : Stoppoint → Stoppoint) : Option Stoppoint × Session :=
  match s.stoppoint? id with
  | none => (none, s)
  | some old => (some (f old), { s with stoppoints := s.stoppoints.insert id (f old) })

/-- Change the record with a number, or add one under it; also give the new
record and whether it was added. -/
def merge (s : Session) (id : Nat) (fresh : Stoppoint) (f : Stoppoint → Stoppoint) :
    (Stoppoint × Bool) × Session :=
  match s.update id f with
  | (some stoppoint, s) => ((stoppoint, false), s)
  | (none, s) => ((fresh, true), { s with stoppoints := s.stoppoints.insert id fresh })

/-- Drop the record with a number and keep the number. -/
def dropRecord (s : Session) (id : Nat) : Session :=
  { s with stoppoints := s.stoppoints.erase id }

/-- Drop the number and the record of a handle; also give the number. -/
def forget (s : Session) (handle : Handle) : Option Nat × Session :=
  match s.id? handle with
  | none => (none, s)
  | some id => (some id, { s.dropRecord id with numbering := s.numbering.erase handle })

/-- The records in the order of their numbers. -/
def stoppointList (s : Session) : List Stoppoint := s.stoppoints.values

/-! ## Variable objects -/

/-- The next generated name. -/
def nextName (s : Session) : String × Session :=
  (s!"var{s.generated + 1}", { s with generated := s.generated + 1 })

def object? (s : Session) (name : String) : Option Variable := s.objects[name]?

/-- Add or replace the object of a name. -/
def add (s : Session) (v : Variable) : Session :=
  { s with objects := s.objects.insert v.name v }

def remove (s : Session) (name : String) : Session :=
  { s with objects := s.objects.erase name }

/-- The names of all objects, in the order of code points. -/
def objectNames (s : Session) : List String := s.objects.keys

/-- All objects, in the order of their names. -/
def objectList (s : Session) : List Variable := s.objects.values

/-! ## What an operation leaves -/

/-- Numbering works on the numbering and on nothing else. -/
theorem number_cases {s s' : Session} {handle : Handle} {id : Nat}
    (h : s.number handle = .ok (id, s')) :
    ∃ m, s.numbering.number handle = .ok (id, m) ∧ s' = { s with numbering := m } := by
  unfold number at h
  cases hn : s.numbering.number handle with
  | error e => simp [hn, Except.map] at h
  | ok r =>
      obtain ⟨rfl, rfl⟩ := by simpa [hn, Except.map] using h
      exact ⟨r.2, rfl, rfl⟩

/-- Numbering fails only when no number is left for an unnumbered handle. -/
theorem number_error {s : Session} {handle : Handle} {e : Error}
    (h : s.number handle = .error e) :
    s.id? handle = none ∧ e = .idsExhausted s.numbering.max := by
  unfold number at h
  cases hn : s.numbering.number handle with
  | ok r => simp [hn, Except.map] at h
  | error e' =>
      obtain rfl : e' = e := by simpa [hn, Except.map] using h
      exact Numbering.number_error hn

/-- A numbered handle keeps its number, and the session stays as it is. -/
theorem number_of_id? {s : Session} {handle : Handle} {id : Nat} (h : s.id? handle = some id) :
    s.number handle = .ok (id, s) := by
  rw [number, Numbering.number_of_id? h]
  rfl

/-- A handle that was numbered has its number. -/
theorem id?_number {s s' : Session} {handle : Handle} {id : Nat}
    (h : s.number handle = .ok (id, s')) : s'.id? handle = some id := by
  obtain ⟨m, hm, rfl⟩ := number_cases h
  rw [id?, Numbering.id?_number hm, if_pos rfl]

@[simp] theorem stoppoint?_record (s : Session) (p : Stoppoint) (id : Nat) :
    (s.record p).stoppoint? id = if p.id = id then some p else s.stoppoint? id := by
  simp [record, stoppoint?, Std.ExtTreeMap.getElem?_insert]

@[simp] theorem stoppoint?_dropRecord (s : Session) (dropped id : Nat) :
    (s.dropRecord dropped).stoppoint? id = if dropped = id then none else s.stoppoint? id := by
  simp [dropRecord, stoppoint?, Std.ExtTreeMap.getElem?_erase]

@[simp] theorem stoppoint?_update (s : Session) (updated id : Nat) (f : Stoppoint → Stoppoint) :
    (s.update updated f).2.stoppoint? id =
      if updated = id then (s.stoppoint? id).map f else s.stoppoint? id := by
  unfold update
  split
  · rename_i h
    split
    · rename_i heq
      simp [← heq, h]
    · rfl
  · rename_i old h
    simp only [stoppoint?, Std.ExtTreeMap.getElem?_insert, Std.LawfulEqCmp.compare_eq_iff_eq]
      at h ⊢
    split
    · rename_i heq
      simp [← heq, h]
    · rfl

@[simp] theorem numbering_update (s : Session) (updated : Nat) (f : Stoppoint → Stoppoint) :
    (s.update updated f).2.numbering = s.numbering := by
  unfold update
  split <;> rfl

/-- An update gives the record that is there behind it. -/
theorem stoppoint?_of_update_eq_some {s : Session} {id : Nat} {f : Stoppoint → Stoppoint}
    {p : Stoppoint} (h : (s.update id f).1 = some p) :
    (s.update id f).2.stoppoint? id = some p := by
  rw [stoppoint?_update, if_pos rfl]
  unfold update at h
  cases hold : s.stoppoint? id with
  | none => simp [hold] at h
  | some old => simpa [hold] using h

/-- Merging gives the record that is there behind it. -/
theorem stoppoint?_merge (s : Session) (id : Nat) (fresh : Stoppoint) (f : Stoppoint → Stoppoint) :
    (s.merge id fresh f).2.stoppoint? id = some (s.merge id fresh f).1.1 := by
  unfold merge update
  cases s.stoppoint? id with
  | none => simp [stoppoint?]
  | some old => simp [stoppoint?]

@[simp] theorem numbering_merge (s : Session) (id : Nat) (fresh : Stoppoint)
    (f : Stoppoint → Stoppoint) : (s.merge id fresh f).2.numbering = s.numbering := by
  unfold merge update
  cases s.stoppoint? id <;> rfl

/-- Forgetting a handle takes its number off it. -/
@[simp] theorem numbering_forget (s : Session) (handle : Handle) :
    (s.forget handle).2.numbering = s.numbering.erase handle := by
  cases h : s.id? handle with
  | none =>
      rw [Numbering.erase_of_id? h]
      simp only [forget, h]
  | some id => simp only [forget, h]

/-- Forgetting a handle drops the record under its number. -/
theorem stoppoint?_forget {s : Session} {handle : Handle} {forgotten : Nat}
    (h : s.id? handle = some forgotten) (id : Nat) :
    (s.forget handle).2.stoppoint? id = if forgotten = id then none else s.stoppoint? id := by
  simp only [forget, h]
  exact stoppoint?_dropRecord s forgotten id

/-- Forgetting an unnumbered handle changes nothing. -/
theorem forget_of_id? {s : Session} {handle : Handle} (h : s.id? handle = none) :
    s.forget handle = (none, s) := by
  simp [forget, h]

/-! ## Sessions that differ in one record -/

/-- Sessions that agree on all stoppoints and on the rest are equal. -/
theorem eq_of_stoppoint? {s t : Session} (hrest : { s with stoppoints := t.stoppoints } = t)
    (h : ∀ id, s.stoppoint? id = t.stoppoint? id) : s = t := by
  have hstoppoints : s.stoppoints = t.stoppoints := Std.ExtTreeMap.ext_getElem? h
  rw [← hrest, ← hstoppoints]

/-- A record replaces the one under its number. -/
@[simp] theorem record_dropRecord (s : Session) (p : Stoppoint) :
    (s.dropRecord p.id).record p = s.record p := by
  refine eq_of_stoppoint? rfl fun id => ?_
  simp only [stoppoint?_dropRecord, stoppoint?_record]
  split <;> rfl

/-- Merging changes at most the record under its number. -/
@[simp] theorem dropRecord_merge (s : Session) (id : Nat) (fresh : Stoppoint)
    (f : Stoppoint → Stoppoint) :
    (s.merge id fresh f).2.dropRecord id = s.dropRecord id := by
  have hinsert : ∀ p : Stoppoint,
      ({ s with stoppoints := s.stoppoints.insert id p } : Session).dropRecord id =
        s.dropRecord id := by
    intro p
    refine eq_of_stoppoint? rfl fun other => ?_
    simp only [dropRecord, stoppoint?, Std.ExtTreeMap.getElem?_erase,
      Std.ExtTreeMap.getElem?_insert]
    split <;> rfl
  unfold merge update
  cases s.stoppoint? id with
  | none => exact hinsert fresh
  | some old => exact hinsert (f old)

/-- Merging changes nothing if the record is already as it is to be. -/
theorem merge_of_stoppoint? {s : Session} {id : Nat} {p : Stoppoint} {f : Stoppoint → Stoppoint}
    (h : s.stoppoint? id = some p) (hf : f p = p) (fresh : Stoppoint) :
    (s.merge id fresh f).2 = s := by
  unfold merge update
  simp only [h, hf]
  refine eq_of_stoppoint? rfl fun other => ?_
  simp only [stoppoint?, Std.ExtTreeMap.getElem?_insert, Std.LawfulEqCmp.compare_eq_iff_eq] at h ⊢
  split
  · next heq => rw [← heq, h]
  · rfl

/-! ## Objects -/

@[simp] theorem object?_add (s : Session) (v : Variable) (name : String) :
    (s.add v).object? name = if v.name = name then some v else s.object? name := by
  simp [add, object?, Std.ExtTreeMap.getElem?_insert]

@[simp] theorem object?_remove (s : Session) (removed name : String) :
    (s.remove removed).object? name = if removed = name then none else s.object? name := by
  simp [remove, object?, Std.ExtTreeMap.getElem?_erase]

end Session

end MachineInterface
