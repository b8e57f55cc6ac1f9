import MachineInterface.Proofs.Runs

/-!
# MachineInterface.Proofs.Records

Stoppoints have one record each.  Commands and notifications write the records
and the numbering apart from each other and may break off between, but all that
they do amounts to a few changes (`Session.Change`).  From these it follows that
in every session that a run can reach a record stands under its own number, and
that this is the number of its handle (`Session.Consistent`).
-/

namespace MachineInterface

variable {σ τ : Type}

namespace Session

variable {s t : Session}

/-! ## Changes -/

/-- What a step amounts to as far as stoppoints are concerned. -/
inductive Change (s : Session) : Session → Prop
  | number {t : Session} {handle : Handle} {id : Nat} (h : s.number handle = .ok (id, t)) :
    Change s t
  | record {p : Stoppoint} (h : s.id? p.handle = some p.id) : Change s (s.record p)
  | update (id : Nat) {f : Stoppoint → Stoppoint} (hid : ∀ p, (f p).id = p.id)
      (hhandle : ∀ p, (f p).handle = p.handle) : Change s (s.update id f).2
  | forget (handle : Handle) : Change s (s.forget handle).2
  | objects {t : Session} (hnumbering : t.numbering = s.numbering)
      (hstoppoints : t.stoppoints = s.stoppoints) : Change s t

/-- A stoppoint that the engine has created is recorded, or else the record that
is there changes. -/
theorem change_merge {p : Stoppoint} {f : Stoppoint → Stoppoint} (hp : s.id? p.handle = some p.id)
    (hid : ∀ p, (f p).id = p.id) (hhandle : ∀ p, (f p).handle = p.handle) :
    s.Change (s.merge p.id p f).2 := by
  have hupdate := Change.update (s := s) p.id hid hhandle
  unfold merge
  unfold update at hupdate ⊢
  cases hold : s.stoppoint? p.id with
  | none => exact .record hp
  | some old => simpa only [hold] using hupdate

theorem NotificationStep.change {subject : Option Handle} {record : Option Record}
    (h : NotificationStep subject s record t) : s.Change t := by
  cases h with
  | number hn => exact .number hn
  | @add handle _ id hid state site =>
      have hp : s.id? (Stoppoint.ofEngine handle id s.threadGroup state site).handle =
          some (Stoppoint.ofEngine handle id s.threadGroup state site).id := by
        rwa [Stoppoint.handle_ofEngine, Stoppoint.id_ofEngine]
      have hmerge := change_merge (f := (·.observed state)) hp (fun _ => rfl) fun _ => rfl
      rwa [Stoppoint.id_ofEngine] at hmerge
  | report hid state site => cases site <;> exact .update _ (fun _ => rfl) fun _ => rfl
  | hit hid count => exact .update _ (fun _ => rfl) fun _ => rfl
  | forget => exact .forget _
  | deleted hid => exact .forget _
  | news hsupports => exact .objects rfl rfl

theorem StoppointStep.change {record : Option Record} (h : s.StoppointStep record t) :
    s.Change t := by
  cases h with
  | notification n hn => exact hn.change
  | number hn => exact .number hn
  | insert hid i state site => exact .record hid
  | watch hid w state => exact .record hid
  | enable id enabled => exact .update id (fun _ => rfl) fun _ => rfl
  | ignore id count => exact .update id (fun _ => rfl) fun _ => rfl
  | condition id condition => exact .update id (fun _ => rfl) fun _ => rfl
  | forget handle => exact .forget handle

theorem Step.change {record : Option Record} (h : s.Step record t) : s.Change t := by
  cases h with
  | command h =>
      cases h with
      | stoppoints h => exact h.change
      | objects h => cases h <;> exact .objects rfl rfl
  | answer hcovers => exact .objects rfl rfl

/-! ## The numbering -/

/-- The numbering is left alone, or a handle is numbered or erased. -/
theorem Change.numbering_cases (h : s.Change t) : t.numbering = s.numbering ∨
    (∃ handle id, s.numbering.number handle = .ok (id, t.numbering)) ∨
    ∃ handle, t.numbering = s.numbering.erase handle := by
  cases h with
  | number hn =>
      obtain ⟨m, hm, rfl⟩ := number_cases hn
      exact .inr (.inl ⟨_, _, hm⟩)
  | record hp => exact .inl rfl
  | update id hid hhandle => exact .inl (numbering_update s id _)
  | forget handle => exact .inr (.inr ⟨handle, numbering_forget s handle⟩)
  | objects hnumbering hstoppoints => exact .inl hnumbering

theorem Change.valid (h : s.Change t) (hs : s.numbering.Valid) : t.numbering.Valid := by
  obtain heq | ⟨handle, id, hn⟩ | ⟨handle, heq⟩ := h.numbering_cases
  · rwa [heq]
  · exact hs.number hn
  · rw [heq]
    exact hs.erase handle

/-- The largest number is the one of the configuration for ever. -/
theorem Change.max_eq (h : s.Change t) : t.numbering.max = s.numbering.max := by
  obtain heq | ⟨handle, id, hn⟩ | ⟨handle, heq⟩ := h.numbering_cases
  · rw [heq]
  · exact Numbering.max_number hn
  · rw [heq, Numbering.max_erase]

/-! ## The records -/

/-- Every record is kept under its own number. -/
def Filed (s : Session) : Prop := ∀ id p, s.stoppoint? id = some p → p.id = id

/-- Every record is kept under the number of its handle. -/
def Mapped (s : Session) : Prop := ∀ id p, s.stoppoint? id = some p → s.id? p.handle = some id

/-- What an update leaves under a number was there before, changed or not. -/
theorem stoppoint?_of_update {id id' : Nat} {f : Stoppoint → Stoppoint} {q : Stoppoint}
    (hq : (s.update id f).2.stoppoint? id' = some q) :
    ∃ p, s.stoppoint? id' = some p ∧ (q = p ∨ q = f p) := by
  rw [stoppoint?_update] at hq
  split at hq
  · obtain ⟨p, hp, rfl⟩ := Option.map_eq_some_iff.mp hq
    exact ⟨p, hp, .inr rfl⟩
  · exact ⟨q, hq, .inl rfl⟩

/-- What is left when a handle is forgotten was there before, under another
number than the handle's. -/
theorem stoppoint?_of_forget {handle : Handle} {id : Nat} {p : Stoppoint}
    (hp : (s.forget handle).2.stoppoint? id = some p) :
    s.id? handle ≠ some id ∧ s.stoppoint? id = some p := by
  cases hid : s.id? handle with
  | none =>
      rw [forget_of_id? hid] at hp
      exact ⟨by simp, hp⟩
  | some forgotten =>
      rw [stoppoint?_forget hid] at hp
      split at hp
      · cases hp
      · next hne => exact ⟨fun heq => hne (Option.some.inj heq), hp⟩

theorem Filed.change (h : s.Filed) (hst : s.Change t) : t.Filed := by
  intro id q hq
  cases hst with
  | number hn =>
      obtain ⟨m, hm, rfl⟩ := number_cases hn
      exact h id q hq
  | record hp =>
      rw [stoppoint?_record] at hq
      split at hq
      · next hid => cases hq; exact hid
      · exact h id q hq
  | update updated hid hhandle =>
      obtain ⟨p, hp, rfl | rfl⟩ := stoppoint?_of_update hq
      · exact h id q hp
      · rw [hid, h id p hp]
  | forget handle => exact h id q (stoppoint?_of_forget hq).2
  | objects hnumbering hstoppoints =>
      rw [stoppoint?, hstoppoints] at hq
      exact h id q hq

theorem Mapped.change (h : s.Mapped) (hst : s.Change t) : t.Mapped := by
  intro id q hq
  cases hst with
  | @number _ handle _ hn =>
      obtain ⟨m, hm, rfl⟩ := number_cases hn
      have hid : s.numbering.id? q.handle = some id := h id q hq
      change m.id? q.handle = some id
      rw [Numbering.id?_number hm]
      by_cases heq : handle = q.handle
      · -- A numbered handle is given the number that it has.
        subst heq
        rw [Numbering.number_of_id? hid] at hm
        obtain ⟨rfl, -⟩ := Prod.mk.inj (Except.ok.inj hm)
        rw [if_pos rfl]
      · rw [if_neg heq, hid]
  | record hp =>
      change s.id? q.handle = some id
      rw [stoppoint?_record] at hq
      split at hq
      · next hid => cases hq; rw [hp, hid]
      · exact h id q hq
  | update updated hid hhandle =>
      rw [id?, numbering_update]
      obtain ⟨p, hp, rfl | rfl⟩ := stoppoint?_of_update hq
      · exact h id q hp
      · rw [hhandle]
        exact h id p hp
  | forget handle =>
      obtain ⟨hne, hq⟩ := stoppoint?_of_forget hq
      have hid := h id q hq
      rw [id?, numbering_forget, Numbering.id?_erase]
      have hother : handle ≠ q.handle := fun heq => hne (heq ▸ hid)
      rwa [if_neg hother]
  | objects hnumbering hstoppoints =>
      rw [stoppoint?, hstoppoints] at hq
      rw [id?, hnumbering]
      exact h id q hq

/-- A handle has one record at most. -/
theorem Mapped.id_unique (h : s.Mapped) {id id' : Nat} {p q : Stoppoint}
    (hp : s.stoppoint? id = some p) (hq : s.stoppoint? id' = some q)
    (hhandle : p.handle = q.handle) : id = id' := by
  have hid := h id p hp
  rw [hhandle, h id' q hq] at hid
  exact (Option.some.inj hid).symm

/-! ## Consistency -/

/-- Records, handles and numbers belong together. -/
structure Consistent (s : Session) : Prop where
  valid : s.numbering.Valid
  filed : s.Filed
  mapped : s.Mapped

theorem consistent_new (config : Config) : (new config).Consistent where
  valid := Numbering.valid_empty _
  filed := by simp [Filed, new, stoppoint?]
  mapped := by simp [Mapped, new, stoppoint?]

theorem Consistent.change (h : s.Consistent) (hst : s.Change t) : t.Consistent where
  valid := hst.valid h.valid
  filed := h.filed.change hst
  mapped := h.mapped.change hst

/-- The number of a record leads to its handle. -/
theorem Consistent.handle?_eq (h : s.Consistent) {id : Nat} {p : Stoppoint}
    (hp : s.stoppoint? id = some p) : s.numbering.handle? id = some p.handle :=
  (h.valid.id_iff p.handle id).mp (h.mapped id p hp)

/-- The record of a handle has the handle. -/
theorem Consistent.handle_eq (h : s.Consistent) {handle : Handle} {id : Nat} {p : Stoppoint}
    (hid : s.id? handle = some id) (hp : s.stoppoint? id = some p) : p.handle = handle := by
  have hback := (h.valid.id_iff handle id).mp hid
  rw [h.handle?_eq hp] at hback
  exact Option.some.inj hback

/-- Handles have different numbers. -/
theorem Consistent.handle_unique (h : s.Consistent) {handle other : Handle} {id : Nat}
    (hid : s.id? handle = some id) (hother : s.id? other = some id) : handle = other := by
  have hback := (h.valid.id_iff handle id).mp hid
  rw [(h.valid.id_iff other id).mp hother] at hback
  exact (Option.some.inj hback).symm

end Session

/-! ## Runs -/

/-- Whatever happens to an adapter, its session stays consistent and numbers
stoppoints up to the same largest number. -/
theorem Adapter.consistent_run [Engine σ] [Sink τ] (config : Config) (engine : σ) (sink : τ)
    (register : Register) (stimuli : List (Stimulus σ)) :
    let s := ((Adapter.new config engine sink).run register stimuli).session
    s.Consistent ∧ s.numbering.max = config.maxStoppointId := by
  exact Adapter.run_invariant
    (I := fun s => s.Consistent ∧ s.numbering.max = config.maxStoppointId)
    (fun s t h hst => ⟨h.1.change hst.change, hst.change.max_eq.trans h.2⟩)
    register ⟨Session.consistent_new config, rfl⟩ stimuli

/-- **One record for each stoppoint**: in every session that a run can reach,
whatever the engine answers and tells, the record under a number has this
number, its handle and the number belong to each other, and the number is in
the range of the configuration; no two records have the same handle. -/
theorem Adapter.records_of_run [Engine σ] [Sink τ] (config : Config) (engine : σ) (sink : τ)
    (register : Register) (stimuli : List (Stimulus σ)) :
    let s := ((Adapter.new config engine sink).run register stimuli).session
    (∀ id p, s.stoppoint? id = some p →
      p.id = id ∧ s.id? p.handle = some id ∧ s.numbering.handle? id = some p.handle ∧
      1 ≤ id ∧ id ≤ config.maxStoppointId) ∧
    (∀ id id' p q, s.stoppoint? id = some p → s.stoppoint? id' = some q →
      p.handle = q.handle → id = id') := by
  intro s
  obtain ⟨h, hmax⟩ := consistent_run config engine sink register stimuli
  have hrecord : ∀ id p, s.stoppoint? id = some p →
      p.id = id ∧ s.id? p.handle = some id ∧ s.numbering.handle? id = some p.handle ∧
      1 ≤ id ∧ id ≤ config.maxStoppointId := by
    intro id p hp
    have hhandle := h.handle?_eq hp
    have hrange := h.valid.range id p.handle hhandle
    have hle := h.valid.given_le
    exact ⟨h.filed id p hp, h.mapped id p hp, hhandle, hrange.1, by omega⟩
  exact ⟨hrecord, fun id id' p q => h.mapped.id_unique⟩

end MachineInterface
