import MachineInterface.Proofs.Records
import MachineInterface.Proofs.Threads

/-!
# MachineInterface.Proofs.Preservation

Notifications keep what commands have put into the records.  A notification has
one effect on the session at most, and none if its handling fails
(`Act.atomic_handle`).  It leaves alone what does not belong to its handle
(`Notification.Effect.agree`), and a record of its handle keeps all that the
client has asked for (`Notification.Effect.kept`).
-/

namespace MachineInterface

variable {σ τ α β : Type}

/-! ## Effects -/

/-- What a notification does to the session if it is handled to the end. -/
inductive Notification.Effect (n : Notification) (s : Session) : Session → Prop
  | idle : Effect n s s
  | added {handle : Handle} {t : Session} {id : Nat} (hn : n = .stoppoint handle .added)
      (hid : s.number handle = .ok (id, t)) (state : StoppointState) (site : Site) :
    Effect n s (t.merge id (.ofEngine handle id t.threadGroup state site) (·.observed state)).2
  | reported {handle : Handle} {id : Nat} (hn : n.handle? = some handle)
      (hid : s.id? handle = some id) (state : StoppointState) (site : Option Site) :
    Effect n s (s.update id (·.reported state site)).2
  | hit {handle : Handle} {id : Nat} (hn : n.handle? = some handle)
      (hid : s.id? handle = some id) (count : Nat) :
    Effect n s (s.update id ({ · with hitCount := count })).2
  | removed {handle : Handle} (hn : n = .stoppoint handle .removed) :
    Effect n s (s.forget handle).2

namespace Act

theorem session_orWarn (topic : String) (r : Except EngineError α) (a : Adapter σ τ) :
    ((orWarn topic r : Act σ τ (Option α)).after a).session = a.session := by
  cases r <;> rfl

theorem session_idOf (handle : Handle) (a : Adapter σ τ) :
    ((idOf handle).after a).session = a.session := by
  rw [idOf, after_bind_of_ok (session_apply a)]
  cases a.session.id? handle <;> rfl

theorem session_emit [Sink τ] (record : Record) (a : Adapter σ τ) :
    ((emit record).after a).session = a.session := by
  rw [after_emit]

/-! ## Notifications -/

open Notification (Effect)

variable [Engine σ]

/-- The hit count is brought up to date, and nothing else. -/
theorem atomic_refreshHits {n : Notification} {handle : Handle} (hn : n.handle? = some handle)
    (a : Adapter σ τ) : Atomic n.Effect (refreshHits handle) a := by
  refine Atomic.bind rfl fun s b hs _ => ?_
  cases hs
  cases hid : a.session.id? handle with
  | none => exact .idle
  | some id =>
      refine Atomic.bind rfl fun answer b hb hsession => ?_
      refine Atomic.bind (session_orWarn _ answer b) fun state c _ hcs => ?_
      have hcid : c.session.id? handle = some id := by rw [hcs, hsession, hid]
      cases state with
      | none => exact .idle
      | some state => exact .hit hn hcid state.hitCount

/-- Finding the reason of a stop brings at most a hit count up to date. -/
theorem atomic_reasonFields (thread : Nat) (reason : StopReason) (frame : Option Frame)
    (a : Adapter σ τ) :
    Atomic (Notification.stopped thread reason).Effect (reasonFields reason frame) a := by
  have hdone : ∀ (fields : Option Results) (b : Adapter σ τ),
      Atomic (Notification.stopped thread reason).Effect (pure fields : Act σ τ _) b :=
    fun fields b => .idle
  cases reason with
  | breakpoint native =>
      refine Atomic.then ((atomic_refreshHits rfl a).then fun p b _ => ?_)
        fun _ b _ => ⟨_, b, rfl, rfl⟩
      cases p <;> exact ⟨_, _, rfl, rfl⟩
  | watchpoint native =>
      refine Atomic.then ((atomic_refreshHits rfl a).then fun p b _ => ?_)
        fun _ b _ => ⟨_, b, rfl, rfl⟩
      cases p <;> exact ⟨_, _, rfl, rfl⟩
  | trace | planComplete => cases frame <;> exact hdone _ a
  | signal number =>
      simp only [reasonFields]
      split
      · exact Atomic.bind rfl fun _ b _ _ => atomic_demandAsk fun _ c _ => hdone none c
      · exact hdone _ a
  | exception description => exact hdone _ a
  | other => exact hdone _ a

variable [Sink τ] [Sink.Reliable τ]

omit [Engine σ] in
theorem notify_safe (kind : AsyncKind) (results : Results) (a : Adapter σ τ) :
    ∃ w b, notify kind results a = .ok w b ∧ b.session = a.session := by
  obtain ⟨sink, journal, hemit⟩ := emit_ok (.async ⟨kind, results⟩) a
  exact ⟨(), _, hemit, rfl⟩

theorem atomic_stopped (thread : Nat) (reason : StopReason) (a : Adapter σ τ) :
    Atomic (Notification.stopped thread reason).Effect (stopped thread reason) a := by
  refine Atomic.bind rfl fun frame b _ _ => ?_
  refine (atomic_reasonFields thread reason frame b).then fun fields c _ => ?_
  cases fields with
  | none => exact ⟨_, c, rfl, rfl⟩
  | some fields => exact notify_safe _ _ c

/-- A new stoppoint is numbered and recorded at one go. -/
theorem atomic_stoppointAdded (handle : Handle) (a : Adapter σ τ) :
    Atomic (Notification.stoppoint handle .added).Effect (stoppointAdded handle) a := by
  refine Atomic.bind rfl fun answer b _ _ => ?_
  refine Atomic.bind (session_demand answer b) fun state c _ _ => ?_
  refine Atomic.bind rfl fun answer d _ _ => ?_
  refine Atomic.bind (session_demand answer d) fun site e _ _ => ?_
  cases hnumber : e.session.number handle with
  | error cause =>
      have herror : number handle e = .error cause e := by rw [number_apply, hnumber]
      rw [Atomic, bind_of_error herror]
  | ok r =>
      obtain ⟨id, s⟩ := r
      have hok : number handle e = .ok id { e with session := s } := by rw [number_apply, hnumber]
      let fresh := Stoppoint.ofEngine handle id s.threadGroup state site
      let merged := s.merge id fresh (·.observed state)
      obtain ⟨w, f, hnotify, hf⟩ := notify_safe
        (if merged.1.2 then .breakpointCreated else .breakpointModified)
        [("bkpt", .tuple merged.1.1.results)] { e with session := merged.2 }
      refine atomic_of_ok ((bind_of_ok hok _).trans hnotify) ?_
      rw [hf]
      exact .added rfl hnumber state site

omit [Engine σ] in
theorem atomic_refreshRecord {n : Notification} {handle : Handle} {id : Nat} {a : Adapter σ τ}
    (hn : n.handle? = some handle) (hid : a.session.id? handle = some id) (state : StoppointState)
    (site : Option Site) : Atomic n.Effect (refreshRecord handle id state site) a := by
  have hupdate : inSession (·.update id (·.reported state site)) a =
      .ok (a.session.update id (·.reported state site)).1
        { a with session := (a.session.update id (·.reported state site)).2 } := rfl
  cases hold : a.session.stoppoint? id with
  | none =>
      have hsame : a.session.update id (·.reported state site) = (none, a.session) := by
        simp only [Session.update, hold]
      rw [refreshRecord, Atomic, bind_of_ok hupdate, hsame]
      rfl
  | some old =>
      have hnew : (a.session.update id (·.reported state site)).1 =
          some (old.reported state site) := by
        simp only [Session.update, hold]
      obtain ⟨w, b, hnotify, hb⟩ := notify_safe .breakpointModified
        [("bkpt", .tuple (old.reported state site).results)]
        { a with session := (a.session.update id (·.reported state site)).2 }
      have hok : refreshRecord handle id state site a = .ok w b := by
        rw [refreshRecord, bind_of_ok hupdate, hnew]
        exact hnotify
      refine atomic_of_ok hok ?_
      rw [hb]
      exact .reported hn hid state site

theorem atomic_stoppointModified {n : Notification} {handle : Handle}
    (hn : n.handle? = some handle) (moved : Bool) (a : Adapter σ τ) :
    Atomic n.Effect (stoppointModified handle moved) a := by
  refine Atomic.bind (session_idOf handle a) fun id b hok _ => ?_
  obtain ⟨rfl, hid⟩ := idOf_eq_ok hok
  refine Atomic.bind rfl fun answer c _ hc => ?_
  refine Atomic.bind (session_demand answer c) fun state d _ hd => ?_
  have hid : d.session.id? handle = some id := by rw [hd, hc, hid]
  cases moved with
  | false => exact atomic_refreshRecord hn hid state none
  | true =>
      refine Atomic.bind rfl fun answer e _ he => ?_
      refine Atomic.bind (session_orWarn _ answer e) fun site f _ hf => ?_
      exact atomic_refreshRecord hn (by rw [hf, he, hid]) state site

omit [Engine σ] in
theorem atomic_stoppointRemoved (handle : Handle) (a : Adapter σ τ) :
    Atomic (Notification.stoppoint handle .removed).Effect (stoppointRemoved handle) a := by
  have hforget : Atomic (Notification.stoppoint handle .removed).Effect
      (inSession (·.forget handle)) a :=
    .removed rfl
  refine hforget.then fun id b _ => ?_
  cases id with
  | none => exact ⟨_, _, rfl, rfl⟩
  | some id => exact notify_safe _ _ b

theorem atomic_stoppointChanged (handle : Handle) (event : StoppointEvent) (a : Adapter σ τ) :
    Atomic (Notification.stoppoint handle event).Effect (stoppointChanged handle event) a := by
  cases event with
  | added => exact atomic_stoppointAdded handle a
  | removed => exact atomic_stoppointRemoved handle a
  | locationsAdded count =>
      refine Atomic.bind (session_idOf handle a) fun id b _ _ => ?_
      refine Atomic.bind (session_emit _ b) fun _ c _ _ => ?_
      exact atomic_stoppointModified rfl true c
  | locationsResolved => exact atomic_stoppointModified rfl true a
  | enabled | disabled | commandChanged | conditionChanged | ignoreChanged
  | autoContinueChanged | threadChanged => exact atomic_stoppointModified rfl false a

omit [Engine σ] [Sink.Reliable τ] in
/-- Notices alone do nothing to the session. -/
theorem session_forM_notify (kind : AsyncKind) (results : α → Results) (xs : List α)
    (a : Adapter σ τ) :
    ((xs.forM fun x => notify kind (results x)).after a).session = a.session :=
  (walks_forM (S := Session.Same) (E := fun _ _ => False)
    (fun _ => walks_notify fun _ => rfl) xs).session_eq a

/-- **Notifications**: handling one has its effect on the session, or none if it
fails. -/
theorem atomic_handle (n : Notification) (a : Adapter σ τ) : Atomic n.Effect (handle n) a := by
  cases n with
  | running => exact atomic_of_session_eq (session_emit _ a) .idle
  | stopped thread reason =>
      obtain ⟨b, hsync, hsession, -⟩ := syncThreads_eq a
      refine Atomic.bind ?_ fun _ c _ _ => atomic_stopped thread reason c
      rw [after_of_ok hsync, hsession]
  | suspended => exact .idle
  | exited code =>
      obtain ⟨b, hend, hsession, -⟩ := endThreads_eq a
      refine Atomic.bind (by rw [after_of_ok hend, hsession]) fun _ c _ _ => ?_
      refine Atomic.bind rfl fun s d _ _ => Atomic.bind (session_emit _ d) fun _ e _ _ => ?_
      exact atomic_of_session_eq (session_emit _ e) .idle
  | stoppoint handle event => exact atomic_stoppointChanged handle event a
  | modulesLoaded modules =>
      exact atomic_of_session_eq (session_forM_notify _ _ modules a) .idle
  | modulesUnloaded modules =>
      exact atomic_of_session_eq (session_forM_notify _ _ modules a) .idle

end Act

/-! ## Records behind effects -/

/-- What the client has asked for is kept; a place that is pending may be found. -/
structure Stoppoint.Kept (p q : Stoppoint) : Prop where
  handle : q.handle = p.handle
  id : q.id = p.id
  oneShot : q.oneShot = p.oneShot
  ignoreCount : q.ignoreCount = p.ignoreCount
  condition : q.condition = p.condition
  thread : q.thread = p.thread
  clientLocation : q.clientLocation = p.clientLocation
  threadGroup : q.threadGroup = p.threadGroup
  watch : q.watch = p.watch
  pending : q.pending = true → p.pending = true

namespace Stoppoint

theorem Kept.refl (p : Stoppoint) : p.Kept p :=
  ⟨rfl, rfl, rfl, rfl, rfl, rfl, rfl, rfl, rfl, fun h => h⟩

theorem Kept.trans {p q r : Stoppoint} (hq : p.Kept q) (hr : q.Kept r) : p.Kept r where
  handle := hr.handle.trans hq.handle
  id := hr.id.trans hq.id
  oneShot := hr.oneShot.trans hq.oneShot
  ignoreCount := hr.ignoreCount.trans hq.ignoreCount
  condition := hr.condition.trans hq.condition
  thread := hr.thread.trans hq.thread
  clientLocation := hr.clientLocation.trans hq.clientLocation
  threadGroup := hr.threadGroup.trans hq.threadGroup
  watch := hr.watch.trans hq.watch
  pending h := hq.pending (hr.pending h)

theorem kept_reported (p : Stoppoint) (state : StoppointState) (site : Option Site) :
    p.Kept (p.reported state site) := by
  cases site with
  | none => exact ⟨rfl, rfl, rfl, rfl, rfl, rfl, rfl, rfl, rfl, fun h => h⟩
  | some site =>
      refine ⟨rfl, rfl, rfl, rfl, rfl, rfl, rfl, rfl, rfl, fun h => ?_⟩
      exact (Bool.and_eq_true_iff.mp h).1

theorem kept_hit (p : Stoppoint) (count : Nat) : p.Kept { p with hitCount := count } :=
  ⟨rfl, rfl, rfl, rfl, rfl, rfl, rfl, rfl, rfl, fun h => h⟩

end Stoppoint

/-- The sessions agree on the number and the record of a handle. -/
structure Session.AgreeOn (handle : Handle) (s t : Session) : Prop where
  id? : t.id? handle = s.id? handle
  handle? : ∀ id, t.numbering.handle? id = some handle ↔ s.numbering.handle? id = some handle
  record : ∀ id p, p.handle = handle → (t.stoppoint? id = some p ↔ s.stoppoint? id = some p)

namespace Session

variable {s t : Session}

theorem stoppoint?_number {handle : Handle} {id : Nat} (h : s.number handle = .ok (id, t))
    (other : Nat) : t.stoppoint? other = s.stoppoint? other := by
  obtain ⟨m, -, rfl⟩ := number_cases h
  rfl

/-- Merging changes the record under its number, or adds one. -/
theorem stoppoint?_merge_eq (s : Session) (merged id : Nat) (fresh : Stoppoint)
    (f : Stoppoint → Stoppoint) : (s.merge merged fresh f).2.stoppoint? id =
      if merged = id then some (((s.stoppoint? id).map f).getD fresh) else s.stoppoint? id := by
  have hinsert : ∀ p : Stoppoint, ({ s with stoppoints := s.stoppoints.insert merged p } :
      Session).stoppoint? id = if merged = id then some p else s.stoppoint? id := by
    simp [stoppoint?, Std.ExtTreeMap.getElem?_insert]
  cases hold : s.stoppoint? merged with
  | none =>
      simp only [merge, update, hold, hinsert]
      split
      · next heq => rw [← heq, hold, Option.map_none, Option.getD_none]
      · rfl
  | some old =>
      simp only [merge, update, hold, hinsert]
      split
      · next heq => rw [← heq, hold, Option.map_some, Option.getD_some]
      · rfl

/-- Sessions agree on all handles but one if they agree on all numbers but one
and on all records but those of that handle. -/
theorem agreeOn_of_ne (changed : Nat) {subject : Handle} (hs : s.numbering.Valid)
    (ht : t.numbering.Valid) (hids : ∀ handle, handle ≠ subject → t.id? handle = s.id? handle)
    (hrecords : ∀ id, changed ≠ id → t.stoppoint? id = s.stoppoint? id)
    (hbefore : ∀ p, s.stoppoint? changed = some p → p.handle = subject)
    (hbehind : ∀ p, t.stoppoint? changed = some p → p.handle = subject)
    {handle : Handle} (hne : handle ≠ subject) : AgreeOn handle s t where
  id? := hids handle hne
  handle? id := by
    rw [← ht.id_iff, ← hs.id_iff]
    exact Eq.congr_left (hids handle hne)
  record id p hp := by
    by_cases hid : changed = id
    · subst hid
      exact ⟨fun h => (hne (hp ▸ hbehind p h)).elim, fun h => (hne (hp ▸ hbefore p h)).elim⟩
    · rw [hrecords id hid]

theorem AgreeOn.refl (handle : Handle) (s : Session) : AgreeOn handle s s :=
  ⟨rfl, fun _ => .rfl, fun _ _ _ => .rfl⟩

/-- An update under the number of one handle leaves the others alone. -/
theorem agreeOn_update {subject handle : Handle} {id : Nat} {f : Stoppoint → Stoppoint}
    (hs : s.Consistent) (ht : (s.update id f).2.Consistent) (hid : s.id? subject = some id)
    (hne : handle ≠ subject) : AgreeOn handle s (s.update id f).2 := by
  have hids : ∀ other, (s.update id f).2.id? other = s.id? other := fun other => by
    rw [id?, numbering_update, id?]
  refine agreeOn_of_ne id hs.valid ht.valid (fun other _ => hids other) ?_ ?_ ?_ hne
  · exact fun other hother => by rw [stoppoint?_update, if_neg hother]
  · exact fun p hp => hs.handle_eq hid hp
  · exact fun p hp => ht.handle_eq ((hids subject).trans hid) hp

end Session

namespace Notification.Effect

variable {n : Notification} {s t : Session}

/-- A record keeps what the client has asked for, unless its removal is told. -/
theorem kept (h : n.Effect s t) (hs : s.Consistent) {id : Nat} {p : Stoppoint}
    (hp : s.stoppoint? id = some p) (hn : n ≠ .stoppoint p.handle .removed) :
    ∃ q, t.stoppoint? id = some q ∧ p.Kept q := by
  cases h with
  | idle => exact ⟨p, hp, .refl p⟩
  | @added handle s' numbered hadded hid state site =>
      rw [Session.stoppoint?_merge_eq, Session.stoppoint?_number hid, hp]
      split
      · exact ⟨_, rfl, Stoppoint.kept_reported p state Option.none⟩
      · exact ⟨p, rfl, .refl p⟩
  | reported hhandle hid state site =>
      rw [Session.stoppoint?_update, hp]
      split
      · exact ⟨_, rfl, Stoppoint.kept_reported p state site⟩
      · exact ⟨p, rfl, .refl p⟩
  | hit hhandle hid count =>
      rw [Session.stoppoint?_update, hp]
      split
      · exact ⟨_, rfl, Stoppoint.kept_hit p count⟩
      · exact ⟨p, rfl, .refl p⟩
  | @removed handle hremoved =>
      cases hid : s.id? handle with
      | none =>
          rw [Session.forget_of_id? hid]
          exact ⟨p, hp, .refl p⟩
      | some forgotten =>
          have hne : forgotten ≠ id := by
            rintro rfl
            exact hn (hs.handle_eq hid hp ▸ hremoved)
          rw [Session.stoppoint?_forget hid, if_neg hne]
          exact ⟨p, hp, .refl p⟩

/-- Other handles keep their numbers and their records as they are. -/
theorem agreeOn (h : n.Effect s t) (hs : s.Consistent) (ht : t.Consistent) {handle : Handle}
    (hn : n.handle? ≠ some handle) : Session.AgreeOn handle s t := by
  cases h with
  | idle => exact .refl handle s
  | @added subject s' numbered hadded hid state site =>
      have hne : handle ≠ subject := fun heq => hn (by rw [hadded, heq]; rfl)
      have hs' : s'.Consistent := hs.change (.number hid)
      have hsubject : s'.id? subject = some numbered := Session.id?_number hid
      refine Session.agreeOn_of_ne numbered hs.valid ht.valid ?_ ?_ ?_ ?_ hne
      · intro other hother
        obtain ⟨m, hm, rfl⟩ := Session.number_cases hid
        rw [Session.id?, Session.numbering_merge, Numbering.id?_number hm, if_neg hother.symm]
        rfl
      · exact fun id hother => by
          rw [Session.stoppoint?_merge_eq, if_neg hother, Session.stoppoint?_number hid]
      · exact fun p hp => hs'.handle_eq hsubject ((Session.stoppoint?_number hid _).trans hp)
      · refine fun p hp => ht.handle_eq ?_ hp
        rwa [Session.id?, Session.numbering_merge]
  | @reported subject numbered hhandle hid state site =>
      exact Session.agreeOn_update hs ht hid fun heq => hn (heq ▸ hhandle)
  | @hit subject numbered hhandle hid count =>
      exact Session.agreeOn_update hs ht hid fun heq => hn (heq ▸ hhandle)
  | @removed subject hremoved =>
      have hne : handle ≠ subject := fun heq => hn (by rw [hremoved, heq]; rfl)
      cases hid : s.id? subject with
      | none =>
          rw [Session.forget_of_id? hid]
          exact .refl handle s
      | some numbered =>
          refine Session.agreeOn_of_ne numbered hs.valid ht.valid ?_ ?_
            (fun p => hs.handle_eq hid) ?_ hne
          · intro other hother
            rw [Session.id?, Session.numbering_forget, Numbering.id?_erase, if_neg hother.symm]
            rfl
          · exact fun id hother => by rw [Session.stoppoint?_forget hid, if_neg hother]
          · intro p hp
            rw [Session.stoppoint?_forget hid, if_pos rfl] at hp
            cases hp

end Notification.Effect

/-! ## Runs -/

/-- Handle notifications one after the other, whether their handling succeeds or
fails; the engine may have moved on before each. -/
def Adapter.handleEach [Engine σ] [Sink τ] (a : Adapter σ τ) (xs : List (σ × Notification)) :
    Adapter σ τ :=
  xs.foldl (fun a x => (Act.handle x.2).after { a with engine := x.1 }) a

namespace Adapter

variable [Engine σ] [Sink τ]

/-- Handling a notification keeps the session consistent. -/
theorem consistent_handle (n : Notification) {a : Adapter σ τ} (h : a.session.Consistent) :
    ((Act.handle n).after a).session.Consistent :=
  (Act.walks_handle n a).session_invariant (fun _ _ hs hst => hs.change hst.change) h

variable [Sink.Reliable τ]

/-- Behind any notifications the session is still consistent, and a record whose
removal is not told has kept what the client has asked for. -/
theorem kept_handleEach {a : Adapter σ τ} (h : a.session.Consistent)
    (xs : List (σ × Notification)) :
    (a.handleEach xs).session.Consistent ∧
      ∀ id p, a.session.stoppoint? id = some p →
        (∀ x ∈ xs, x.2 ≠ .stoppoint p.handle .removed) →
        ∃ q, (a.handleEach xs).session.stoppoint? id = some q ∧ p.Kept q := by
  induction xs generalizing a with
  | nil => exact ⟨h, fun id p hp _ => ⟨p, hp, .refl p⟩⟩
  | cons x xs ih =>
      let moved : Adapter σ τ := { a with engine := x.1 }
      have heffect : x.2.Effect a.session ((Act.handle x.2).after moved).session :=
        (Act.atomic_handle x.2 moved).after .idle
      obtain ⟨hconsistent, hrest⟩ := ih (consistent_handle x.2 (a := moved) h)
      refine ⟨hconsistent, fun id p hp hn => ?_⟩
      obtain ⟨q, hq, hfirst⟩ := heffect.kept h hp (hn x List.mem_cons_self)
      obtain ⟨r, hr, hlast⟩ := hrest id q hq fun y hy => by
        rw [hfirst.handle]
        exact hn y (List.mem_cons_of_mem x hy)
      exact ⟨r, hr, hfirst.trans hlast⟩

/-- Notifications never overwrite what the client has asked for.  Whatever comes
in, a record whose removal is not told is still there and keeps all that
commands have put into it, though a pending place may be found.  What a
notification says about one handle changes nothing that belongs to another, and
if its handling fails, records and numbers are left exactly as they were. -/
theorem command_fields_preserved {a : Adapter σ τ} (h : a.session.Consistent)
    (xs : List (σ × Notification)) :
    let b := a.handleEach xs
    (∀ id p, a.session.stoppoint? id = some p →
      (∀ x ∈ xs, x.2 ≠ .stoppoint p.handle .removed) →
      ∃ q, b.session.stoppoint? id = some q ∧ p.Kept q) ∧
    ∀ (n : Notification) (e : σ), let c := { b with engine := e }
      (∀ handle, n.handle? ≠ some handle →
        Session.AgreeOn handle b.session ((Act.handle n).after c).session) ∧
      ∀ error d, Act.handle n c = .error error d → d.session = b.session := by
  intro b
  obtain ⟨hb, hkept⟩ := kept_handleEach h xs
  refine ⟨hkept, fun n e => ?_⟩
  intro c
  refine ⟨fun handle hn => ?_, fun error d hd => ?_⟩
  · have heffect : n.Effect b.session ((Act.handle n).after c).session :=
      (Act.atomic_handle n c).after .idle
    exact heffect.agreeOn hb (consistent_handle n (a := c) hb) hn
  · have hatomic := Act.atomic_handle n c
    rw [Act.Atomic, hd] at hatomic
    exact hatomic

end Adapter

/-- The engine reports a breakpoint that a command has created, and then that it
is disabled; its condition and its ignore count are those of the command. -/
theorem Table.command_fields_preserved_table :
    let a := (Adapter.new {} ({} : Table) Discard.discard).run .standard
      [.line "1-break-insert -c x -i 3 main"]
    let handle : Handle := ⟨1, .breakpoint⟩
    let b := a.handleEach
      [(a.engine, .stoppoint handle .added), (a.engine, .stoppoint handle .disabled)]
    ∃ p q, a.session.stoppoint? 1 = some p ∧ p.condition = some "x" ∧ p.ignoreCount = 3 ∧
      b.session.stoppoint? 1 = some q ∧ p.Kept q := by
  intro a handle b
  have hconsistent : a.session.Consistent :=
    (Adapter.consistent_run {} ({} : Table) Discard.discard .standard _).1
  obtain ⟨p, hp, hcondition, hignore⟩ : ∃ p, a.session.stoppoint? 1 = some p ∧
      p.condition = some "x" ∧ p.ignoreCount = 3 := by
    decide +kernel
  obtain ⟨hkept, -⟩ := Adapter.command_fields_preserved hconsistent
    [(a.engine, .stoppoint handle .added), (a.engine, .stoppoint handle .disabled)]
  obtain ⟨q, hq, hpq⟩ := hkept 1 p hp (by simp)
  exact ⟨p, q, hp, hcondition, hignore, hq, hpq⟩

end MachineInterface
