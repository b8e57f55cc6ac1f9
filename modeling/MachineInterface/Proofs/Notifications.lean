import MachineInterface.Adapter.Notify
import MachineInterface.Proofs.Mentions
import MachineInterface.Proofs.Moves

/-!
# MachineInterface.Proofs.Notifications

What handling a notification can do: the changes of a session that are due to
one handle, with what the client is told meanwhile (`Session.NotificationStep`),
and requests that leave the stoppoints of the engine as they are
(`Request.isInquiry`).  `walks_handle` walks through the handling of all
notifications.
-/

namespace MachineInterface

variable {σ τ : Type}

/-- The stoppoint that a notification speaks of. -/
def Notification.handle? : Notification → Option Handle
  | .stopped _ (.breakpoint native) => some ⟨native, .breakpoint⟩
  | .stopped _ (.watchpoint native) => some ⟨native, .watchpoint⟩
  | .stoppoint handle _ => some handle
  | _ => none

/-- The requests that are made for a notification: questions, and the wish to
go on. -/
def Request.isInquiry : Request → Prop
  | stoppointState _ | site _ | threads | selectedThread | frame .. | resume => True
  | _ => False

/-- A change of the session that is due to a notification about `subject`, or
a record that the client is told. -/
inductive Session.NotificationStep :
    (subject : Option Handle) → Session → Option Record → Session → Prop
  | number {handle : Handle} {s s' : Session} {id : Nat} (h : s.number handle = .ok (id, s')) :
    NotificationStep (some handle) s none s'
  | add {handle : Handle} {s : Session} {id : Nat} (h : s.id? handle = some id)
      (state : StoppointState) (site : Site) :
    NotificationStep (some handle) s none
      (s.merge id (.ofEngine handle id s.threadGroup state site) (·.observed state)).2
  | report {handle : Handle} {s : Session} {id : Nat} (h : s.id? handle = some id)
      (state : StoppointState) (site : Option Site) :
    NotificationStep (some handle) s none (s.update id (·.reported state site)).2
  | hit {handle : Handle} {s : Session} {id : Nat} (h : s.id? handle = some id) (count : Nat) :
    NotificationStep (some handle) s none (s.update id ({ · with hitCount := count })).2
  | forget {handle : Handle} {s : Session} :
    NotificationStep (some handle) s none (s.forget handle).2
  | deleted {handle : Handle} {s : Session} {id : Nat} (h : s.id? handle = some id) :
    NotificationStep (some handle) s (some (.deletion id)) (s.forget handle).2
  | news {subject : Option Handle} {s : Session} {record : Record} (h : s.Supports record) :
    NotificationStep subject s (some record) s

/-- A change of the session that is due to a notification, or a record that the
client is told. -/
def Notification.Step (n : Notification) : Session → Option Record → Session → Prop :=
  Session.NotificationStep n.handle?

namespace Act

open Session (NotificationStep)

/-! ## Numbers -/

/-- Numbering a handle numbers it in the session and does nothing else. -/
theorem number_apply (handle : Handle) (a : Adapter σ τ) :
    number handle a = match a.session.number handle with
      | .ok (id, s) => .ok id { a with session := s }
      | .error e => .error e a := by
  change (ofExcept (a.session.number handle) >>= fun r : Nat × Session =>
    (modifySession fun _ => r.2) >>= fun _ => (pure r.1 : Act σ τ Nat)) a = _
  cases a.session.number handle with
  | ok r => rfl
  | error e => rfl

/-- The number of a handle comes from the session. -/
theorem idOf_eq_ok {handle : Handle} {a b : Adapter σ τ} {id : Nat}
    (h : idOf handle a = .ok id b) : b = a ∧ a.session.id? handle = some id := by
  obtain ⟨s, c, hs, hmatch⟩ := bind_eq_ok.mp h
  cases hs
  cases hid : a.session.id? handle with
  | none =>
      simp only [hid] at hmatch
      cases hmatch
  | some i =>
      simp only [hid] at hmatch
      cases hmatch
      exact ⟨rfl, rfl⟩

/-- A handle that was numbered has its number in the session. -/
theorem id?_of_number {handle : Handle} {a b : Adapter σ τ} {id : Nat}
    (h : number handle a = .ok id b) : b.session.id? handle = some id := by
  rw [number_apply] at h
  cases hn : a.session.number handle with
  | error e => simp [hn] at h
  | ok r =>
      obtain ⟨rfl, rfl⟩ := by simpa [hn] using h
      exact Session.id?_number hn

section Walks

variable [Sink τ] {S : Session → Option Record → Session → Prop} {E : σ → σ → Prop}
  {subject : Option Handle}

theorem walks_number (handle : Handle) :
    Walks (NotificationStep (some handle)) E (number handle : Act σ τ Nat) := by
  intro a
  simp only [after, number_apply]
  cases h : a.session.number handle with
  | ok r => exact .single (.session (.number h))
  | error e => exact .refl

theorem walks_idOf (handle : Handle) : Walks S E (idOf handle : Act σ τ Nat) := by
  refine walks_session.bind fun s => ?_
  cases s.id? handle with
  | some id => exact walks_pure id
  | none => exact walks_throw _

/-! ## Threads -/

/-- Records that mention no stoppoint may always be written. -/
theorem walks_plain {kind : AsyncKind} {results : Results} (hkind : kind ≠ .breakpointDeleted)
    (h : results.Plain) :
    Walks (NotificationStep subject) E (notify kind results : Act σ τ Unit) :=
  walks_notify fun _ => .news (Session.supports_plain hkind h)

theorem walks_notifyThreads {kind : AsyncKind} (hkind : kind ≠ .breakpointDeleted)
    (threads : List Nat) :
    Walks (NotificationStep subject) E (notifyThreads kind threads : Act σ τ Unit) := by
  refine walks_forM (fun _ => walks_session.bind fun _ => walks_plain hkind ?_) threads
  simp [numberField, field]
  decide

theorem walks_notifySelection (last selected : Option Nat) :
    Walks (NotificationStep subject) E (notifySelection last selected : Act σ τ Unit) := by
  cases selected with
  | none => exact walks_pure _
  | some thread =>
      simp only [notifySelection]
      split
      · exact walks_pure _
      · refine walks_plain (by decide) ?_
        simp [numberField]
        decide

theorem walks_endThreads : Walks (NotificationStep subject) E (endThreads : Act σ τ Unit) :=
  walks_threadView.bind fun _ => (walks_modifyThreadView _).bind fun _ =>
    (walks_notifyThreads (by decide) _).bind fun _ => walks_modifyThreadView _

theorem walks_exited (code : Int) :
    Walks (NotificationStep subject) E (exited code : Act σ τ Unit) := by
  refine walks_endThreads.bind fun _ => walks_session.bind fun s => ?_
  refine (walks_plain (by decide) ?_).bind fun _ => walks_plain (by decide) ?_
  · simp [field]
    decide
  · split <;> simp [field] <;> decide

variable [Engine σ]

theorem walks_syncThreads :
    Walks (NotificationStep subject) (Engine.Asked Request.isInquiry)
      (syncThreads : Act σ τ Unit) :=
  (walks_ask .threads trivial).bind fun _ => walks_threadView.bind fun _ =>
    (walks_notifyThreads (by decide) _).bind fun _ =>
    (walks_notifyThreads (by decide) _).bind fun _ =>
    (walks_modifyThreadView _).bind fun _ =>
    (walks_ask .selectedThread trivial).bind fun _ => walks_threadView.bind fun _ =>
    (walks_notifySelection _ _).bind fun _ => walks_modifyThreadView _

/-! ## Stops -/

theorem walks_refreshHits (handle : Handle) :
    Walks (NotificationStep (some handle)) (Engine.Asked Request.isInquiry)
      (refreshHits handle : Act σ τ (Option Stoppoint)) := by
  intro a
  refine moves_bind (walks_session a) fun s b hs => ?_
  obtain ⟨rfl, rfl⟩ : a.session = s ∧ a = b := by cases hs; exact ⟨rfl, rfl⟩
  cases hid : a.session.id? handle with
  | none => exact walks_pure _ a
  | some id =>
      refine moves_bind (walks_ask (.stoppointState handle) trivial a) fun r b hb => ?_
      have hbs := session_of_ask hb
      refine moves_bind (walks_orWarn _ r b) fun state c hc => ?_
      have hcs := (session_of_orWarn hc).trans hbs
      cases state with
      | none => exact (walks_session.bind fun _ => walks_pure _) c
      | some state =>
          refine .single (.session (.hit ?_ state.hitCount))
          rw [hcs, hid]

omit [Sink τ] in
/-- The record of a stop is one that the session knows. -/
theorem knows_of_refreshHits {handle : Handle} {p : Stoppoint} {a b : Adapter σ τ}
    (h : refreshHits handle a = .ok (some p) b) : b.session.Knows p.id := by
  obtain ⟨s, a', hs, h⟩ := bind_eq_ok.mp h
  cases hs
  cases hid : a.session.id? handle with
  | none =>
      simp only [hid] at h
      cases h
  | some id =>
      simp only [hid] at h
      obtain ⟨r, c, hask, h⟩ := bind_eq_ok.mp h
      obtain ⟨state, d, hwarn, h⟩ := bind_eq_ok.mp h
      have hd : d.session.id? handle = some id := by
        rw [session_of_orWarn hwarn, session_of_ask hask, hid]
      cases state with
      | none =>
          obtain ⟨hp, rfl⟩ : d.session.stoppoint? id = some p ∧ d = b := by
            simpa [session, bind, EStateM.bind, pure, EStateM.pure] using h
          exact ⟨handle, id, hd, .inr ⟨p, hp, rfl⟩⟩
      | some state =>
          simp only [inSession_apply, EStateM.Result.ok.injEq] at h
          obtain ⟨hp, rfl⟩ := h
          refine ⟨handle, id, ?_, .inr ⟨p, Session.stoppoint?_of_update_eq_some hp, rfl⟩⟩
          rw [Session.id?, Session.numbering_update]
          exact hd

theorem walks_breakpointReason (native : Nat) (frame : Results) :
    Walks (NotificationStep (some ⟨native, .breakpoint⟩)) (Engine.Asked Request.isInquiry)
      (breakpointReason native frame : Act σ τ Results) := by
  refine (walks_refreshHits _).bind fun p => ?_
  cases p with
  | some p => exact walks_pure _
  | none => exact (walks_say _ _).bind fun _ => walks_pure _

theorem walks_watchpointReason (native : Nat) (frame : Results) :
    Walks (NotificationStep (some ⟨native, .watchpoint⟩)) (Engine.Asked Request.isInquiry)
      (watchpointReason native frame : Act σ τ Results) := by
  refine (walks_refreshHits _).bind fun p => ?_
  cases p with
  | some p => exact walks_pure _
  | none => exact (walks_say _ _).bind fun _ => walks_pure _

theorem walks_reasonFields (thread : Nat) (reason : StopReason) (frame : Option Frame) :
    Walks (Notification.stopped thread reason).Step (Engine.Asked Request.isInquiry)
      (reasonFields reason frame : Act σ τ (Option Results)) := by
  cases reason with
  | breakpoint native => exact (walks_breakpointReason native _).bind fun _ => walks_pure _
  | watchpoint native => exact (walks_watchpointReason native _).bind fun _ => walks_pure _
  | trace => cases frame <;> exact walks_pure _
  | planComplete => cases frame <;> exact walks_pure _
  | signal number =>
      simp only [reasonFields]
      split
      · exact (walks_say _ _).bind fun _ => (walks_ask .resume trivial).bind fun r =>
          (walks_demand r).bind fun _ => walks_pure _
      · exact walks_pure _
  | exception description => exact walks_pure _
  | other => exact walks_pure _

omit [Sink τ] in
theorem gives_breakpointReason (native : Nat) {frame : Results} :
    Gives Session.Covers (breakpointReason native frame : Act σ τ Results) := by
  intro a fields b h
  obtain ⟨p, c, hrefresh, h⟩ := bind_eq_ok.mp h
  cases p with
  | some p =>
      cases h
      intro n hn
      obtain rfl : n = p.id := by
        simpa [Results.Mention, Results.stoppointNames, numberField, field, Nat.repr_inj] using hn
      exact knows_of_refreshHits hrefresh
  | none =>
      cases h
      exact Session.covers_plain (by simp; decide)

omit [Sink τ] in
theorem gives_watchpointReason (native : Nat) {frame : Results} :
    Gives Session.Covers (watchpointReason native frame : Act σ τ Results) := by
  intro a fields b h
  obtain ⟨p, c, hrefresh, h⟩ := bind_eq_ok.mp h
  cases p with
  | some p =>
      cases h
      intro n hn
      have hwatch : n = p.id := by
        simpa [Results.Mention, Results.stoppointNames, numberField, field,
          Stoppoint.watchResults, Nat.repr_inj] using hn
      rw [hwatch]
      exact knows_of_refreshHits hrefresh
  | none =>
      cases h
      exact Session.covers_plain (by simp; decide)

omit [Engine σ] [Sink τ] in
theorem plain_signalFields (number : Int) : (signalFields number).Plain := by
  unfold signalFields
  cases Signal.name? number with
  | none => simp [field]; decide
  | some name => cases hmeaning : Signal.meaning? name <;> simp [field, hmeaning] <;> decide

omit [Sink τ] in
/-- The session knows the stoppoint that the reason of a stop mentions. -/
theorem gives_reasonFields (reason : StopReason) (frame : Option Frame) :
    Gives (fun s fields => ∀ results ∈ fields, s.Covers results)
      (reasonFields reason frame : Act σ τ (Option Results)) := by
  have hsome : ∀ {s : Session} {results : Results}, s.Covers results →
      ∀ fields ∈ some results, s.Covers fields := by
    rintro s results h _ ⟨⟩
    exact h
  have hplain : ∀ {results : Results}, results.Plain →
      Gives (fun s fields => ∀ results ∈ fields, s.Covers results)
        (pure (some results) : Act σ τ (Option Results)) :=
    fun h => gives_pure fun _ => hsome (Session.covers_plain h)
  cases reason with
  | breakpoint native => exact (gives_breakpointReason native).bind_pure fun _ _ => hsome
  | watchpoint native => exact (gives_watchpointReason native).bind_pure fun _ _ => hsome
  | trace => cases frame <;> exact hplain (by simp [field]; decide)
  | planComplete => cases frame <;> exact hplain (by simp [field]; decide)
  | signal number =>
      simp only [reasonFields]
      split
      · refine gives_bind fun _ => gives_bind fun _ => gives_bind fun _ => gives_pure ?_
        intro s results hresults
        cases hresults
      · refine hplain ?_
        simp [field, plain_signalFields]
        decide
  | exception description => exact hplain (by simp [field]; decide)
  | other => exact hplain (by simp; decide)

theorem walks_stopped (thread : Nat) (reason : StopReason) :
    Walks (Notification.stopped thread reason).Step (Engine.Asked Request.isInquiry)
      (stopped thread reason : Act σ τ Unit) := by
  refine (walks_ask (.frame thread 0) trivial).bind fun frame a => ?_
  refine moves_bind (walks_reasonFields thread reason frame a) fun fields b hb => ?_
  cases fields with
  | none => exact walks_pure _ b
  | some fields =>
      refine moves_emit .refl (.news (Session.supports_async (by decide) fun n hn => ?_))
      refine gives_reasonFields reason frame a _ b hb fields rfl n (hn.of_append ?_)
      simp [numberField, field]
      decide

/-! ## Changes -/

omit [Engine σ] in
/-- The client is told of a stoppoint that is recorded. -/
theorem moves_notifyStoppoint {kind : AsyncKind} {p : Stoppoint} {id : Nat} {a : Adapter σ τ}
    (handle : Handle) (hkind : kind ≠ .breakpointDeleted) (hid : a.session.id? handle = some id)
    (hp : a.session.stoppoint? id = some p) :
    Adapter.Moves (NotificationStep subject) E a ((notifyStoppoint kind p).after a) :=
  moves_emit .refl (.news (Session.supports_bkpt hkind hid hp))

theorem walks_stoppointAdded (handle : Handle) :
    Walks (NotificationStep (some handle)) (Engine.Asked Request.isInquiry)
      (stoppointAdded handle : Act σ τ Unit) := by
  refine (walks_ask (.stoppointState handle) trivial).bind fun r => ?_
  refine (walks_demand r).bind fun state => ?_
  refine (walks_ask (.site handle) trivial).bind fun r => ?_
  refine (walks_demand r).bind fun site a => ?_
  -- The record is added under a number that the session has for the handle.
  refine moves_bind (walks_number handle a) fun id b hb => ?_
  have hid : b.session.id? handle = some id := id?_of_number hb
  refine moves_bind (walks_session b) fun s c hc => ?_
  cases hc
  refine moves_bind (.single (.session (.add hid state site))) fun r c hc => ?_
  have hp := Session.stoppoint?_merge b.session id
    (.ofEngine handle id b.session.threadGroup state site) (·.observed state)
  simp only [inSession_apply, EStateM.Result.ok.injEq] at hc
  obtain ⟨hr, rfl⟩ := hc
  rw [hr] at hp
  refine moves_notifyStoppoint handle ?_ ?_ hp
  · split <;> decide
  · rw [Session.id?, Session.numbering_merge]
    exact hid

omit [Engine σ] in
/-- A record is brought up to date under the number of its handle. -/
theorem moves_refreshRecord {handle : Handle} {id : Nat} {a : Adapter σ τ}
    (hid : a.session.id? handle = some id) (state : StoppointState) (site : Option Site) :
    Adapter.Moves (NotificationStep (some handle)) E a
      ((refreshRecord handle id state site).after a) := by
  have hstep := NotificationStep.report hid state site
  refine moves_bind (.single (.session hstep)) fun p b hb => ?_
  simp only [inSession_apply, EStateM.Result.ok.injEq] at hb
  obtain ⟨hp, rfl⟩ := hb
  cases p with
  | some p =>
      refine moves_notifyStoppoint handle (by decide) ?_
        (Session.stoppoint?_of_update_eq_some hp)
      rw [Session.id?, Session.numbering_update]
      exact hid
  | none => exact walks_throw _ _

theorem walks_stoppointModified (handle : Handle) (moved : Bool) :
    Walks (NotificationStep (some handle)) (Engine.Asked Request.isInquiry)
      (stoppointModified handle moved : Act σ τ Unit) := by
  intro a
  refine moves_bind (walks_idOf handle a) fun id b hb => ?_
  obtain ⟨rfl, hid⟩ := idOf_eq_ok hb
  refine moves_bind (walks_ask (.stoppointState handle) trivial b) fun r c hc => ?_
  refine moves_bind (walks_demand r c) fun state d hd => ?_
  have hd : d.session.id? handle = some id := by
    rw [session_of_demand hd, session_of_ask hc, hid]
  cases moved with
  | false => exact moves_refreshRecord hd state none
  | true =>
      refine moves_bind (walks_ask (.site handle) trivial d) fun r e he => ?_
      refine moves_bind (walks_orWarn _ r e) fun site f hf => ?_
      have hf : f.session.id? handle = some id := by
        rw [session_of_orWarn hf, session_of_ask he, hd]
      exact moves_refreshRecord hf state site

omit [Engine σ] in
/-- A removal forgets the handle and tells so in one move. -/
theorem walks_stoppointRemoved (handle : Handle) :
    Walks (NotificationStep (some handle)) E (stoppointRemoved handle : Act σ τ Unit) := by
  intro a
  rw [stoppointRemoved, after_bind_of_ok (inSession_apply _ a)]
  cases hid : a.session.id? handle with
  | none =>
      rw [Session.forget_of_id? hid]
      exact walks_say _ _ a
  | some id =>
      have hforgotten : (a.session.forget handle).1 = some id := by simp only [Session.forget, hid]
      rw [hforgotten]
      let b : Adapter σ τ := { a with session := (a.session.forget handle).2 }
      have hsilent : Adapter.Moves (NotificationStep (some handle)) E a b :=
        .single (.session .forget)
      exact moves_emit (a := b) (s := a.session) hsilent (.deleted hid)

theorem walks_stoppointChanged (handle : Handle) (event : StoppointEvent) :
    Walks (NotificationStep (some handle)) (Engine.Asked Request.isInquiry)
      (stoppointChanged handle event : Act σ τ Unit) := by
  cases event with
  | added => exact walks_stoppointAdded handle
  | removed => exact walks_stoppointRemoved handle
  | locationsAdded count =>
      intro a
      refine moves_bind (walks_idOf handle a) fun id b hb => ?_
      obtain ⟨rfl, hid⟩ := idOf_eq_ok hb
      exact moves_bind (moves_emit .refl (.news (Session.supports_places hid count)))
        fun _ c _ => walks_stoppointModified handle true c
  | locationsResolved => exact walks_stoppointModified handle true
  | enabled | disabled | commandChanged | conditionChanged | ignoreChanged
  | autoContinueChanged | threadChanged => exact walks_stoppointModified handle false

/-- **Notifications**: handling one only asks the engine, changes the session
for the handle that it speaks of, and tells the client of stoppoints that the
session knows. -/
theorem walks_handle (n : Notification) :
    Walks n.Step (Engine.Asked Request.isInquiry) (handle n : Act σ τ Unit) := by
  cases n with
  | running => exact walks_plain (by decide) (by simp [field]; decide)
  | stopped thread reason =>
      exact walks_syncThreads.bind fun _ => walks_stopped thread reason
  | suspended => exact walks_say _ _
  | exited code => exact walks_exited code
  | stoppoint handle event => exact walks_stoppointChanged handle event
  | modulesLoaded modules =>
      refine walks_forM (fun m => walks_plain (by decide) ?_) modules
      cases hpath : m.symbolsPath <;>
        simp [numberField, field, Module.loadedResults, Module.nameFields, hpath] <;> decide
  | modulesUnloaded modules =>
      refine walks_forM (fun m => walks_plain (by decide) ?_) modules
      simp [field, Module.nameFields]
      decide

end Walks

end Act

end MachineInterface
