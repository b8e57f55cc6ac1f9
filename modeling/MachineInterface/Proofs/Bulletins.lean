import MachineInterface.Proofs.Preservation

/-!
# MachineInterface.Proofs.Bulletins

What the client is told of a change of a stoppoint.  A notification that is handled is told
with all its records, the last of which shows the stoppoint as it is recorded then, or tells
that it is gone (`Bulletin`).  One that is dropped has told nothing, except for the text
that announces new locations: this is written before the engine is asked for the state of
the stoppoint (`Act.bulletin_of_stoppoint`).
-/

namespace MachineInterface

variable {σ τ α : Type}

/-! ## Bulletins -/

/-- The text in front of the record of a stoppoint, if there is one. -/
def StoppointEvent.preface : StoppointEvent → Nat → List Record
  | .locationsAdded count, id =>
    [.stream ⟨.console, s!"{count} location(s) added to breakpoint {id}\n"⟩]
  | _, _ => []

/-- A record that shows a stoppoint. -/
def Stoppoint.bulletin (p : Stoppoint) (kind : AsyncKind) : Record :=
  .async ⟨kind, [("bkpt", .tuple p.results)]⟩

/-- What the client is told of a change of a stoppoint by which one session becomes the
other. -/
inductive Bulletin (s t : Session) (handle : Handle) : StoppointEvent → List Record → Prop
  /-- The stoppoint has a number that no record had. -/
  | created {id : Nat} {p : Stoppoint} (hid : t.id? handle = some id)
      (hp : t.stoppoint? id = some p) (hnew : s.stoppoint? id = none) :
    Bulletin s t handle .added [p.bulletin .breakpointCreated]
  /-- The stoppoint was recorded before. -/
  | known {id : Nat} {p : Stoppoint} (hid : t.id? handle = some id)
      (hp : t.stoppoint? id = some p) (hold : s.stoppoint? id ≠ none) :
    Bulletin s t handle .added [p.bulletin .breakpointModified]
  | deleted {id : Nat} (hid : s.id? handle = some id) :
    Bulletin s t handle .removed [.async ⟨.breakpointDeleted, [numberField "id" id]⟩]
  /-- The stoppoint had no number. -/
  | unknown (hid : s.id? handle = none) : Bulletin s t handle .removed []
  | modified {event : StoppointEvent} {id : Nat} {p : Stoppoint} (hadded : event ≠ .added)
      (hremoved : event ≠ .removed) (hid : s.id? handle = some id)
      (hp : t.stoppoint? id = some p) :
    Bulletin s t handle event (event.preface id ++ [p.bulletin .breakpointModified])

/-- A stoppoint with a record is new unless that record was there. -/
theorem Bulletin.added {s t : Session} {handle : Handle} {id : Nat} {p : Stoppoint}
    (hid : t.id? handle = some id) (hp : t.stoppoint? id = some p) :
    Bulletin s t handle .added
      [p.bulletin (if (s.stoppoint? id).isNone then .breakpointCreated else .breakpointModified)] := by
  cases hold : s.stoppoint? id with
  | none => exact .created hid hp hold
  | some old => exact .known hid hp (by rw [hold]; nofun)

theorem Session.added_merge (s : Session) (id : Nat) (fresh : Stoppoint)
    (f : Stoppoint → Stoppoint) : (s.merge id fresh f).1.2 = (s.stoppoint? id).isNone := by
  unfold merge update
  cases s.stoppoint? id <;> rfl

/-- The change of the stoppoint was told to the end. -/
def Adapter.Reports (a : Adapter σ τ) (handle : Handle) (event : StoppointEvent)
    (b : Adapter σ τ) : Prop :=
  ∃ records, b.written = a.written ++ records ∧ Bulletin a.session b.session handle event records

/-! ## Steps that write nothing -/

/-- Nothing was written, and the session is the same. -/
structure Adapter.Rests (a b : Adapter σ τ) : Prop where
  session : b.session = a.session
  output : b.output = a.output

namespace Adapter.Rests

variable {a b c : Adapter σ τ}

theorem refl (a : Adapter σ τ) : a.Rests a := ⟨rfl, rfl⟩

theorem trans (hab : a.Rests b) (hbc : b.Rests c) : a.Rests c :=
  ⟨hbc.session.trans hab.session, hbc.output.trans hab.output⟩

theorem written (h : a.Rests b) : b.written = a.written := by
  rw [Adapter.written, h.output, Adapter.written]

end Adapter.Rests

namespace Act

variable {β : Type} {a b : Adapter σ τ}

/-- Whatever comes of it, the step writes nothing and leaves the session alone. -/
def Idles (step : Act σ τ α) : Prop :=
  ∀ a, Leads step a (fun _ b => a.Rests b) (fun b => a.Rests b)

/-- What comes behind such a step is as if it began where the step did. -/
theorem Idles.bind {step : Act σ τ α} {next : α → Act σ τ β} {Q : β → Adapter σ τ → Prop}
    (h : Idles step) (hb : a.Rests b)
    (hnext : ∀ v c, a.Rests c → Leads (next v) c Q (fun d => d.written = a.written)) :
    Leads (step >>= next) b Q (fun d => d.written = a.written) :=
  ((h b).mono (fun _ _ hc => hc) fun _ hc => (hb.trans hc).written).bind
    fun v c hc => hnext v c (hb.trans hc)

theorem idles_ask [Engine σ] (request : Request) :
    Idles (ask request : Act σ τ request.Answer) :=
  fun _ => leads_of_ok rfl ⟨rfl, rfl⟩

theorem idles_demand (r : Except EngineError α) : Idles (demand r : Act σ τ α) := by
  intro a
  cases r <;> exact Adapter.Rests.refl a

theorem idles_orWarn (topic : String) (r : Except EngineError α) :
    Idles (orWarn topic r : Act σ τ (Option α)) := by
  intro a
  cases r with
  | ok value => exact Adapter.Rests.refl a
  | error cause => exact leads_bind_of_ok rfl (leads_pure ⟨rfl, rfl⟩)

theorem idOf_of_some {handle : Handle} {id : Nat} (hid : a.session.id? handle = some id) :
    idOf handle a = .ok id a := by
  rw [idOf, bind_of_ok (session_apply a), hid]
  rfl

theorem idOf_of_none {handle : Handle} (hid : a.session.id? handle = none) :
    idOf handle a = .error (.unresolvedStoppoint handle) a := by
  rw [idOf, bind_of_ok (session_apply a), hid]
  rfl

variable [Sink τ] [Sink.Reliable τ] {R : Adapter σ τ → Prop}

/-- What is not prompted for is written as one line, and the sink does not refuse it. -/
theorem leads_emit {record : Record} (hrecord : record.isPrompted = false) (a : Adapter σ τ) :
    Leads (emit record) a
      (fun _ b => b.session = a.session ∧ b.written = a.written ++ [record]) R := by
  obtain ⟨sink, journal, hemit⟩ := emit_ok record a
  refine leads_of_ok hemit ⟨rfl, ?_⟩
  simp [Adapter.written, Output.recordsOf, hrecord]

theorem leads_notifyStoppoint {kind : AsyncKind} (hkind : kind ≠ .stopped) (p : Stoppoint)
    (a : Adapter σ τ) :
    Leads (notifyStoppoint kind p) a
      (fun _ b => b.session = a.session ∧ b.written = a.written ++ [p.bulletin kind]) R :=
  leads_emit (by simpa [Record.isPrompted] using hkind) a

/-- The record that is shown is the one that the session has then. -/
theorem leads_refreshRecord (handle : Handle) (id : Nat) (state : StoppointState)
    (site : Option Site) (a : Adapter σ τ) :
    Leads (refreshRecord handle id state site) a
      (fun _ b => ∃ p, b.session.stoppoint? id = some p ∧
        b.written = a.written ++ [p.bulletin .breakpointModified])
      (fun b => b.written = a.written) := by
  refine leads_bind_of_ok (inSession_apply _ a) ?_
  cases hupdate : (a.session.update id (·.reported state site)).1 with
  | none => exact leads_throw rfl
  | some p =>
      have hp := Session.stoppoint?_of_update_eq_some hupdate
      refine (leads_notifyStoppoint (by decide) p _).mono ?_ fun _ hb => hb
      rintro _ b ⟨hsession, hwritten⟩
      exact ⟨p, by rw [hsession]; exact hp, hwritten⟩

theorem leads_stoppointRemoved (handle : Handle) (a : Adapter σ τ) :
    Leads (stoppointRemoved handle) a (fun _ b => a.Reports handle .removed b) R := by
  refine leads_bind_of_ok (inSession_apply _ a) ?_
  cases hid : a.session.id? handle with
  | none =>
      rw [Session.forget_of_id? hid]
      exact leads_of_ok rfl ⟨[], (List.append_nil _).symm, .unknown hid⟩
  | some id =>
      have hforgotten : (a.session.forget handle).1 = some id := by simp only [Session.forget, hid]
      rw [hforgotten]
      exact (leads_emit rfl _).mono (fun _ b hb => ⟨_, hb.2, .deleted hid⟩)
        fun _ hb => hb

variable [Engine σ]

theorem leads_stoppointModified (handle : Handle) (moved : Bool) (a : Adapter σ τ) :
    Leads (stoppointModified handle moved) a
      (fun _ b => ∃ id p, a.session.id? handle = some id ∧ b.session.stoppoint? id = some p ∧
        b.written = a.written ++ [p.bulletin .breakpointModified])
      (fun b => b.written = a.written) := by
  cases hid : a.session.id? handle with
  | none => exact leads_bind_of_error (idOf_of_none hid) rfl
  | some number =>
      have hrefresh : ∀ state site (b : Adapter σ τ), a.Rests b →
          Leads (refreshRecord handle number state site) b
            (fun _ c => ∃ id p, some number = some id ∧ c.session.stoppoint? id = some p ∧
              c.written = a.written ++ [p.bulletin .breakpointModified])
            (fun c => c.written = a.written) := by
        intro state site b hb
        rw [← hb.written]
        exact (leads_refreshRecord handle number state site b).mono
          (fun _ c ⟨p, hp, hwritten⟩ => ⟨number, p, rfl, hp, hwritten⟩) fun _ hc => hc
      refine leads_bind_of_ok (idOf_of_some hid) ?_
      refine (idles_ask _).bind (.refl a) fun answer b hb => ?_
      refine (idles_demand answer).bind hb fun state c hc => ?_
      cases moved with
      | false => exact hrefresh state none c hc
      | true =>
          refine (idles_ask _).bind hc fun answer d hd => ?_
          exact (idles_orWarn _ answer).bind hd fun site e he => hrefresh state site e he

/-- A new stoppoint is told when it has its number and its record. -/
theorem leads_stoppointAdded (handle : Handle) (a : Adapter σ τ) :
    Leads (stoppointAdded handle) a (fun _ b => a.Reports handle .added b)
      (fun b => b.written = a.written) := by
  refine (idles_ask _).bind (.refl a) fun answer b hb => ?_
  refine (idles_demand answer).bind hb fun state c hc => ?_
  refine (idles_ask _).bind hc fun answer d hd => ?_
  refine (idles_demand answer).bind hd fun site e he => ?_
  have hnumber := number_apply handle e
  cases hs : e.session.number handle with
  | error cause =>
      rw [hs] at hnumber
      exact leads_bind_of_error hnumber he.written
  | ok r =>
      obtain ⟨id, s⟩ := r
      rw [hs] at hnumber
      refine leads_bind_of_ok hnumber (leads_bind_of_ok (session_apply _) ?_)
      refine leads_bind_of_ok (inSession_apply _ _) ?_
      have hold : s.stoppoint? id = a.session.stoppoint? id := by
        rw [Session.stoppoint?_number hs, he.session]
      refine (leads_notifyStoppoint (by split <;> decide) _ _).mono ?_ fun _ hb => hb
      rintro _ b ⟨hsession, hwritten⟩
      rw [Session.added_merge, hold] at hwritten
      refine ⟨_, he.written ▸ hwritten, .added ?_ ?_⟩
      · rw [hsession, Session.id?, Session.numbering_merge]
        exact Session.id?_number hs
      · rw [hsession]
        exact Session.stoppoint?_merge _ _ _ _

theorem leads_stoppointChanged (handle : Handle) (event : StoppointEvent) (a : Adapter σ τ) :
    Leads (stoppointChanged handle event) a (fun _ b => a.Reports handle event b)
      (fun b => b.written = a.written ++ (a.session.id? handle).elim [] event.preface) := by
  have hchange : ∀ moved, event ≠ .added → event ≠ .removed → event.preface = (fun _ => []) →
      Leads (stoppointModified handle moved) a (fun _ b => a.Reports handle event b)
        (fun b => b.written = a.written ++ (a.session.id? handle).elim [] event.preface) := by
    intro moved hadded hremoved hpreface
    refine (leads_stoppointModified handle moved a).mono ?_ fun b hb => ?_
    · rintro _ b ⟨id, p, hid, hp, hwritten⟩
      refine ⟨_, hwritten, ?_⟩
      have := Bulletin.modified (s := a.session) hadded hremoved hid hp
      rwa [hpreface] at this
    · rw [hb, hpreface]
      cases a.session.id? handle <;> simp
  cases event with
  | added =>
      refine (leads_stoppointAdded handle a).mono (fun _ _ hb => hb) fun b hb => ?_
      rw [hb]
      cases a.session.id? handle <;> exact (List.append_nil _).symm
  | removed => exact leads_stoppointRemoved handle a
  | locationsAdded count =>
      cases hid : a.session.id? handle with
      | none => exact leads_bind_of_error (idOf_of_none hid) (List.append_nil _).symm
      | some number =>
          refine leads_bind_of_ok (idOf_of_some hid) ?_
          -- The text is written before the engine is asked for anything.
          refine (leads_emit rfl a).bind fun _ b hb => ?_
          refine (leads_stoppointModified handle true b).mono ?_ fun c hc => ?_
          · rintro _ c ⟨id, p, hid', hp, hwritten⟩
            rw [hb.1, hid] at hid'
            cases hid'
            refine ⟨_, ?_, .modified nofun nofun hid hp⟩
            rw [hwritten, hb.2, List.append_assoc]
            rfl
          · rw [hc, hb.2]
            rfl
  | locationsResolved => exact hchange true nofun nofun rfl
  | enabled | disabled | commandChanged | conditionChanged | ignoreChanged
  | autoContinueChanged | threadChanged => exact hchange false nofun nofun rfl

/-- **Stoppoint notifications**: one that is handled is told to the end, and one that is
dropped is not told, but for the text in front of its record. -/
theorem bulletin_of_stoppoint (handle : Handle) (event : StoppointEvent) (a : Adapter σ τ) :
    match Act.handle (.stoppoint handle event) a with
    | .ok _ b => ∃ records, b.written = a.written ++ records ∧
        Bulletin a.session b.session handle event records
    | .error _ b =>
        b.written = a.written ++ (a.session.id? handle).elim [] event.preface := by
  have h := leads_stoppointChanged handle event a
  rw [Act.handle]
  cases hstep : stoppointChanged handle event a with
  | ok v b => exact h.of_ok hstep
  | error e b => exact h.of_error hstep

end Act

namespace Table

/-- New locations of breakpoint 1 are told with the text and the record. -/
theorem bulletin_of_stoppoint_table :
    let a := (Adapter.new {} ({} : Table) Discard.discard).run .standard
      [.line "break-insert main"]
    ∃ b p, Act.handle (.stoppoint ⟨1, .breakpoint⟩ (.locationsAdded 2)) a = .ok () b ∧
      b.session.stoppoint? 1 = some p ∧ b.written = a.written ++
        [.stream ⟨.console, "2 location(s) added to breakpoint 1\n"⟩,
          p.bulletin .breakpointModified] := by
  intro a
  have htold := Act.bulletin_of_stoppoint ⟨1, .breakpoint⟩ (.locationsAdded 2) a
  obtain ⟨hnumber, hdone⟩ : a.session.id? ⟨1, .breakpoint⟩ = some 1 ∧
      (match Act.handle (.stoppoint ⟨1, .breakpoint⟩ (.locationsAdded 2)) a with
        | .ok _ _ => true
        | .error _ _ => false) = true := by
    decide +kernel
  cases hstep : Act.handle (.stoppoint ⟨1, .breakpoint⟩ (.locationsAdded 2)) a with
  | ok v b =>
      rw [hstep] at htold
      obtain ⟨records, hwritten, hbulletin⟩ := htold
      cases hbulletin with
      | modified _ _ hid hp =>
          cases hnumber.symm.trans hid
          exact ⟨b, _, rfl, hp, hwritten⟩
  | error e b =>
      rw [hstep] at hdone
      cases hdone

/-- The table that replaces the first one does not know the breakpoint, so the news of its
locations is dropped; its text has been written. -/
theorem locations_told_before_drop :
    let a := (Adapter.new {} ({} : Table) Discard.discard).run .standard
      [.line "break-insert main", .engine {}]
    ∃ e b, Act.handle (.stoppoint ⟨1, .breakpoint⟩ (.locationsAdded 2)) a = .error e b ∧
      b.written = a.written ++
        [.stream ⟨.console, "2 location(s) added to breakpoint 1\n"⟩] := by
  intro a
  have htold := Act.leads_stoppointChanged ⟨1, .breakpoint⟩ (.locationsAdded 2) a
  obtain ⟨hnumber, hdropped⟩ : a.session.id? ⟨1, .breakpoint⟩ = some 1 ∧
      (match Act.handle (.stoppoint ⟨1, .breakpoint⟩ (.locationsAdded 2)) a with
        | .ok _ _ => false
        | .error _ _ => true) = true := by
    decide +kernel
  cases hstep : Act.handle (.stoppoint ⟨1, .breakpoint⟩ (.locationsAdded 2)) a with
  | ok v b =>
      rw [hstep] at hdropped
      cases hdropped
  | error e b =>
      have hwritten := htold.of_error hstep
      rw [hnumber] at hwritten
      exact ⟨e, b, rfl, hwritten⟩

end Table

end MachineInterface
