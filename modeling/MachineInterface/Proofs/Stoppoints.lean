import MachineInterface.Command.Stoppoints
import MachineInterface.Proofs.Notifications

/-!
# MachineInterface.Proofs.Stoppoints

What the commands on stoppoints can do to a session (`Session.StoppointStep`).
Their changes include those of the notifications that arrive while a stoppoint
is created.
-/

namespace MachineInterface

variable {σ τ α β : Type}

/-- Any change of an engine. -/
def Engine.Any (_ _ : σ) : Prop := True

/-- The question for a stoppoint by its handle. -/
def Request.isFind : Request → Prop
  | findStoppoint _ => True
  | _ => False

/-- The requests that set up a stoppoint. -/
def Request.isSetting : Request → Prop
  | setEnabled .. | setCondition .. | setIgnoreCount .. | setThread .. | setOneShot .. => True
  | _ => False

/-- A change of the session by a command on stoppoints; what is written
meanwhile is due to notifications. -/
inductive Session.StoppointStep : Session → Option Record → Session → Prop
  | notification {s t : Session} {record : Option Record} (n : Notification)
      (h : n.Step s record t) : StoppointStep s record t
  | number {s s' : Session} {handle : Handle} {id : Nat} (h : s.number handle = .ok (id, s')) :
    StoppointStep s none s'
  | insert {s : Session} {handle : Handle} {id : Nat} (h : s.id? handle = some id)
      (i : Insertion) (state : StoppointState) (site : Site) :
    StoppointStep s none (s.record (Act.insertedStoppoint i handle id s.threadGroup state site))
  | watch {s : Session} {handle : Handle} {id : Nat} (h : s.id? handle = some id)
      (w : Watch) (state : StoppointState) :
    StoppointStep s none (s.record (Act.watchedStoppoint w handle id s.threadGroup state))
  | enable {s : Session} (id : Nat) (enabled : Bool) :
    StoppointStep s none (s.update id ({ · with enabled })).2
  | ignore {s : Session} (id count : Nat) :
    StoppointStep s none (s.update id ({ · with ignoreCount := count })).2
  | condition {s : Session} (id : Nat) (condition : Option String) :
    StoppointStep s none (s.update id ({ · with condition })).2
  | forget {s : Session} (handle : Handle) : StoppointStep s none (s.forget handle).2

namespace Act

open Session (StoppointStep)

variable [Engine σ]

omit [Engine σ] in
theorem Walks.any [Sink τ] {S : Session → Option Record → Session → Prop} {E : σ → σ → Prop}
    {step : Act σ τ α} (h : Walks S E step) : Walks S Engine.Any step :=
  h.mono (fun _ _ _ h => h) fun _ _ _ => trivial

theorem walks_askAny [Sink τ] {S : Session → Option Record → Session → Prop} (request : Request) :
    Walks S Engine.Any (ask request : Act σ τ request.Answer) :=
  (walks_ask (Q := fun _ => True) request trivial).any

/-! ## Creation -/

/-- A creation goes on with what came of the notification that it has delivered. -/
theorem run_deliver [Sink τ] {notification : Notification} {engine : σ}
    {resume : Except Error Unit → σ → Creation σ} {a b : Adapter σ τ} {outcome : Except Error Unit}
    (h : (handle notification).attempt { a with engine } = .ok outcome b) :
    create.run (.deliver notification engine resume) a =
      create.run (resume outcome b.engine) b := by
  change ((handle notification).attempt >>= fun outcome => _) { a with engine } = _
  rw [bind_of_ok h]
  rfl

variable {S : Session → Option Record → Session → Prop}

/-- A creation lets the session change only through the notifications that it
delivers. -/
theorem walks_run [Sink τ] (hnews : ∀ (n : Notification) s r t, n.Step s r t → S s r t)
    (creation : Creation σ) :
    Walks S Engine.Any (create.run creation : Act σ τ (Except EngineError Handle)) := by
  induction creation with
  | finished result engine =>
      exact Walks.bind (fun _ => .single (.engine trivial)) fun _ => walks_pure result
  | deliver notification engine resume ih =>
      have hhandle := (walks_handle (σ := σ) (τ := τ) notification).mono
        (hnews notification) (fun _ _ _ => (trivial : Engine.Any _ _))
      refine Walks.bind (fun _ => .single (.engine trivial)) fun _ => ?_
      refine hhandle.attempt.bind fun outcome => ?_
      exact Walks.bind (fun _ => .refl) fun a => ih outcome a.engine

theorem walks_create [Sink τ] (hnews : ∀ (n : Notification) s r t, n.Step s r t → S s r t)
    (placement : Placement) :
    Walks S Engine.Any (create placement : Act σ τ (Except EngineError Handle)) :=
  Walks.bind (fun _ => .refl) fun _ => walks_run hnews _

/-! ## Stoppoints -/

/-- Resolving a number only asks for its stoppoint. -/
theorem walks_resolve [Sink τ] (argument : String) (n : Int) :
    Walks S (Engine.Asked Request.isFind) (resolve argument n : Act σ τ (Nat × Handle)) := by
  refine (walks_ofExcept _).bind fun id => walks_session.bind fun s => ?_
  cases s.stoppoint? id with
  | none => exact walks_throw _
  | some p =>
      refine (walks_ask (.findStoppoint p.handle) trivial).bind fun found => ?_
      cases found with
      | none => exact walks_throw _
      | some handle => exact walks_pure _

theorem walks_resolveAll [Sink τ] (argument : String) (numbers : List Int) :
    Walks S (Engine.Asked Request.isFind)
      (resolveAll argument numbers : Act σ τ (List (Nat × Handle))) := by
  induction numbers with
  | nil => exact walks_pure _
  | cons n numbers ih =>
      exact (walks_resolve argument n).bind fun _ => ih.bind fun _ => walks_pure _

theorem walks_discard [Sink τ] (handle : Handle) (topic : String) :
    Walks S Engine.Any (discard handle topic : Act σ τ Unit) :=
  (walks_askAny (.deleteStoppoint handle)).bind fun r =>
    (walks_orWarn _ r).bind fun _ => walks_pure _

theorem asks_configureCondition (handle : Handle) (condition : Option String) :
    Asks Request.isSetting (configureCondition handle condition : Act σ τ Unit) := by
  cases condition with
  | none => exact .pure _
  | some condition => exact Asks.bind (.ask trivial) fun r => .demand r

theorem asks_configureIgnoreCount (handle : Handle) (count : Nat) :
    Asks Request.isSetting (configureIgnoreCount handle count : Act σ τ Unit) := by
  unfold configureIgnoreCount
  split
  · exact .pure _
  · exact Asks.bind (.ask trivial) fun r => .demand r

theorem asks_configureThread (handle : Handle) (thread : Option Nat) :
    Asks Request.isSetting (configureThread handle thread : Act σ τ Unit) := by
  cases thread with
  | none => exact .pure _
  | some thread => exact Asks.bind (.ask trivial) fun r => .demand r

theorem asks_configure (handle : Handle) (i : Insertion) :
    Asks Request.isSetting (configure handle i : Act σ τ Unit) :=
  Asks.bind (.ask trivial) fun r => Asks.bind (.demand r) fun _ =>
    (asks_configureCondition handle i.condition).bind fun _ =>
    (asks_configureIgnoreCount handle i.ignoreCount).bind fun _ =>
    (asks_configureThread handle i.thread).bind fun _ =>
    Asks.bind (.ask trivial) fun r => .demand r

/-- Deleting a stoppoint of the engine never fails. -/
theorem discard_apply (handle : Handle) (topic : String) (a : Adapter σ τ) :
    discard handle topic a = .ok () ((discard handle topic : Act σ τ Unit).after a) := by
  change (ask (.deleteStoppoint handle) >>= fun r => orWarn topic r >>= fun _ => pure ()) a = _
  cases h : (Engine.answer (.deleteStoppoint handle) a.engine).1 with
  | ok u => simp [after, discard, ask, bind, EStateM.bind, h, orWarn, pure, EStateM.pure]
  | error e => simp [after, discard, ask, bind, EStateM.bind, h, orWarn, pure, EStateM.pure, report]

/-- A new stoppoint is numbered, or the engine is asked to delete it. -/
theorem numberOrDiscard_apply (handle : Handle) (a : Adapter σ τ) :
    numberOrDiscard handle a = match a.session.number handle with
      | .ok (id, s) => .ok id { a with session := s }
      | .error e => .error e
          ((discard handle "delete stoppoint without protocol id:" : Act σ τ Unit).after a) := by
  rw [numberOrDiscard, bind_of_ok (session_apply a)]
  cases a.session.number handle with
  | ok r => rfl
  | error e => exact bind_of_ok (discard_apply handle _ a) _

theorem walks_numberOrDiscard [Sink τ] {handle : Handle}
    (hnumber : ∀ {s t : Session} {id : Nat}, s.number handle = .ok (id, t) → S s none t) :
    Walks S Engine.Any (numberOrDiscard handle : Act σ τ Nat) := by
  intro a
  simp only [after, numberOrDiscard_apply]
  cases h : a.session.number handle with
  | ok r => exact .single (.session (hnumber h))
  | error e => exact walks_discard handle _ a

/-- A handle that was numbered has its number in the session. -/
theorem id?_of_numberOrDiscard {handle : Handle} {a b : Adapter σ τ} {id : Nat}
    (h : numberOrDiscard handle a = .ok id b) : b.session.id? handle = some id := by
  rw [numberOrDiscard_apply] at h
  cases hn : a.session.number handle with
  | error e => simp [hn] at h
  | ok r =>
      obtain ⟨rfl, rfl⟩ := by simpa [hn] using h
      exact Session.id?_number hn

/-- A stoppoint is recorded under the number that it has been given. -/
theorem walks_enroll [Sink τ] {handle : Handle}
    {stoppoint : Nat → String → StoppointState → Stoppoint}
    (hnumber : ∀ {s t : Session} {id : Nat}, s.number handle = .ok (id, t) → S s none t)
    (hrecord : ∀ (s : Session) id state, s.id? handle = some id →
      S s none (s.record (stoppoint id s.threadGroup state))) :
    Walks S Engine.Any (enroll handle stoppoint : Act σ τ Stoppoint) := by
  intro a
  refine moves_bind (walks_numberOrDiscard hnumber a) fun id b hb => ?_
  refine moves_bind (walks_askAny (.stoppointState handle) b) fun r c hc => ?_
  refine moves_bind (walks_demand r c) fun state d hd => ?_
  refine moves_bind (walks_session d) fun s d' hd' => ?_
  cases hd'
  have hid : d.session.id? handle = some id := by
    rw [session_of_demand hd, session_of_ask hc]
    exact id?_of_numberOrDiscard hb
  have hstep := hrecord d.session id state hid
  exact moves_bind (.single (.session hstep)) fun _ e _ => walks_pure _ e

/-- The session knows a stoppoint that it has enrolled. -/
theorem gives_enroll (handle : Handle) {stoppoint : Nat → String → StoppointState → Stoppoint}
    (hid : ∀ id threadGroup state, (stoppoint id threadGroup state).id = id) :
    Gives (fun s p => s.Knows p.id) (enroll handle stoppoint : Act σ τ Stoppoint) := by
  intro a p b h
  obtain ⟨id, c, hnumber, h⟩ := bind_eq_ok.mp h
  obtain ⟨r, d, hask, h⟩ := bind_eq_ok.mp h
  obtain ⟨state, e, hdemand, h⟩ := bind_eq_ok.mp h
  have he : e.session.id? handle = some id := by
    rw [session_of_demand hdemand, session_of_ask hask]
    exact id?_of_numberOrDiscard hnumber
  cases h
  exact ⟨handle, id, he, .inl (hid _ _ _)⟩

theorem walks_adopt [Sink τ] {i : Insertion} {handle : Handle}
    (hnumber : ∀ {s t : Session} {id : Nat}, s.number handle = .ok (id, t) → S s none t)
    (hrecord : ∀ (s : Session) id state site, s.id? handle = some id →
      S s none (s.record (insertedStoppoint i handle id s.threadGroup state site))) :
    Walks S Engine.Any (adopt i handle : Act σ τ Stoppoint) := by
  refine walks_demandAsk (fun _ => trivial) fun site => ?_
  by_cases hplace : (!i.pending && site.locations = 0) = true
  · rw [if_pos hplace]
    exact (walks_discard handle _).bind fun _ => walks_throw _
  · rw [if_neg hplace]
    have hconfigure := ((asks_configure handle i).walks (σ := σ) (τ := τ) S).any
    exact hconfigure.bind fun _ => walks_enroll hnumber fun s id state hid =>
      hrecord s id state site hid

theorem walks_createBreakpoint [Sink τ]
    (hnews : ∀ (n : Notification) s r t, n.Step s r t → S s r t) (i : Insertion) :
    Walks S Engine.Any (createBreakpoint i : Act σ τ Handle) :=
  (walks_create hnews _).bind fun r => walks_demand r

theorem walks_createWatchpoint [Sink τ]
    (hnews : ∀ (n : Notification) s r t, n.Step s r t → S s r t) (w : Watch) :
    Walks S Engine.Any (createWatchpoint w : Act σ τ Handle) := by
  refine (walks_askAny (.watchTarget w.expression)).bind fun target => ?_
  cases target with
  | error _ => exact walks_throw _
  | ok target => exact (walks_create hnews _).bind fun r => walks_demand r

theorem gives_adopt (i : Insertion) (handle : Handle) :
    Gives (fun s p => s.Knows p.id) (adopt i handle : Act σ τ Stoppoint) := by
  refine gives_bind fun r => gives_bind fun site => ?_
  by_cases hplace : (!i.pending && site.locations = 0) = true
  · rw [if_pos hplace]
    exact gives_bind fun _ => gives_throw _
  · rw [if_neg hplace]
    exact gives_bind fun _ => gives_enroll handle fun _ _ _ => rfl

theorem walks_insert [Sink τ] (i : Insertion) :
    Walks StoppointStep Engine.Any (insert i : Act σ τ Results) :=
  (walks_createBreakpoint (fun n _ _ _ => .notification n) i).bind fun _ =>
    (walks_adopt .number fun _ _ state site hid => .insert hid i state site).bind fun _ =>
      walks_pure _

theorem walks_watch [Sink τ] (w : Watch) :
    Walks StoppointStep Engine.Any (watch w : Act σ τ Results) :=
  (walks_createWatchpoint (fun n _ _ _ => .notification n) w).bind fun _ =>
    (walks_enroll .number fun _ _ state hid => .watch hid w state).bind fun _ => walks_pure _

/-- The answer to an insertion describes a stoppoint that the session knows. -/
theorem gives_insert [Sink τ] (i : Insertion) :
    Gives Session.Covers (insert i : Act σ τ Results) := by
  refine gives_bind fun handle => (gives_adopt i handle).bind_pure fun s p hp n hn => ?_
  rwa [Results.eq_of_mention_tuple hn fun _ => Stoppoint.eq_id_of_mem_results]

theorem gives_watch [Sink τ] (w : Watch) : Gives Session.Covers (watch w : Act σ τ Results) := by
  refine gives_bind fun handle => ?_
  refine (gives_enroll handle fun _ _ _ => rfl).bind_pure fun s p hp n hn => ?_
  rwa [Results.eq_of_mention_tuple hn fun _ => Stoppoint.eq_id_of_mem_watchResults]

theorem walks_deleteAll [Sink τ]
    (hforget : ∀ {s : Session} (handle : Handle), S s none (s.forget handle).2)
    (numbers : List Int) : Walks S Engine.Any (deleteAll numbers : Act σ τ Results) := by
  refine (walks_resolveAll _ numbers).any.bind fun resolved => ?_
  refine (walks_forM (fun target => ?_) resolved).bind fun _ => walks_pure _
  exact walks_demandAsk (fun _ => trivial) fun _ => walks_modifySession fun _ => hforget target.2

theorem walks_enableAll [Sink τ] {enabled : Bool}
    (henable : ∀ {s : Session} (id : Nat), S s none (s.update id ({ · with enabled })).2)
    (numbers : List Int) : Walks S Engine.Any (enableAll enabled numbers : Act σ τ Results) := by
  refine (walks_resolveAll _ numbers).any.bind fun resolved => ?_
  refine (walks_forM (fun target => ?_) resolved).bind fun _ => walks_pure _
  exact walks_demandAsk (fun _ => trivial) fun _ => walks_modifySession fun _ => henable target.1

theorem walks_ignoreHits [Sink τ] {count : Nat}
    (hignore : ∀ {s : Session} (id : Nat),
      S s none (s.update id ({ · with ignoreCount := count })).2)
    (number : Int) : Walks S Engine.Any (ignoreHits number count : Act σ τ Results) := by
  refine (walks_resolve _ number).any.bind fun target => ?_
  refine walks_demandAsk (fun _ => trivial) fun _ => ?_
  exact (walks_modifySession fun _ => hignore target.1).bind fun _ => walks_pure _

theorem walks_setCondition [Sink τ] {condition : Option String}
    (hcondition : ∀ {s : Session} (id : Nat), S s none (s.update id ({ · with condition })).2)
    (number : Int) : Walks S Engine.Any (setCondition number condition : Act σ τ Results) := by
  refine (walks_resolve _ number).any.bind fun target => ?_
  refine walks_demandAsk (fun _ => trivial) fun _ => ?_
  exact (walks_modifySession fun _ => hcondition target.1).bind fun _ => walks_pure _

end Act

end MachineInterface
