import MachineInterface.Proofs.Holdings

/-!
# MachineInterface.Proofs.Reflection

The session as a reflection of the engine.  At an engine that keeps its
stoppoints as it is told (`Engine.Keeps`), each command writes to both sides,
and it leaves them alike whether it succeeds or breaks off: records, numbers and
live stoppoints belong together one by one, and a record says what the engine
holds (`reflects_of_run`).
-/

namespace MachineInterface

variable {σ τ α β : Type}

/-- The session of the adapter reflects the live stoppoints of its engine. -/
def Adapter.Reflecting (live : σ → Handle → Option Held) (a : Adapter σ τ) : Prop :=
  a.session.Reflects (live a.engine)

/-- One stoppoint is live that the session does not know; all others are
reflected. -/
def Adapter.Unrecorded (live : σ → Handle → Option Held) (handle : Handle) (held : Held)
    (a : Adapter σ τ) : Prop :=
  a.session.Reflects (Function.update (live a.engine) handle none) ∧
    live a.engine handle = some held

namespace Act

variable [Engine σ] {live : σ → Handle → Option Held} {handle : Handle} {held : Held}
  {a : Adapter σ τ}

/-- However the step ends, the session behind it reflects the engine. -/
abbrev Settles (live : σ → Handle → Option Held) (step : Act σ τ α) (a : Adapter σ τ) : Prop :=
  Leads step a (fun _ b => b.Reflecting live) (·.Reflecting live)

/-! ## Steps that leave the stoppoints alone -/

omit [Engine σ] in
theorem reflecting_of_moves [Sink τ] {S : Session → Option Record → Session → Prop}
    {E : σ → σ → Prop}
    (hS : ∀ s r t, S s r t → t.numbering = s.numbering ∧ t.stoppoints = s.stoppoints)
    (hE : ∀ e f, E e f → live f = live e) {b : Adapter σ τ} (h : Adapter.Moves S E a b)
    (ha : a.Reflecting live) : b.Reflecting live := by
  have hsession := h.session_invariant
    (I := fun s => s.numbering = a.session.numbering ∧ s.stoppoints = a.session.stoppoints)
    (fun s t hs hst => ⟨(hS _ _ _ hst).1.trans hs.1, (hS _ _ _ hst).2.trans hs.2⟩) ⟨rfl, rfl⟩
  have hengine := h.engine_invariant (I := fun e => live e = live a.engine)
    (fun e f he hef => (hE e f hef).trans he) rfl
  rw [Adapter.Reflecting, hengine]
  exact Session.Reflects.congr ha hsession.1 hsession.2

omit [Engine σ] in
theorem settles_of_same [Sink τ] {step : Act σ τ α} (h : Walks Session.Same (fun _ _ => False) step)
    (ha : a.Reflecting live) : Settles live step a := by
  obtain ⟨hsession, hengine⟩ := h.same a
  refine leads_iff_after.mpr ?_
  rwa [Adapter.Reflecting, hsession, hengine]

/-- What does not change a stoppoint leaves all of them as they are. -/
theorem live_of_asked (hlive : Engine.Keeps live) {Q : Request → Prop}
    (hQ : ∀ request, Q request → ¬ request.isChange) {e f : σ} (h : Engine.Asked Q e f) :
    live f = live e := by
  obtain ⟨request, hrequest, rfl⟩ := h
  exact hlive.other request e (hQ request hrequest)

/-! ## New stoppoints -/

omit [Engine σ] in
/-- A change of the unrecorded stoppoint concerns nothing else. -/
theorem unrecorded_of_update (h : a.Unrecorded live handle held) {b : Adapter σ τ} {new : Held}
    (hsession : b.session = a.session)
    (hengine : live b.engine = Function.update (live a.engine) handle (some new)) :
    b.Unrecorded live handle new := by
  rw [Adapter.Unrecorded, hsession, hengine, Function.update_idem, Function.update_self]
  exact ⟨h.1, rfl⟩

theorem unrecorded_of_ask (hlive : Engine.Keeps live) (h : a.Unrecorded live handle held)
    (request : Request) (hrequest : ¬ request.isChange) :
    ({ a with engine := (Engine.answer request a.engine).2 } : Adapter σ τ).Unrecorded
      live handle held := by
  rw [Adapter.Unrecorded, hlive.other request a.engine hrequest]
  exact h

/-- The step sets up the unrecorded stoppoint and never fails. -/
def Sets (live : σ → Handle → Option Held) (handle : Handle) (change : Held → Held)
    (step : Act σ τ Unit) : Prop :=
  ∀ a held, a.Unrecorded live handle held →
    ∃ b, step a = .ok () b ∧ b.Unrecorded live handle (change held)

omit [Engine σ] in
theorem sets_pure : Sets live handle (fun held => held) (pure () : Act σ τ Unit) :=
  fun a _ h => ⟨a, rfl, h⟩

omit [Engine σ] in
theorem Sets.bind {f g : Held → Held} {step next : Act σ τ Unit} (hstep : Sets live handle f step)
    (hnext : Sets live handle g next) :
    Sets live handle (fun held => g (f held)) (step >>= fun _ => next) := by
  intro a held h
  obtain ⟨b, hok, hb⟩ := hstep a held h
  obtain ⟨c, hok', hc⟩ := hnext b (f held) hb
  exact ⟨c, (bind_of_ok hok _).trans hok', hc⟩

theorem sets_demandAsk {request : Request} {f : request.Answer → Except EngineError Unit}
    {change : Held → Held}
    (h : ∀ e, Engine.Changes live e handle (fun held => some (change held))
      (f (Engine.answer request e).1, (Engine.answer request e).2)) :
    Sets live handle change (do demand (f (← ask request)) : Act σ τ Unit) := by
  intro a held ha
  have hchanges := h a.engine
  rw [Engine.Changes, ha.2] at hchanges
  have hok : f (Engine.answer request a.engine).1 = .ok () := hchanges.1
  let b : Adapter σ τ := { a with engine := (Engine.answer request a.engine).2 }
  refine ⟨b, ?_, unrecorded_of_update ha rfl hchanges.2⟩
  rw [bind_of_ok (ask_apply request a), hok]
  rfl

theorem sets_configureCondition (hlive : Engine.Keeps live) (condition : Option String) :
    Sets live handle (fun held => { held with condition := condition.or held.condition })
      (configureCondition handle condition : Act σ τ Unit) := by
  cases condition with
  | none => exact sets_pure
  | some condition => exact sets_demandAsk fun e => hlive.setCondition e handle (some condition)

theorem sets_configureIgnoreCount (hlive : Engine.Keeps live) (count : Nat) :
    Sets live handle
      (fun held => { held with ignoreCount := if count = 0 then held.ignoreCount else count })
      (configureIgnoreCount handle count : Act σ τ Unit) := by
  unfold configureIgnoreCount
  by_cases hcount : count = 0
  · simp only [if_pos hcount]
    exact sets_pure
  · simp only [if_neg hcount]
    exact sets_demandAsk fun e => hlive.setIgnoreCount e handle count

theorem sets_configureThread (hlive : Engine.Keeps live) (thread : Option Nat) :
    Sets live handle (fun held => { held with thread := thread.or held.thread })
      (configureThread handle thread : Act σ τ Unit) := by
  cases thread with
  | none => exact sets_pure
  | some thread => exact sets_demandAsk fun e => hlive.setThread e handle (some thread)

/-- A new breakpoint is set up as it was asked for, although nothing is asked for
defaults. -/
theorem unrecorded_configure (hlive : Engine.Keeps live) (i : Insertion)
    (h : a.Unrecorded live handle {}) :
    ∃ b, configure handle i a = .ok () b ∧ b.Unrecorded live handle i.held := by
  have henabled : Sets live handle ({ · with enabled := i.enabled })
      (do demand (← ask (.setEnabled handle i.enabled)) : Act σ τ Unit) :=
    sets_demandAsk fun e => hlive.setEnabled e handle i.enabled
  have honeShot : Sets live handle ({ · with oneShot := i.oneShot })
      (do demand (← ask (.setOneShot handle i.oneShot)) : Act σ τ Unit) :=
    sets_demandAsk fun e => hlive.setOneShot e handle i.oneShot
  obtain ⟨b, hok, hb⟩ := (henabled.bind ((sets_configureCondition hlive i.condition).bind
    ((sets_configureIgnoreCount hlive i.ignoreCount).bind
      ((sets_configureThread hlive i.thread).bind honeShot)))) a {} h
  refine ⟨b, ?_, ?_⟩
  · rw [bind_assoc] at hok
    exact hok
  · have hcount : (if i.ignoreCount = 0 then 0 else i.ignoreCount) = i.ignoreCount :=
      ite_eq_right_iff.mpr Eq.symm
    simpa only [Insertion.held, Option.or_none, hcount] using hb

/-- A new stoppoint that is not kept leaves everything as it was. -/
theorem reflecting_discard [Sink τ] (hlive : Engine.Keeps live) (h : a.Unrecorded live handle held)
    (topic : String) : ((discard handle topic).after a).Reflecting live := by
  have hdelete := hlive.deleteStoppoint a.engine handle
  rw [Engine.Changes, h.2] at hdelete
  rw [discard, after_bind_of_ok (ask_apply _ a)]
  refine leads_iff_after.mp (settles_of_same ((walks_orWarn topic _).bind fun _ => walks_pure _) ?_)
  rw [Adapter.Reflecting, hdelete.2]
  exact h.1

/-- A stoppoint is numbered and recorded as it then is, or else it is given up. -/
theorem settles_enroll [Sink τ] (hlive : Engine.Keeps live)
    {stoppoint : Nat → String → StoppointState → Stoppoint}
    (hid : ∀ id threadGroup state, (stoppoint id threadGroup state).id = id)
    (hhandle : ∀ id threadGroup state, (stoppoint id threadGroup state).handle = handle)
    (hheld : ∀ id threadGroup state, state.Shows held →
      (stoppoint id threadGroup state).held = held)
    (h : a.Unrecorded live handle held) : Settles live (enroll handle stoppoint) a := by
  rw [enroll]
  cases hnumber : a.session.number handle with
  | error e =>
      have hfail := numberOrDiscard_apply handle a
      rw [hnumber] at hfail
      exact leads_bind_of_error hfail (reflecting_discard hlive h _)
  | ok numbered =>
      obtain ⟨id, s⟩ := numbered
      have hnumbered := numberOrDiscard_apply handle a
      rw [hnumber] at hnumbered
      obtain ⟨state, hstate, hshows⟩ := hlive.stoppointState a.engine handle held h.2
      have hsame := hlive.other (.stoppointState handle) a.engine not_false
      let p := stoppoint id s.threadGroup state
      let b : Adapter σ τ := { a with
        session := s.record p
        engine := (Engine.answer (.stoppointState handle) a.engine).2 }
      have hb : b.Reflecting live := by
        rw [Adapter.Reflecting, hsame]
        exact h.1.record h.2 hnumber (hid ..) (hhandle ..) (hheld _ _ _ hshows)
      refine leads_of_ok (v := p) (b := b) ?_ hb
      rw [bind_of_ok hnumbered, bind_of_ok (ask_apply _ _), hstate]
      rfl

theorem leads_create [Sink τ] (hlive : Engine.Keeps live) (placement : Placement)
    (h : a.Reflecting live) :
    Leads (do demand (← create placement)) a
      (fun handle b => b.Unrecorded live handle placement.held) (·.Reflecting live) := by
  obtain ⟨result, f, hcreate, hresult⟩ := hlive.create placement a.engine
  have hok : create placement a = .ok result { a with engine := f } := by
    change create.run (Engine.create placement a.engine) a = _
    rw [hcreate]
    rfl
  refine leads_bind_of_ok hok ?_
  cases result with
  | error cause =>
      refine leads_throw ?_
      rw [Adapter.Reflecting, hresult]
      exact h
  | ok handle =>
      refine leads_pure ⟨?_, ?_⟩
      · change Session.Reflects a.session (Function.update (live f) handle none)
        rw [hresult.2, Function.update_idem, ← hresult.1, Function.update_eq_self]
        exact h
      · change live f handle = _
        rw [hresult.2, Function.update_self]

theorem settles_adopt [Sink τ] (hlive : Engine.Keeps live) (i : Insertion)
    (h : a.Unrecorded live handle {}) : Settles live (adopt i handle) a := by
  obtain ⟨site, hsite⟩ := hlive.site a.engine handle {} h.2
  have hasked := unrecorded_of_ask hlive h (.site handle) not_false
  refine leads_bind_of_ok (ask_apply _ a) ?_
  rw [hsite]
  refine leads_bind_of_ok (demand_ok site _) ?_
  by_cases hplace : (!i.pending && site.locations = 0) = true
  · rw [if_pos hplace]
    exact leads_bind_of_ok (discard_apply ..) (leads_throw (reflecting_discard hlive hasked _))
  · rw [if_neg hplace]
    obtain ⟨b, hok, hb⟩ := unrecorded_configure hlive i hasked
    refine leads_bind_of_ok hok (settles_enroll hlive (fun _ _ _ => rfl) (fun _ _ _ => rfl)
      (fun _ _ state hshows => ?_) hb)
    rw [Stoppoint.held, insertedStoppoint, hshows.1]
    rfl

theorem settles_insert [Sink τ] (hlive : Engine.Keeps live) (i : Insertion)
    (h : a.Reflecting live) : Settles live (insert i) a :=
  (leads_create hlive (.breakpoint i.location) h).bind fun _ _ hb =>
    (settles_adopt hlive i hb).bind fun _ _ hc => leads_pure hc

theorem settles_watch [Sink τ] (hlive : Engine.Keeps live) (w : Watch) (h : a.Reflecting live) :
    Settles live (watch w) a := by
  have hasked : ({ a with engine := (Engine.answer (.watchTarget w.expression) a.engine).2 } :
      Adapter σ τ).Reflecting live := by
    rw [Adapter.Reflecting, hlive.other (.watchTarget w.expression) a.engine not_false]
    exact h
  have hcreate : Leads (createWatchpoint w) a
      (fun handle b => b.Unrecorded live handle { access := some (w.read, w.write) })
      (·.Reflecting live) := by
    refine leads_bind_of_ok (ask_apply _ a) ?_
    cases (Engine.answer (.watchTarget w.expression) a.engine).1 with
    | error cause => exact leads_throw hasked
    | ok target => exact leads_create hlive (.watchpoint target w.read w.write) hasked
  refine hcreate.bind fun handle b hb => Leads.bind ?_ fun _ _ hc => leads_pure hc
  refine settles_enroll hlive (fun _ _ _ => rfl) (fun _ _ _ => rfl) (fun _ _ state hshows => ?_) hb
  rw [Stoppoint.held, watchedStoppoint, hshows.1]
  rfl

/-! ## Recorded stoppoints -/

/-- A number is resolved to the handle that has the number. -/
theorem gives_resolve (hlive : Engine.Keeps live) (argument : String) (n : Int) :
    Gives (fun s target => s.Consistent → s.id? target.2 = some target.1)
      (resolve argument n : Act σ τ (Nat × Handle)) := by
  intro a target b h hconsistent
  obtain ⟨id, c, -, h⟩ := bind_eq_ok.mp h
  rw [bind_of_ok (session_apply c)] at h
  cases hp : c.session.stoppoint? id with
  | none =>
      rw [hp] at h
      cases h
  | some p =>
      rw [hp] at h
      change (ask (.findStoppoint p.handle) >>= _) c = _ at h
      rw [bind_of_ok (ask_apply _ c), hlive.findStoppoint] at h
      cases hheld : live c.engine p.handle with
      | none =>
          rw [hheld] at h
          cases h
      | some held =>
          rw [hheld] at h
          cases h
          exact hconsistent.mapped id p hp

theorem gives_resolveAll [Sink τ] (hlive : Engine.Keeps live) (argument : String)
    (numbers : List Int) :
    Gives (fun s targets => s.Consistent → ∀ target ∈ targets, s.id? target.2 = some target.1)
      (resolveAll argument numbers : Act σ τ (List (Nat × Handle))) := by
  induction numbers with
  | nil => exact gives_pure fun _ _ => nofun
  | cons n numbers ih =>
      intro a targets d h hconsistent
      obtain ⟨first, b, hfirst, h⟩ := bind_eq_ok.mp h
      obtain ⟨rest, c, hrest, h⟩ := bind_eq_ok.mp h
      cases h
      have hsession := (walks_resolveAll (S := Session.Same) argument numbers).session_of_ok hrest
      have hid := gives_resolve hlive argument n a first b hfirst
      rw [← hsession] at hid
      rw [List.forall_mem_cons]
      exact ⟨hid hconsistent, ih b rest _ hrest hconsistent⟩

/-- Looking stoppoints up leaves them alone. -/
theorem leads_resolving [Sink τ] (hlive : Engine.Keeps live) {step : Act σ τ α}
    {P : Session → α → Prop}
    (hwalks : Walks Session.Same (Engine.Asked Request.isFind) step)
    (hgives : Gives (fun s v => s.Consistent → P s v) step) (h : a.Reflecting live) :
    Leads step a (fun v b => b.Reflecting live ∧ P b.session v) (·.Reflecting live) := by
  have hafter : (step.after a).Reflecting live := by
    refine reflecting_of_moves (fun s _ t hst => ?_) (fun _ _ => ?_) (hwalks a) h
    · cases hst
      exact ⟨rfl, rfl⟩
    · refine live_of_asked hlive fun request hrequest => ?_
      cases request <;> first | exact not_false | cases hrequest
  cases hstep : step a with
  | error e b =>
      rw [after_of_error hstep] at hafter
      rwa [Leads, hstep]
  | ok v b =>
      rw [after_of_ok hstep] at hafter
      exact leads_of_ok hstep ⟨hafter, hgives a v b hstep hafter.consistent⟩

/-- A stoppoint is changed if it is live; if it is not, the engine refuses and
nothing happens. -/
theorem leads_change {request : Request} {f : request.Answer → Except EngineError Unit}
    {change : Held → Option Held} {next : Unit → Act σ τ β} {Q : β → Adapter σ τ → Prop}
    (hchanges : Engine.Changes live a.engine handle change
      (f (Engine.answer request a.engine).1, (Engine.answer request a.engine).2))
    (h : a.Reflecting live)
    (hnext : ∀ b, b.session = a.session → live b.engine =
        Function.update (live a.engine) handle ((live a.engine handle).bind change) →
      Leads (next ()) b Q (·.Reflecting live)) :
    Leads (do next (← demand (f (← ask request)))) a Q (·.Reflecting live) := by
  refine leads_bind_of_ok (ask_apply request a) ?_
  rw [Engine.Changes] at hchanges
  cases hheld : live a.engine handle with
  | none =>
      rw [hheld] at hchanges hnext
      obtain ⟨⟨cause, hcause⟩, hengine⟩ := hchanges
      have hcause : f (Engine.answer request a.engine).1 = .error cause := hcause
      rw [hcause]
      refine leads_throw ?_
      have hengine : live (Engine.answer request a.engine).2 = live a.engine := hengine
      rw [Adapter.Reflecting, hengine]
      exact h
  | some held =>
      rw [hheld] at hchanges hnext
      have hok : f (Engine.answer request a.engine).1 = .ok () := hchanges.1
      rw [hok]
      exact leads_bind_of_ok (demand_ok () _) (hnext _ rfl hchanges.2)

theorem settles_deleteAll [Sink τ] (hlive : Engine.Keeps live) (numbers : List Int)
    (h : a.Reflecting live) : Settles live (deleteAll numbers) a := by
  refine (leads_resolving hlive (P := fun _ _ => True) (walks_resolveAll _ numbers)
    (fun _ _ _ _ _ => trivial) h).bind fun targets b hb => ?_
  refine (leads_forM (I := (·.Reflecting live)) (fun target _ c hc => ?_) hb.1).bind
    fun _ c hc => leads_pure hc
  refine leads_change (hlive.deleteStoppoint c.engine target.2) hc fun d hsession hengine => ?_
  refine leads_of_ok rfl ?_
  rw [Adapter.Reflecting, hsession, hengine, Option.bind_fun_none]
  exact Session.Reflects.forget hc target.2

omit [Engine σ] in
/-- The record is changed as the stoppoint was. -/
theorem leads_updateStoppoint {id : Nat} {f : Stoppoint → Stoppoint} {g : Held → Held}
    (h : a.Reflecting live) (hid : a.session.id? handle = some id)
    (hfid : ∀ p, (f p).id = p.id) (hfhandle : ∀ p, (f p).handle = p.handle)
    (hheld : ∀ p, (f p).held = g p.held) {b : Adapter σ τ} (hsession : b.session = a.session)
    (hengine : live b.engine = Function.update (live a.engine) handle
      ((live a.engine handle).bind fun held => some (g held))) :
    Leads (updateStoppoint id f) b
      (fun _ c => c.Reflecting live ∧ c.session.numbering = a.session.numbering)
      (·.Reflecting live) := by
  refine leads_of_ok rfl ⟨?_, ?_⟩
  · have hmap : (live a.engine handle).bind (fun held => some (g held)) =
        (live a.engine handle).map g := Option.map_eq_bind.symm
    rw [Adapter.Reflecting, hengine, hmap, hsession]
    exact h.update hid hfid hfhandle hheld
  · rw [hsession]
    exact Session.numbering_update ..

theorem settles_enableAll [Sink τ] (hlive : Engine.Keeps live) (enabled : Bool) (numbers : List Int)
    (h : a.Reflecting live) : Settles live (enableAll enabled numbers) a := by
  refine (leads_resolving hlive (walks_resolveAll _ numbers)
    (gives_resolveAll hlive _ numbers) h).bind fun targets b hb => ?_
  -- Stoppoints keep their numbers while their records change.
  refine Leads.bind (leads_forM
    (I := fun c => c.Reflecting live ∧ c.session.numbering = b.session.numbering)
    (fun target htarget c hc => ?_) ⟨hb.1, rfl⟩) fun _ c hc => leads_pure hc.1
  have hid : c.session.id? target.2 = some target.1 := by
    rw [Session.id?, hc.2]
    exact hb.2 target htarget
  refine leads_change (hlive.setEnabled c.engine target.2 enabled) hc.1 fun d hsession hengine => ?_
  have hupdate := leads_updateStoppoint hc.1 hid (f := ({ · with enabled })) (fun _ => rfl)
    (fun _ => rfl) (fun _ => rfl) hsession hengine
  exact hupdate.mono (fun _ e he => ⟨he.1, he.2.trans hc.2⟩) fun _ he => he

theorem settles_ignoreHits [Sink τ] (hlive : Engine.Keeps live) (number : Int) (count : Nat)
    (h : a.Reflecting live) : Settles live (ignoreHits number count) a := by
  refine (leads_resolving hlive (walks_resolve _ number)
    (gives_resolve hlive _ number) h).bind fun target b hb => ?_
  refine leads_change (hlive.setIgnoreCount b.engine target.2 count) hb.1
    fun c hsession hengine => ?_
  have hupdate := leads_updateStoppoint hb.1 hb.2 (f := ({ · with ignoreCount := count }))
    (fun _ => rfl) (fun _ => rfl) (fun _ => rfl) hsession hengine
  exact hupdate.bind fun _ d hd => leads_pure hd.1

theorem settles_setCondition [Sink τ] (hlive : Engine.Keeps live) (number : Int)
    (condition : Option String) (h : a.Reflecting live) : Settles live (setCondition number condition) a := by
  refine (leads_resolving hlive (walks_resolve _ number)
    (gives_resolve hlive _ number) h).bind fun target b hb => ?_
  refine leads_change (hlive.setCondition b.engine target.2 condition) hb.1
    fun c hsession hengine => ?_
  have hupdate := leads_updateStoppoint hb.1 hb.2 (f := ({ · with condition }))
    (fun _ => rfl) (fun _ => rfl) (fun _ => rfl) hsession hengine
  exact hupdate.bind fun _ d hd => leads_pure hd.1

/-! ## Command lines -/

variable [Sink τ]

/-- A command keeps the two sides alike, whether it succeeds or fails. -/
theorem settles_perform (hlive : Engine.Keeps live) (command : Command) (h : a.Reflecting live) :
    Settles live (perform command) a := by
  cases command with
  | insert i => exact settles_insert hlive i h
  | delete numbers => exact settles_deleteAll hlive numbers h
  | enable enabled numbers => exact settles_enableAll hlive enabled numbers h
  | ignoreHits number count => exact settles_ignoreHits hlive number count h
  | setCondition number condition => exact settles_setCondition hlive number condition h
  | watch w => exact settles_watch hlive w h
  | _ =>
      refine leads_iff_after.mpr (reflecting_of_moves (fun s r t hst => ?_) (fun _ _ => ?_)
        (walks_perform_of_not_onStoppoints rfl a) h)
      · cases hst <;> exact ⟨rfl, rfl⟩
      · refine live_of_asked hlive fun request hrequest => ?_
        cases request <;> first | exact not_false | cases hrequest

theorem settles_runVerb (hlive : Engine.Keeps live) (verb : Verb) (arguments : String)
    (h : a.Reflecting live) : Settles live (runVerb verb arguments) a :=
  (settles_of_same (walks_readCommand verb arguments) h).bind fun command _ hb =>
    (settles_perform hlive command hb).bind fun _ _ hc => leads_pure hc

theorem settles_runLine (hlive : Engine.Keeps live) (register : Register) (line : Line)
    (h : a.Reflecting live) : Settles live (runLine register line) a := by
  unfold runLine
  cases register.verb? line.verb with
  | none => exact settles_of_same ((walks_say _ _).bind fun _ => walks_pure _) h
  | some verb =>
      refine (settles_runVerb hlive verb line.arguments h).attempt.bind fun outcome b hb => ?_
      cases outcome with
      | ok answer => exact leads_pure hb
      | error error => exact settles_of_same ((walks_say _ _).bind fun _ => walks_pure _) hb

theorem settles_answerLine (hlive : Engine.Keeps live) (register : Register) (text : String)
    (h : a.Reflecting live) : Settles live (answerLine register text) a := by
  unfold answerLine
  cases Line.parse text with
  | error malformed => exact settles_of_same ((walks_say _ _).bind fun _ => walks_pure _) h
  | ok line =>
      cases line with
      | none => exact leads_pure h
      | some line => exact (settles_runLine hlive register line h).bind fun _ _ hb => leads_pure hb

/-- Whatever a line holds, and whether its answer can be written or not, it keeps
the two sides alike. -/
theorem settles_handleLine (hlive : Engine.Keeps live) (register : Register) (text : String)
    (h : a.Reflecting live) : Settles live (handleLine register text) a := by
  refine (settles_answerLine hlive register text h).bind fun answer b hb => ?_
  cases answer with
  | none => exact leads_pure hb
  | some record => exact settles_of_same ((walks_emit fun _ => rfl).bind fun _ => walks_pure _) hb

end Act

/-! ## Runs -/

/-- What lines keep alike stays alike in every run. -/
theorem Adapter.reflecting_run [Engine σ] [Sink τ] {live : σ → Handle → Option Held}
    (hlive : Engine.Keeps live) (register : Register) {a : Adapter σ τ} (h : a.Reflecting live)
    (lines : List String) : (a.run register (lines.map .line)).Reflecting live := by
  induction lines generalizing a with
  | nil => exact h
  | cons line lines ih =>
      have hline : Act.Settles live (Act.respond register (.line line)) a :=
        (Act.settles_handleLine hlive register line h).bind fun _ _ hb => Act.leads_pure hb
      rw [List.map_cons, run_cons]
      exact ih (Act.leads_iff_after.mp hline)

/-- **The session reflects the engine**: at an engine that starts without
stoppoints, keeps them as it is told and reads them back, whatever lines are
processed and however they end, records, numbers and live stoppoints belong
together one by one, and each record says what the engine holds: whether the
stoppoint is enabled, its condition, ignore count, thread and whether it goes at
the first hit, and for a watchpoint what access triggers it. -/
theorem Adapter.reflects_of_run [Engine σ] [Sink τ] {live : σ → Handle → Option Held}
    (hlive : Engine.Keeps live) (config : Config) {engine : σ}
    (hempty : live engine = fun _ => none) (sink : τ) (register : Register)
    (lines : List String) :
    let a := (Adapter.new config engine sink).run register (lines.map .line)
    (∀ id p, a.session.stoppoint? id = some p →
      p.id = id ∧ a.session.id? p.handle = some id ∧ live a.engine p.handle = some p.held) ∧
    (∀ handle id, a.session.id? handle = some id →
      ∃ p, a.session.stoppoint? id = some p ∧ p.handle = handle) ∧
    (∀ handle held, live a.engine handle = some held → ∃ id, a.session.id? handle = some id) ∧
    ∀ handle id, a.session.id? handle = some id ↔
      a.session.numbering.handle? id = some handle := by
  intro a
  have hnew : (Adapter.new config engine sink).Reflecting live := by
    rw [Adapter.Reflecting]
    change (Session.new config).Reflects (live engine)
    rw [hempty]
    exact .new config
  have h : a.session.Reflects (live a.engine) := Adapter.reflecting_run hlive register hnew lines
  refine ⟨fun id p hp => ?_, fun handle id hid => ?_, fun handle held hheld => ?_,
    h.consistent.valid.id_iff⟩
  · have hid := h.consistent.mapped id p hp
    refine ⟨h.consistent.filed id p hp, hid, ?_⟩
    rw [h.live_eq, Session.stoppointOf?_eq hid, hp, Option.map_some]
  · obtain ⟨p, hp⟩ := h.recorded handle id hid
    exact ⟨p, hp, h.consistent.handle_eq hid hp⟩
  · obtain ⟨id, p, hid, -⟩ := h.exists_of_live hheld
    exact ⟨id, hid⟩

/-- Behind a line that fails, another breakpoint that is gone and one that is
changed, the ledger holds what the record of watchpoint 2 says. -/
theorem Ledger.reflects_of_run_ledger :
    let a := (Adapter.new {} ({} : Ledger) Discard.discard).run .standard
      (["break-insert -t -c x main", "break-watch -a y", "break-disable 1 9", "break-disable 2",
        "break-delete 1"].map .line)
    ∃ p, a.session.stoppoint? 2 = some p ∧
      a.engine.held p.handle = some { enabled := false, access := some (true, true) } := by
  intro a
  obtain ⟨hrecord, -, -, -⟩ := Adapter.reflects_of_run Ledger.keeps {}
    (rfl : Ledger.held {} = fun _ => none)
    Discard.discard .standard ["break-insert -t -c x main", "break-watch -a y",
      "break-disable 1 9", "break-disable 2", "break-delete 1"]
  have hheld : (a.session.stoppoint? 2).map Stoppoint.held =
      some { enabled := false, access := some (true, true) } := by decide +kernel
  obtain ⟨p, hp, hpheld⟩ := Option.map_eq_some_iff.mp hheld
  refine ⟨p, hp, ?_⟩
  rw [← hpheld]
  exact (hrecord 2 p hp).2.2

end MachineInterface
