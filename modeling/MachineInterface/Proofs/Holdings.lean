import Mathlib.Logic.Function.Basic
import MachineInterface.Proofs.Records

/-!
# MachineInterface.Proofs.Holdings

Engines that keep their stoppoints as they are told and read them back
(`Engine.Keeps`), and sessions that say the same of the stoppoints
(`Session.Reflects`): they have a record for each live stoppoint and for no
other.  What both sides do to a stoppoint keeps them alike.
-/

namespace MachineInterface

variable {σ : Type}

/-! ## What an engine holds -/

/-- What an engine holds of a stoppoint that commands can set. -/
structure Held where
  enabled : Bool := true
  condition : Option String := none
  ignoreCount : Nat := 0
  thread : Option Nat := none
  oneShot : Bool := false
  /-- Whether a watchpoint is triggered by reading, and by writing. -/
  access : Option (Bool × Bool) := none
deriving DecidableEq, Repr

/-- What a record says of its stoppoint. -/
def Stoppoint.held (p : Stoppoint) : Held where
  enabled := p.enabled
  condition := p.condition
  ignoreCount := p.ignoreCount
  thread := p.thread
  oneShot := p.oneShot
  access := p.watch.map fun w => (w.read, w.write)

/-- What is held of a new stoppoint. -/
def Placement.held : Placement → Held
  | breakpoint _ => {}
  | watchpoint _ read write => { access := some (read, write) }

/-- What is asked to be held of a new breakpoint. -/
def Insertion.held (i : Insertion) : Held where
  enabled := i.enabled
  condition := i.condition
  ignoreCount := i.ignoreCount
  thread := i.thread
  oneShot := i.oneShot

/-- The state says what is held. -/
def StoppointState.Shows (state : StoppointState) (held : Held) : Prop :=
  state.enabled = held.enabled ∧ state.condition = held.condition ∧
  state.ignoreCount = held.ignoreCount ∧ state.thread = held.thread ∧
  state.oneShot = held.oneShot

/-- The requests that change a stoppoint. -/
def Request.isChange : Request → Prop
  | deleteStoppoint _ | setEnabled .. | setCondition .. | setIgnoreCount .. | setThread ..
  | setOneShot .. => True
  | _ => False

namespace Engine

/-- The answer changes what is held of a live stoppoint, and nothing else; it is
a refusal exactly if the stoppoint is not live. -/
def Changes (live : σ → Handle → Option Held) (e : σ) (handle : Handle)
    (change : Held → Option Held) (answer : Except EngineError Unit × σ) : Prop :=
  match live e handle with
  | some held => answer.1 = .ok () ∧
    live answer.2 = Function.update (live e) handle (change held)
  | none => (∃ cause, answer.1 = .error cause) ∧ live answer.2 = live e

/-- An engine whose live stoppoints are changed by the calls for it and by
nothing else, and that reads back what it holds.  A new stoppoint has a handle
that was not live, and its creation ends without notifications. -/
structure Keeps [Engine σ] (live : σ → Handle → Option Held) : Prop where
  create : ∀ placement e, ∃ result f, Engine.create placement e = .finished result f ∧
    match result with
    | .ok handle => live e handle = none ∧
      live f = Function.update (live e) handle (some placement.held)
    | .error _ => live f = live e
  deleteStoppoint : ∀ e handle, Changes live e handle (fun _ => none)
    (Engine.answer (.deleteStoppoint handle) e)
  setEnabled : ∀ e handle enabled, Changes live e handle (some { · with enabled })
    (Engine.answer (.setEnabled handle enabled) e)
  setCondition : ∀ e handle condition, Changes live e handle (some { · with condition })
    (Engine.answer (.setCondition handle condition) e)
  setIgnoreCount : ∀ e handle ignoreCount, Changes live e handle (some { · with ignoreCount })
    (Engine.answer (.setIgnoreCount handle ignoreCount) e)
  setThread : ∀ e handle thread, Changes live e handle (some { · with thread })
    (Engine.answer (.setThread handle thread) e)
  setOneShot : ∀ e handle oneShot, Changes live e handle (some { · with oneShot })
    (Engine.answer (.setOneShot handle oneShot) e)
  other : ∀ request e, ¬ request.isChange → live (Engine.answer request e).2 = live e
  findStoppoint : ∀ e handle, (Engine.answer (.findStoppoint handle) e).1 =
    (live e handle).map fun _ => handle
  stoppointState : ∀ e handle held, live e handle = some held →
    ∃ state, (Engine.answer (.stoppointState handle) e).1 = .ok state ∧ state.Shows held
  site : ∀ e handle held, live e handle = some held →
    ∃ site, (Engine.answer (.site handle) e).1 = .ok site

end Engine

/-! ## A ledger -/

/-- An engine that is nothing but a ledger of stoppoints, numbered as they are
created.  Every place exists and every expression can be watched. -/
structure Ledger where
  created : Nat := 0
  held : Handle → Option Held := fun _ => none
  fresh : ∀ handle, created < handle.native → held handle = none := by exact fun _ _ => rfl

namespace Ledger

/-- Change what is held of a stoppoint. -/
def change (e : Ledger) (handle : Handle) (f : Held → Option Held) :
    Except EngineError Unit × Ledger :=
  (if (e.held handle).isSome then .ok () else .error .invalidHandle, {
    created := e.created
    held := Function.update e.held handle ((e.held handle).bind f)
    fresh := by
      intro other hother
      by_cases heq : other = handle
      · rw [← heq, Function.update_self, e.fresh other hother, Option.bind_none]
      · rw [Function.update_of_ne heq, e.fresh other hother] })

/-- What the ledger says of a stoppoint. -/
def state (e : Ledger) (handle : Handle) : Except EngineError StoppointState :=
  match e.held handle with
  | none => .error .invalidHandle
  | some held => .ok {
      enabled := held.enabled
      condition := held.condition
      ignoreCount := held.ignoreCount
      thread := held.thread
      oneShot := held.oneShot }

/-- Enter a new stoppoint. -/
def enter (e : Ledger) (placement : Placement) (kind : StoppointKind) : Handle × Ledger :=
  let handle : Handle := ⟨e.created + 1, kind⟩
  (handle, {
    created := e.created + 1
    held := Function.update e.held handle (some placement.held)
    fresh := by
      intro other hother
      have hne : other ≠ handle := by
        rintro rfl
        exact Nat.lt_irrefl _ hother
      rw [Function.update_of_ne hne, e.fresh other (Nat.lt_of_succ_lt hother)] })

instance : Engine Ledger where
  answer
    | .watchTarget _, e => (.ok { address := 0, size := 8 }, e)
    | .findStoppoint handle, e => ((e.held handle).map fun _ => handle, e)
    | .deleteStoppoint handle, e => e.change handle fun _ => none
    | .setEnabled handle enabled, e => e.change handle (some { · with enabled })
    | .setCondition handle condition, e => e.change handle (some { · with condition })
    | .setIgnoreCount handle ignoreCount, e => e.change handle (some { · with ignoreCount })
    | .setThread handle thread, e => e.change handle (some { · with thread })
    | .setOneShot handle oneShot, e => e.change handle (some { · with oneShot })
    | .stoppointState handle, e => (e.state handle, e)
    | .site handle, e => ((e.state handle).map fun _ => { locations := 1 }, e)
    | request, e => (request.refused, e)
  create placement e :=
    let (handle, e) := match placement with
      | .breakpoint _ => e.enter placement .breakpoint
      | .watchpoint .. => e.enter placement .watchpoint
    .finished (.ok handle) e

theorem changes_change (e : Ledger) (handle : Handle) (f : Held → Option Held) :
    Engine.Changes held e handle f (e.change handle f) := by
  have hresult : (e.change handle f).1 =
      if (e.held handle).isSome then .ok () else .error .invalidHandle := rfl
  have hnew : (e.change handle f).2.held =
      Function.update e.held handle ((e.held handle).bind f) := rfl
  rw [Engine.Changes, hresult, hnew]
  cases hheld : e.held handle with
  | none =>
      refine ⟨⟨_, rfl⟩, ?_⟩
      rw [Option.bind_none, ← hheld, Function.update_eq_self]
  | some held => exact ⟨rfl, rfl⟩

theorem state_of_held {e : Ledger} {handle : Handle} {h : Held} (hheld : e.held handle = some h) :
    ∃ state, e.state handle = .ok state ∧ state.Shows h := by
  rw [state, hheld]
  exact ⟨_, rfl, rfl, rfl, rfl, rfl, rfl⟩

theorem held_enter (e : Ledger) (placement : Placement) (kind : StoppointKind) :
    e.held (e.enter placement kind).1 = none ∧ (e.enter placement kind).2.held =
      Function.update e.held (e.enter placement kind).1 (some placement.held) :=
  ⟨e.fresh _ (Nat.lt_succ_self _), rfl⟩

/-- A ledger keeps its stoppoints as it is told. -/
theorem keeps : Engine.Keeps held where
  create placement e := by
    cases placement with
    | breakpoint location => exact ⟨_, _, rfl, held_enter e _ .breakpoint⟩
    | watchpoint target read write => exact ⟨_, _, rfl, held_enter e _ .watchpoint⟩
  deleteStoppoint e handle := changes_change e handle _
  setEnabled e handle _ := changes_change e handle _
  setCondition e handle _ := changes_change e handle _
  setIgnoreCount e handle _ := changes_change e handle _
  setThread e handle _ := changes_change e handle _
  setOneShot e handle _ := changes_change e handle _
  other request e h := by
    cases request <;> first | rfl | exact (h trivial).elim
  findStoppoint e handle := rfl
  stoppointState e handle h hheld := state_of_held hheld
  site e handle h hheld := by
    obtain ⟨state, hstate, -⟩ := state_of_held hheld
    change ∃ site, (e.state handle).map (fun _ => ({ locations := 1 } : Site)) = .ok site
    rw [hstate]
    exact ⟨_, rfl⟩

end Ledger

/-! ## Sessions -/

/-- The session has a record for each live stoppoint and for no other, and the
record says what is held of it. -/
structure Session.Reflects (s : Session) (live : Handle → Option Held) : Prop where
  consistent : s.Consistent
  recorded : ∀ handle id, s.id? handle = some id → ∃ p, s.stoppoint? id = some p
  live_eq : ∀ handle, live handle = (s.stoppointOf? handle).map Stoppoint.held

namespace Session

variable {s t : Session} {live : Handle → Option Held} {handle : Handle} {id : Nat}

theorem stoppointOf?_eq (h : s.id? handle = some id) : s.stoppointOf? handle = s.stoppoint? id := by
  rw [stoppointOf?, h, Option.bind_some]

theorem stoppointOf?_eq_none (h : s.id? handle = none) : s.stoppointOf? handle = none := by
  rw [stoppointOf?, h, Option.bind_none]

/-- Forgetting a handle takes its record off it and no other. -/
theorem Consistent.stoppointOf?_forget (h : s.Consistent) (handle other : Handle) :
    (s.forget handle).2.stoppointOf? other =
      if handle = other then none else s.stoppointOf? other := by
  have hother : (s.forget handle).2.id? other = if handle = other then none else s.id? other := by
    rw [id?, numbering_forget, Numbering.id?_erase, id?]
  by_cases heq : handle = other
  · rw [if_pos heq] at hother ⊢
    exact stoppointOf?_eq_none hother
  · rw [if_neg heq] at hother ⊢
    cases hid : s.id? handle with
    | none => rw [forget_of_id? hid]
    | some id =>
        cases hid' : s.id? other with
        | none => rw [stoppointOf?_eq_none (hother.trans hid'), stoppointOf?_eq_none hid']
        | some id' =>
            have hne : id ≠ id' := fun hids => heq (h.handle_unique hid (hids ▸ hid'))
            rw [stoppointOf?_eq (hother.trans hid'), stoppointOf?_eq hid', stoppoint?_forget hid,
              if_neg hne]

/-- Changing the record of a handle changes no other. -/
theorem Consistent.stoppointOf?_update (h : s.Consistent) (hid : s.id? handle = some id)
    (f : Stoppoint → Stoppoint) (other : Handle) :
    (s.update id f).2.stoppointOf? other =
      if handle = other then (s.stoppointOf? handle).map f else s.stoppointOf? other := by
  have hother : (s.update id f).2.id? other = s.id? other := by rw [id?, numbering_update, id?]
  by_cases heq : handle = other
  · rw [if_pos heq, stoppointOf?_eq hid, ← heq]
    rw [← heq, hid] at hother
    rw [stoppointOf?_eq hother, stoppoint?_update, if_pos rfl]
  · rw [if_neg heq]
    cases hid' : s.id? other with
    | none => rw [stoppointOf?_eq_none (hother.trans hid'), stoppointOf?_eq_none hid']
    | some id' =>
        have hne : id ≠ id' := fun hids => heq (h.handle_unique hid (hids ▸ hid'))
        rw [stoppointOf?_eq (hother.trans hid'), stoppointOf?_eq hid', stoppoint?_update,
          if_neg hne]

namespace Reflects

/-- A session in which nothing has happened reflects an engine without
stoppoints. -/
theorem new (config : Config) : (Session.new config).Reflects fun _ => none where
  consistent := consistent_new config
  recorded := by simp [Session.new, id?]
  live_eq := by simp [Session.new, stoppointOf?, id?]

/-- The objects of a session do not matter. -/
theorem congr (h : s.Reflects live) (hnumbering : t.numbering = s.numbering)
    (hstoppoints : t.stoppoints = s.stoppoints) : t.Reflects live where
  consistent := h.consistent.change (.objects hnumbering hstoppoints)
  recorded := by
    simpa only [id?, stoppoint?, hnumbering, hstoppoints] using h.recorded
  live_eq handle := by
    have hfind : t.stoppoint? = s.stoppoint? := by
      funext id
      rw [stoppoint?, hstoppoints, stoppoint?]
    have hids : t.id? handle = s.id? handle := by rw [id?, hnumbering, id?]
    rw [h.live_eq, stoppointOf?, stoppointOf?, hids, hfind]

/-- What is not live has no number. -/
theorem id?_eq_none (h : s.Reflects live) (hlive : live handle = none) : s.id? handle = none := by
  cases hid : s.id? handle with
  | none => rfl
  | some id =>
      obtain ⟨p, hp⟩ := h.recorded handle id hid
      have hheld := h.live_eq handle
      rw [hlive, stoppointOf?_eq hid, hp] at hheld
      cases hheld

/-- A live stoppoint is recorded under its number. -/
theorem exists_of_live (h : s.Reflects live) {held : Held} (hlive : live handle = some held) :
    ∃ id p, s.id? handle = some id ∧ s.stoppoint? id = some p ∧ p.held = held := by
  have hheld := h.live_eq handle
  rw [hlive] at hheld
  obtain ⟨p, hp, hpheld⟩ := Option.map_eq_some_iff.mp hheld.symm
  obtain ⟨id, hid, hp⟩ := Option.bind_eq_some_iff.mp hp
  exact ⟨id, p, hid, hp, hpheld⟩

/-- A stoppoint is forgotten that is live no longer. -/
theorem forget (h : s.Reflects live) (handle : Handle) :
    (s.forget handle).2.Reflects (Function.update live handle none) where
  consistent := h.consistent.change (.forget handle)
  recorded other id hid := by
    have hids : (s.forget handle).2.stoppointOf? other ≠ none := by
      rw [h.consistent.stoppointOf?_forget]
      rw [id?, numbering_forget, Numbering.id?_erase] at hid
      split at hid
      · cases hid
      · next hne =>
        obtain ⟨p, hp⟩ := h.recorded other id hid
        rw [if_neg hne, stoppointOf?_eq hid, hp]
        exact Option.some_ne_none p
    rw [stoppointOf?_eq hid] at hids
    exact Option.ne_none_iff_exists'.mp hids
  live_eq other := by
    rw [h.consistent.stoppointOf?_forget, Function.update_apply]
    by_cases heq : handle = other
    · rw [if_pos heq.symm, if_pos heq, Option.map_none]
    · rw [if_neg (Ne.symm heq), if_neg heq, h.live_eq]

/-- A record is changed as the stoppoint is. -/
theorem update (h : s.Reflects live) (hid : s.id? handle = some id) {f : Stoppoint → Stoppoint}
    {g : Held → Held} (hfid : ∀ p, (f p).id = p.id) (hfhandle : ∀ p, (f p).handle = p.handle)
    (hheld : ∀ p, (f p).held = g p.held) :
    (s.update id f).2.Reflects (Function.update live handle ((live handle).map g)) where
  consistent := h.consistent.change (.update id hfid hfhandle)
  recorded other id' hid' := by
    rw [id?, numbering_update] at hid'
    obtain ⟨p, hp⟩ := h.recorded other id' hid'
    rw [stoppoint?_update]
    split
    · exact ⟨f p, by rw [hp, Option.map_some]⟩
    · exact ⟨p, hp⟩
  live_eq other := by
    rw [h.consistent.stoppointOf?_update hid, Function.update_apply]
    by_cases heq : handle = other
    · rw [if_pos heq.symm, if_pos heq, h.live_eq, Option.map_map, Option.map_map]
      exact congrArg (Option.map · _) (funext fun p => (hheld p).symm)
    · rw [if_neg (Ne.symm heq), if_neg heq, h.live_eq]

/-- A new stoppoint is numbered and recorded. -/
theorem record {held : Held} (h : s.Reflects (Function.update live handle none))
    (hlive : live handle = some held) (hnumber : s.number handle = .ok (id, t)) {p : Stoppoint}
    (hpid : p.id = id) (hphandle : p.handle = handle) (hpheld : p.held = held) :
    (t.record p).Reflects live := by
  have hnone : s.id? handle = none := h.id?_eq_none (Function.update_self ..)
  have ht : t.Consistent := h.consistent.change (.number hnumber)
  have hid : t.id? handle = some id := id?_number hnumber
  obtain ⟨m, hm, rfl⟩ := number_cases hnumber
  have hother : ∀ {other}, handle ≠ other →
      ({ s with numbering := m } : Session).id? other = s.id? other := by
    intro other hne
    rw [id?, Numbering.id?_number hm, if_neg hne, id?]
  have hrecord : ∀ {other id'}, handle ≠ other → s.id? other = some id' →
      (({ s with numbering := m } : Session).record p).stoppoint? id' = s.stoppoint? id' := by
    intro other id' hne hid'
    have hids : p.id ≠ id' := by
      rw [hpid]
      rintro rfl
      exact hne (ht.handle_unique hid ((hother hne).trans hid'))
    rw [stoppoint?_record, if_neg hids]
    rfl
  have hnew : (({ s with numbering := m } : Session).record p).stoppoint? id = some p := by
    rw [stoppoint?_record, if_pos hpid]
  constructor
  case consistent => exact ht.change (.record (by rw [hphandle, hpid, hid]))
  case recorded =>
    intro other id' hid'
    by_cases heq : handle = other
    · obtain rfl : id = id' := Option.some.inj (hid.symm.trans (heq ▸ hid'))
      exact ⟨p, hnew⟩
    · have hs := (hother heq).symm.trans hid'
      rw [hrecord heq hs]
      exact h.recorded other id' hs
  case live_eq =>
    intro other
    by_cases heq : handle = other
    · rw [← heq, stoppointOf?_eq (s := ({ s with numbering := m } : Session).record p) hid, hnew,
        Option.map_some, hpheld, hlive]
    · have hs := h.live_eq other
      rw [Function.update_of_ne (Ne.symm heq)] at hs
      rw [hs]
      cases hid' : s.id? other with
      | none =>
          rw [stoppointOf?_eq_none hid', stoppointOf?_eq_none]
          exact (hother heq).trans hid'
      | some id' =>
          rw [stoppointOf?_eq hid', ← hrecord heq hid', stoppointOf?_eq]
          exact (hother heq).trans hid'

end Reflects

end Session

end MachineInterface
