import Mathlib.Logic.Function.Iterate
import MachineInterface.Proofs.Records

/-!
# MachineInterface.Proofs.Announcements

Engines that announce the stoppoints that they create.  An announcement numbers
the stoppoint and puts a record under its number (`Session.Announced`), and a
command that comes behind announcements does the same as without them
(`Mirrors`): it finds the number and replaces the record.
`perform_announcing` says so of whole insertions.
-/

namespace MachineInterface

variable {σ τ α β V : Type}

/-! ## Engines that announce -/

/-- Announce a new stoppoint so many times and end its creation. -/
def Creation.announced (handle : Handle) : (times : Nat) → σ → Creation σ
  | 0, engine => .finished (.ok handle) engine
  | times + 1, engine =>
    .deliver (.stoppoint handle .added) engine fun _ engine => announced handle times engine

/-- The same creation, but that its stoppoint is announced so many times more. -/
def Creation.announcing (times : Nat) : Creation σ → Creation σ
  | .finished (.ok handle) engine => announced handle times engine
  | .finished (.error cause) engine => .finished (.error cause) engine
  | .deliver notification engine resume =>
    .deliver notification engine fun outcome engine => (resume outcome engine).announcing times

/-- The same engine, but that it announces each new stoppoint so many times more. -/
@[reducible] def Engine.announcing [Engine σ] (times : Nat) : Engine σ where
  answer := Engine.answer
  create placement engine := (Engine.create placement engine).announcing times

/-- The requests that read or set up a stoppoint. -/
def Request.isStoppointAccess : Request → Prop
  | setEnabled .. | setCondition .. | setIgnoreCount .. | setThread .. | setOneShot ..
  | stoppointState _ | site _ => True
  | _ => False

theorem Request.isStoppointAccess_of_isSetting {request : Request} (h : request.isSetting) :
    request.isStoppointAccess := by
  cases request <;> first | exact trivial | exact h.elim

/-- What an engine holds of its stoppoints, its `view`, decides how it answers
requests about them and what becomes of them, and reading leaves them as they
are. -/
structure Engine.Steady [Engine σ] (view : σ → V) : Prop where
  answer_eq : ∀ request : Request, request.isStoppointAccess → ∀ {e f : σ}, view e = view f →
    (Engine.answer request e).1 = (Engine.answer request f).1
  view_eq : ∀ request : Request, request.isStoppointAccess → ∀ {e f : σ}, view e = view f →
    view (Engine.answer request e).2 = view (Engine.answer request f).2
  view_stoppointState : ∀ handle e, view (Engine.answer (.stoppointState handle) e).2 = view e
  view_site : ∀ handle e, view (Engine.answer (.site handle) e).2 = view e

namespace Act

variable [Engine σ] [Sink τ]

/-- Handle the announcement of a stoppoint. -/
def announce (handle : Handle) : Act σ τ Unit := Act.handle (.stoppoint handle .added)

/-! ## Announcements -/

/-- An announcement changes nothing that the engine holds of its stoppoints, and
the session at most so far that the stoppoint is numbered and its record merged
with the state that the engine tells. -/
theorem announce_cases {view : σ → V} (hsteady : Engine.Steady view) (handle : Handle)
    (a : Adapter σ τ) : view ((announce handle).after a).engine = view a.engine ∧
    (((announce handle).after a).session = a.session ∨
      ∃ state site id s, (Engine.answer (.stoppointState handle) a.engine).1 = .ok state ∧
        a.session.number handle = .ok (id, s) ∧
        ((announce handle).after a).session =
          (s.merge id (.ofEngine handle id s.threadGroup state site) (·.observed state)).2) := by
  have hstate := hsteady.view_stoppointState handle a.engine
  have hsite := hsteady.view_site handle (Engine.answer (.stoppointState handle) a.engine).2
  change view ((stoppointAdded handle).after a).engine = _ ∧
    (((stoppointAdded handle).after a).session = _ ∨ ∃ state site id s, _ ∧ _ ∧
      ((stoppointAdded handle).after a).session = _)
  simp only [stoppointAdded, after_bind, ask_apply]
  cases (Engine.answer (.stoppointState handle) a.engine).1 with
  | error cause => exact ⟨hstate, .inl rfl⟩
  | ok state =>
      simp only [demand_ok]
      cases (Engine.answer (.site handle)
        (Engine.answer (.stoppointState handle) a.engine).2).1 with
      | error cause => exact ⟨hsite.trans hstate, .inl rfl⟩
      | ok site =>
          simp only [demand_ok, number_apply]
          cases hnumber : a.session.number handle with
          | error e => exact ⟨hsite.trans hstate, .inl rfl⟩
          | ok r =>
              simp only [session_apply, inSession_apply]
              have hquiet : ∀ kind results, Walks Session.Same (fun _ _ => False)
                  (notify kind results : Act σ τ Unit) := fun _ _ => walks_notify fun _ => rfl
              constructor
              · exact (congrArg view ((hquiet _ _).same _).2).trans (hsite.trans hstate)
              · exact .inr ⟨state, site, r.1, r.2, rfl, rfl, ((hquiet _ _).same _).1⟩

end Act

namespace Session

/-- Compared with `s`, the handle may have been numbered in `t` and a record put
under its number. -/
def Announced (handle : Handle) (s t : Session) : Prop :=
  t = s ∨ ∃ id u, s.number handle = .ok (id, u) ∧ t.dropRecord id = u.dropRecord id

/-- Sessions that differ in one record number alike. -/
theorem id?_of_dropRecord {s t : Session} {id : Nat} (h : t.dropRecord id = s.dropRecord id)
    (handle : Handle) : t.id? handle = s.id? handle := by
  have hnumbering : (t.dropRecord id).numbering = (s.dropRecord id).numbering := by rw [h]
  change t.numbering = s.numbering at hnumbering
  rw [id?, hnumbering, id?]

/-- Behind an announcement the handle gets the number that it would have got
without one, and then only the record under it may differ. -/
theorem Announced.number {handle : Handle} {s t u : Session} {id : Nat}
    (h : s.Announced handle t) (hs : s.number handle = .ok (id, u)) :
    ∃ v, t.number handle = .ok (id, v) ∧ v.dropRecord id = u.dropRecord id := by
  obtain rfl | ⟨id', u', hs', ht⟩ := h
  · exact ⟨u, hs, rfl⟩
  · rw [hs] at hs'
    obtain ⟨rfl, rfl⟩ := Prod.mk.inj (Except.ok.inj hs')
    have hid : t.id? handle = some id := by
      rw [id?_of_dropRecord ht]
      exact id?_number hs
    exact ⟨t, number_of_id? hid, ht⟩

/-- A handle that cannot be numbered was not announced. -/
theorem Announced.number_error {handle : Handle} {s t : Session} {e : Error}
    (h : s.Announced handle t) (hs : s.number handle = .error e) :
    t.number handle = .error e := by
  obtain rfl | ⟨id, u, hs', -⟩ := h
  · exact hs
  · rw [hs] at hs'
    cases hs'

/-- A further announcement adds nothing. -/
theorem Announced.merge {handle : Handle} {s t u : Session} {id : Nat} (h : s.Announced handle t)
    (ht : t.number handle = .ok (id, u)) (fresh : Stoppoint) (f : Stoppoint → Stoppoint) :
    s.Announced handle (u.merge id fresh f).2 := by
  cases hs : s.number handle with
  | error e =>
      rw [h.number_error hs] at ht
      cases ht
  | ok r =>
      obtain ⟨v, hv, hdrop⟩ := h.number hs
      rw [ht] at hv
      obtain ⟨rfl, rfl⟩ := Prod.mk.inj (Except.ok.inj hv)
      exact .inr ⟨r.1, r.2, hs, by rw [dropRecord_merge, hdrop]⟩

end Session

namespace Act

variable [Engine σ] [Sink τ]

/-- Any number of announcements. -/
theorem announced_iterate {view : σ → V} (hsteady : Engine.Steady view) (handle : Handle)
    (times : Nat) (a : Adapter σ τ) :
    view (((announce handle).after)^[times] a).engine = view a.engine ∧
      a.session.Announced handle (((announce handle).after)^[times] a).session := by
  induction times with
  | zero => exact ⟨rfl, .inl rfl⟩
  | succ times ih =>
      rw [Function.iterate_succ_apply']
      obtain ⟨hview, hcases⟩ :=
        announce_cases hsteady handle (((announce handle).after)^[times] a)
      refine ⟨hview.trans ih.1, ?_⟩
      obtain heq | ⟨state, site, id, u, -, hnumber, heq⟩ := hcases
      · rw [heq]
        exact ih.2
      · rw [heq]
        exact ih.2.merge hnumber _ _

/-- Announcements at the end of a creation are handled before the command goes on. -/
theorem run_announced (handle : Handle) (times : Nat) (engine : σ) (a : Adapter σ τ) :
    create.run (Creation.announced handle times engine) a =
      .ok (.ok handle) (((announce handle).after)^[times] { a with engine }) := by
  induction times generalizing a engine with
  | zero => rfl
  | succ times ih =>
      obtain ⟨outcome, hattempt⟩ := attempt_eq_ok (announce handle) { a with engine }
      rw [Creation.announced, run_deliver hattempt, ih, Function.iterate_succ_apply]

/-- A creation that announces its stoppoint goes on as before up to its end. -/
theorem run_announcing (course : Creation σ) (times : Nat) (a : Adapter σ τ) :
    create.run (course.announcing times) a = match create.run course a with
      | .ok (.ok handle) b => .ok (.ok handle) (((announce handle).after)^[times] b)
      | other => other := by
  induction course generalizing a with
  | finished result engine =>
      cases result with
      | ok handle =>
          rw [Creation.announcing]
          exact run_announced handle times engine a
      | error cause => rfl
  | deliver notification engine resume ih =>
      obtain ⟨outcome, hattempt⟩ := attempt_eq_ok (handle notification) { a with engine }
      rw [Creation.announcing, run_deliver hattempt, run_deliver hattempt, ih]

/-! ## Commands behind announcements -/

section Mirrors

omit [Engine σ] [Sink τ]

/-- From related adapters the step succeeds with the same value, and behind it
they are related again, or it fails with the same error. -/
def Mirrors (R : Adapter σ τ → Adapter σ τ → Prop) (step : Act σ τ α)
    (S : α → Adapter σ τ → Adapter σ τ → Prop) : Prop :=
  ∀ a b, R a b →
    (∃ v c d, step a = .ok v c ∧ step b = .ok v d ∧ S v c d) ∨
      ∃ e c d, step a = .error e c ∧ step b = .error e d

/-- The engines hold the same of their stoppoints, and the sessions are related
by `P`. -/
def Alike (view : σ → V) (P : Session → Session → Prop) (a b : Adapter σ τ) : Prop :=
  view a.engine = view b.engine ∧ P a.session b.session

variable {R : Adapter σ τ → Adapter σ τ → Prop}

theorem Mirrors.bind {S : α → Adapter σ τ → Adapter σ τ → Prop}
    {T : β → Adapter σ τ → Adapter σ τ → Prop} {step : Act σ τ α} {next : α → Act σ τ β}
    (hstep : Mirrors R step S) (hnext : ∀ v, Mirrors (S v) (next v) T) :
    Mirrors R (step >>= next) T := by
  intro a b hab
  obtain ⟨v, c, d, hc, hd, hcd⟩ | ⟨e, c, d, hc, hd⟩ := hstep a b hab
  · rw [bind_of_ok hc, bind_of_ok hd]
    exact hnext v c d hcd
  · exact .inr ⟨e, c, d, bind_of_error hc _, bind_of_error hd _⟩

theorem mirrors_pure (v : α) : Mirrors R (pure v) fun _ => R :=
  fun a b hab => .inl ⟨v, a, b, rfl, rfl, hab⟩

theorem mirrors_demand (r : Except EngineError α) : Mirrors R (demand r) fun _ => R := by
  intro a b hab
  cases r with
  | ok v => exact .inl ⟨v, a, b, rfl, rfl, hab⟩
  | error cause => exact .inr ⟨_, a, b, rfl, rfl⟩

end Mirrors

variable {view : σ → V}

section Steady

omit [Sink τ]

variable {P : Session → Session → Prop}

theorem Asks.mirrors (hsteady : Engine.Steady view) {step : Act σ τ α}
    (h : Asks Request.isStoppointAccess step) :
    Mirrors (Alike view P) step fun _ => Alike view P := by
  induction h with
  | pure v => exact mirrors_pure v
  | @ask request h =>
      intro a b hab
      rw [ask_apply, ask_apply, hsteady.answer_eq request h hab.1]
      exact .inl ⟨_, _, _, rfl, rfl, hsteady.view_eq request h hab.1, hab.2⟩
  | demand r => exact mirrors_demand r
  | bind _ _ ihstep ihnext => exact ihstep.bind ihnext

/-- Behind a step that fails anyway it is of no account what the adapters are. -/
theorem mirrors_discard (handle : Handle) (topic : String) (e : Error)
    {R : Adapter σ τ → Adapter σ τ → Prop} {S : α → Adapter σ τ → Adapter σ τ → Prop} :
    Mirrors R (do discard handle topic; throw e) S := by
  intro a b hab
  rw [bind_of_ok (discard_apply handle topic a), bind_of_ok (discard_apply handle topic b)]
  exact .inr ⟨e, _, _, rfl, rfl⟩

/-- The announced stoppoint gets the number that it would have got otherwise. -/
theorem mirrors_numberOrDiscard (handle : Handle) :
    Mirrors (Alike view (Session.Announced handle)) (numberOrDiscard handle : Act σ τ Nat)
      fun id => Alike view fun s t => s.dropRecord id = t.dropRecord id := by
  intro a b hab
  rw [numberOrDiscard_apply, numberOrDiscard_apply]
  cases hnumber : a.session.number handle with
  | error e =>
      rw [hab.2.number_error hnumber]
      exact .inr ⟨e, _, _, rfl, rfl⟩
  | ok r =>
      obtain ⟨v, hv, hdrop⟩ := hab.2.number hnumber
      rw [hv]
      exact .inl ⟨r.1, _, _, rfl, rfl, hab.1, hdrop.symm⟩

/-- The record of the command replaces what an announcement has put there. -/
theorem mirrors_enroll (hsteady : Engine.Steady view) (handle : Handle)
    {stoppoint : Nat → String → StoppointState → Stoppoint}
    (hid : ∀ id threadGroup state, (stoppoint id threadGroup state).id = id) :
    Mirrors (Alike view (Session.Announced handle))
      (enroll handle stoppoint : Act σ τ Stoppoint) fun _ => Alike view (· = ·) := by
  refine (mirrors_numberOrDiscard handle).bind fun id => ?_
  have hask : Asks Request.isStoppointAccess (ask (.stoppointState handle) : Act σ τ _) :=
    .ask trivial
  refine (hask.mirrors hsteady).bind fun r => (mirrors_demand r).bind fun state a b hab => ?_
  have hthreadGroup : (a.session.dropRecord id).threadGroup =
      (b.session.dropRecord id).threadGroup := by rw [hab.2]
  change a.session.threadGroup = b.session.threadGroup at hthreadGroup
  let p := stoppoint id b.session.threadGroup state
  refine .inl ⟨p, { a with session := a.session.record p },
    { b with session := b.session.record p }, ?_, rfl, hab.1, ?_⟩
  · change EStateM.Result.ok (stoppoint id a.session.threadGroup state)
      { a with session := a.session.record (stoppoint id a.session.threadGroup state) } = _
    rw [hthreadGroup]
  · have hp : p.id = id := hid id _ state
    change a.session.record p = b.session.record p
    rw [← Session.record_dropRecord, hp, hab.2, ← hp, Session.record_dropRecord]

theorem mirrors_adopt (hsteady : Engine.Steady view) (i : Insertion) (handle : Handle) :
    Mirrors (Alike view (Session.Announced handle)) (adopt i handle : Act σ τ Stoppoint)
      fun _ => Alike view (· = ·) := by
  have hask : Asks Request.isStoppointAccess (ask (.site handle) : Act σ τ _) := .ask trivial
  refine (hask.mirrors hsteady).bind fun r => (mirrors_demand r).bind fun site => ?_
  by_cases hplace : (!i.pending && site.locations = 0) = true
  · rw [if_pos hplace]
    exact mirrors_discard handle _ _
  · rw [if_neg hplace]
    have hconfigure := (asks_configure handle i).mono (σ := σ) (τ := τ)
      fun _ => Request.isStoppointAccess_of_isSetting
    exact (hconfigure.mirrors hsteady).bind fun _ =>
      mirrors_enroll hsteady handle fun _ _ _ => rfl

end Steady

/-! ## Insertions at an engine that announces -/

/-- The second step creates the same stoppoint as the first one and then handles
so many announcements of it. -/
def Announces (times : Nat) (step announcing : Act σ τ Handle) : Prop :=
  ∀ a, announcing a = match step a with
    | .ok handle b => .ok handle (((announce handle).after)^[times] b)
    | other => other

/-- A creation of given course does not depend on what other creations announce. -/
theorem run_at_announcing (times : Nat) (course : Creation σ) (a : Adapter σ τ) :
    @create.run σ τ (Engine.announcing times) _ course a = create.run course a := by
  induction course generalizing a with
  | finished result engine => rfl
  | deliver notification engine resume ih =>
      obtain ⟨outcome, hattempt⟩ := attempt_eq_ok (handle notification) { a with engine }
      rw [run_deliver hattempt, ← ih]
      exact @run_deliver σ τ (Engine.announcing times) _ _ _ _ _ _ _ hattempt

theorem announces_create (times : Nat) (placement : Placement) :
    Announces times (do demand (← create placement))
      (do demand (← @create σ τ (Engine.announcing times) _ placement)) := by
  intro a
  have hrun : @create σ τ (Engine.announcing times) _ placement a =
      match create placement a with
        | .ok (.ok handle) b => .ok (.ok handle) (((announce handle).after)^[times] b)
        | other => other :=
    (run_at_announcing times _ a).trans (run_announcing (Engine.create placement a.engine) times a)
  cases hcreate : create placement a with
  | error e b =>
      rw [hcreate] at hrun
      rw [bind_of_error hcreate, bind_of_error hrun]
  | ok result b =>
      rw [hcreate] at hrun
      cases result with
      | ok handle =>
          rw [bind_of_ok hcreate, bind_of_ok hrun]
          rfl
      | error cause =>
          rw [bind_of_ok hcreate, bind_of_ok hrun]
          rfl

/-- A question in front of a creation is answered alike. -/
theorem announces_ask {times : Nat} (request : Request)
    {next announcing : request.Answer → Act σ τ Handle}
    (h : ∀ answer, Announces times (next answer) (announcing answer)) :
    Announces times (ask request >>= next) (ask request >>= announcing) := by
  intro a
  rw [bind_of_ok (ask_apply request a), bind_of_ok (ask_apply request a)]
  exact h _ _

theorem announces_createWatchpoint (times : Nat) (w : Watch) :
    Announces times (createWatchpoint w)
      (@createWatchpoint σ τ (Engine.announcing times) _ w) := by
  refine announces_ask (.watchTarget w.expression) fun target => ?_
  cases target with
  | error cause => exact fun _ => rfl
  | ok target => exact announces_create times (.watchpoint target w.read w.write)

/-- What a command does with its stoppoint comes out the same behind announcements. -/
theorem Announces.mirrors (hsteady : Engine.Steady view) {times : Nat}
    {step announcing : Act σ τ Handle} (h : Announces times step announcing)
    {finish : Handle → Act σ τ α} {S : α → Adapter σ τ → Adapter σ τ → Prop}
    (hfinish : ∀ handle, Mirrors (Alike view (Session.Announced handle)) (finish handle) S)
    (a : Adapter σ τ) :
    (∃ v c d, (step >>= finish) a = .ok v c ∧ (announcing >>= finish) a = .ok v d ∧ S v c d) ∨
      ∃ e c d, (step >>= finish) a = .error e c ∧ (announcing >>= finish) a = .error e d := by
  have hannouncing := h a
  cases hstep : step a with
  | error e b =>
      rw [hstep] at hannouncing
      exact .inr ⟨e, b, b, bind_of_error hstep _, bind_of_error hannouncing _⟩
  | ok handle b =>
      rw [hstep] at hannouncing
      rw [bind_of_ok hstep, bind_of_ok hannouncing]
      obtain ⟨hview, hsession⟩ := announced_iterate hsteady handle times b
      exact hfinish handle b _ ⟨hview.symm, hsession⟩

/-- An insertion has the same outcome at an engine that announces. -/
theorem perform_announcing (hsteady : Engine.Steady view) {command : Command}
    (hcommand : (∃ i, command = .insert i) ∨ ∃ w, command = .watch w) (times : Nat)
    (a : Adapter σ τ) :
    (∃ results c d, perform command a = .ok results c ∧
      @perform σ τ (Engine.announcing times) _ command a = .ok results d ∧
      Alike view (· = ·) c d) ∨
    ∃ e c d, perform command a = .error e c ∧
      @perform σ τ (Engine.announcing times) _ command a = .error e d := by
  obtain ⟨i, rfl⟩ | ⟨w, rfl⟩ := hcommand
  · have hcreate : Announces times (createBreakpoint i)
        (@createBreakpoint σ τ (Engine.announcing times) _ i) :=
      announces_create times (.breakpoint i.location)
    exact hcreate.mirrors hsteady (fun handle =>
      (mirrors_adopt hsteady i handle).bind fun p => mirrors_pure _) a
  · exact (announces_createWatchpoint times w).mirrors hsteady (fun handle =>
      (mirrors_enroll hsteady handle fun _ _ _ => rfl).bind fun p => mirrors_pure _) a

end Act

end MachineInterface
