import MachineInterface.Engine.Table
import MachineInterface.Proofs.Retirement

/-!
# MachineInterface.Proofs.WellFormed

The fields of a record agree with each other (`Stoppoint.WellFormed`): what is
shown of a stoppoint, and the reason that is given for a stop at it, depend on
this.  Commands and notifications all write records, one over the other, but
each of them leaves only well-formed ones (`Session.Keeps`).  That an engine
answers the creation of a breakpoint with a breakpoint, and that of a watchpoint
with a watchpoint, is all that it takes (`Engine.Creates`).
-/

namespace MachineInterface

variable {σ τ : Type}

/-! ## Records -/

namespace Stoppoint

/-- The fields of the record agree with each other. -/
structure WellFormed (p : Stoppoint) : Prop where
  /-- Watchpoints watch an expression, and breakpoints watch none. -/
  watch_iff : p.watch.isSome = true ↔ p.handle.kind = .watchpoint
  /-- Only a breakpoint waits for its place, and only while it has none. -/
  pending : p.pending = true → p.handle.kind = .breakpoint ∧ p.site.locations = 0
  /-- A watchpoint is triggered by some access. -/
  access : ∀ watch ∈ p.watch, watch.read = true ∨ watch.write = true

variable {p : Stoppoint}

theorem WellFormed.placed (h : p.WellFormed) (site : Site) : (p.placed site).WellFormed where
  watch_iff := h.watch_iff
  pending := by
    intro hpending
    have hboth : p.pending = true ∧ site.locations = 0 := by
      simpa [Stoppoint.placed] using hpending
    exact ⟨(h.pending hboth.1).1, hboth.2⟩
  access := h.access

theorem WellFormed.observed (h : p.WellFormed) (state : StoppointState) :
    (p.observed state).WellFormed :=
  ⟨h.watch_iff, h.pending, h.access⟩

theorem WellFormed.reported (h : p.WellFormed) (state : StoppointState) (site : Option Site) :
    (p.reported state site).WellFormed := by
  cases site with
  | none => exact h.observed state
  | some site => exact (h.observed state).placed site

theorem wellFormed_ofEngine (handle : Handle) (id : Nat) (threadGroup : String)
    (state : StoppointState) (site : Site) :
    (ofEngine handle id threadGroup state site).WellFormed := by
  obtain ⟨native, kind⟩ := handle
  cases kind <;> constructor <;> simp [ofEngine]

theorem wellFormed_insertedStoppoint {handle : Handle} (hkind : handle.kind = .breakpoint)
    (i : Insertion) (id : Nat) (threadGroup : String) (state : StoppointState) (site : Site) :
    (Act.insertedStoppoint i handle id threadGroup state site).WellFormed := by
  constructor <;> simp [Act.insertedStoppoint, hkind]

theorem wellFormed_watchedStoppoint {handle : Handle} (hkind : handle.kind = .watchpoint)
    {w : Watch} (hw : w.read = true ∨ w.write = true) (id : Nat) (threadGroup : String)
    (state : StoppointState) :
    (Act.watchedStoppoint w handle id threadGroup state).WellFormed := by
  constructor <;> simp [Act.watchedStoppoint, hkind, hw]

end Stoppoint

/-! ## Sessions -/

namespace Session

variable {s t : Session}

/-- All records are well formed. -/
def WellFormed (s : Session) : Prop := ∀ id p, s.stoppoint? id = some p → p.WellFormed

/-- Where the records were well formed, they are so behind the change. -/
def Keeps (s : Session) (_ : Option Record) (t : Session) : Prop := s.WellFormed → t.WellFormed

theorem wellFormed_new (config : Config) : (new config).WellFormed := by
  simp [WellFormed, new, stoppoint?]

namespace WellFormed

theorem number {handle : Handle} {id : Nat} (hs : s.WellFormed)
    (h : s.number handle = .ok (id, t)) : t.WellFormed := by
  obtain ⟨m, -, rfl⟩ := number_cases h
  exact hs

theorem record {p : Stoppoint} (hs : s.WellFormed) (hp : p.WellFormed) :
    (s.record p).WellFormed := by
  intro id q hq
  rw [stoppoint?_record] at hq
  split at hq
  · cases hq
    exact hp
  · exact hs id q hq

theorem update {f : Stoppoint → Stoppoint} (hs : s.WellFormed)
    (hf : ∀ p, p.WellFormed → (f p).WellFormed) (id : Nat) : (s.update id f).2.WellFormed := by
  intro id' q hq
  obtain ⟨p, hp, rfl | rfl⟩ := stoppoint?_of_update hq
  · exact hs id' q hp
  · exact hf p (hs id' p hp)

theorem merge {fresh : Stoppoint} {f : Stoppoint → Stoppoint} (hs : s.WellFormed)
    (hfresh : fresh.WellFormed) (hf : ∀ p, p.WellFormed → (f p).WellFormed) :
    (s.merge fresh.id fresh f).2.WellFormed := by
  have hupdate := hs.update hf fresh.id
  unfold Session.merge
  unfold Session.update at hupdate ⊢
  cases hold : s.stoppoint? fresh.id with
  | none => exact hs.record hfresh
  | some old => simpa only [hold] using hupdate

/-- The fields that belong together stay as they are. -/
theorem update_apart {f : Stoppoint → Stoppoint} (hs : s.WellFormed) (id : Nat)
    (hf : ∀ p, (f p).handle = p.handle ∧ (f p).pending = p.pending ∧ (f p).site = p.site ∧
      (f p).watch = p.watch) : (s.update id f).2.WellFormed := by
  refine hs.update (fun p hp => ?_) id
  obtain ⟨hhandle, hpending, hsite, hwatch⟩ := hf p
  constructor
  case watch_iff => rw [hwatch, hhandle, hp.watch_iff]
  case pending =>
    rw [hpending, hhandle, hsite]
    exact hp.pending
  case access =>
    rw [hwatch]
    exact hp.access

theorem forget (hs : s.WellFormed) (handle : Handle) : (s.forget handle).2.WellFormed :=
  fun id p hp => hs id p (stoppoint?_of_forget hp).2

end WellFormed

/-- Notifications leave well-formed records only. -/
theorem NotificationStep.keeps {subject : Option Handle} {record : Option Record}
    (h : NotificationStep subject s record t) : s.Keeps record t := by
  intro hs
  cases h with
  | number hn => exact hs.number hn
  | @add handle _ id hid state site =>
      have hmerge := hs.merge
        (Stoppoint.wellFormed_ofEngine handle id s.threadGroup state site)
        fun p hp => hp.observed state
      rwa [Stoppoint.id_ofEngine] at hmerge
  | report hid state site => exact hs.update (fun p hp => hp.reported state site) _
  | hit hid count => exact hs.update_apart _ fun _ => ⟨rfl, rfl, rfl, rfl⟩
  | forget | deleted _ => exact hs.forget _
  | news hsupports => exact hs

end Session

/-! ## Creation -/

namespace Creation

/-- Whatever comes of the notifications that the creation delivers, a handle that
it ends with satisfies `P`. -/
def Ends (P : Handle → Prop) : Creation σ → Prop
  | finished (.ok handle) _ => P handle
  | finished (.error _) _ => True
  | deliver _ _ resume => ∀ outcome engine, (resume outcome engine).Ends P

end Creation

/-- What kind of stoppoint is to be created. -/
def Placement.kind : Placement → StoppointKind
  | breakpoint _ => .breakpoint
  | watchpoint .. => .watchpoint

/-- The engine creates stoppoints of the kind that it is asked for. -/
def Engine.Creates (σ : Type) [Engine σ] : Prop :=
  ∀ placement (engine : σ), (Engine.create placement engine).Ends (·.kind = placement.kind)

namespace Act

variable [Engine σ] [Sink τ] {a b : Adapter σ τ} {handle : Handle}

theorem ends_of_run {P : Handle → Prop} {creation : Creation σ} (hends : creation.Ends P)
    (h : create.run creation a = .ok (.ok handle) b) : P handle := by
  induction creation generalizing a with
  | finished result engine =>
      cases h
      exact hends
  | deliver notification engine resume ih =>
      obtain ⟨outcome, hattempt⟩ := attempt_eq_ok (Act.handle notification) { a with engine }
      rw [run_deliver hattempt] at h
      exact ih _ _ (hends _ _) h

theorem kind_of_create (hcreates : Engine.Creates σ) {placement : Placement}
    (h : create placement a = .ok (.ok handle) b) : handle.kind = placement.kind :=
  ends_of_run (hcreates placement a.engine) h

theorem kind_of_createBreakpoint (hcreates : Engine.Creates σ) {i : Insertion}
    (h : createBreakpoint i a = .ok handle b) : handle.kind = .breakpoint := by
  obtain ⟨result, c, hcreate, h⟩ := bind_eq_ok.mp h
  cases result with
  | error cause => cases h
  | ok created =>
      cases h
      exact kind_of_create hcreates hcreate

theorem kind_of_createWatchpoint (hcreates : Engine.Creates σ) {w : Watch}
    (h : createWatchpoint w a = .ok handle b) : handle.kind = .watchpoint := by
  obtain ⟨target, c, -, h⟩ := bind_eq_ok.mp h
  cases target with
  | error cause => cases h
  | ok target =>
      obtain ⟨result, d, hcreate, h⟩ := bind_eq_ok.mp h
      cases result with
      | error cause => cases h
      | ok created =>
          cases h
          exact kind_of_create hcreates hcreate

/-! ## Commands -/

theorem keeps_insert (hcreates : Engine.Creates σ) (i : Insertion) :
    Walks Session.Keeps Engine.Any (insert i : Act σ τ Results) := by
  intro a
  refine moves_bind (walks_createBreakpoint (fun _ _ _ _ h => h.keeps) i a) fun handle b hb => ?_
  have hkind := kind_of_createBreakpoint hcreates hb
  have hadopt : Walks Session.Keeps Engine.Any (adopt i handle : Act σ τ Stoppoint) :=
    walks_adopt (fun hn hs => hs.number hn) fun s id state site _ hs =>
      hs.record (Stoppoint.wellFormed_insertedStoppoint hkind i id s.threadGroup state site)
  exact (hadopt.bind fun _ => walks_pure _) b

theorem keeps_watch (hcreates : Engine.Creates σ) {w : Watch}
    (hw : w.read = true ∨ w.write = true) :
    Walks Session.Keeps Engine.Any (watch w : Act σ τ Results) := by
  intro a
  refine moves_bind (walks_createWatchpoint (fun _ _ _ _ h => h.keeps) w a) fun handle b hb => ?_
  have hkind := kind_of_createWatchpoint hcreates hb
  have henroll : Walks Session.Keeps Engine.Any
      (enroll handle (watchedStoppoint w handle) : Act σ τ Stoppoint) :=
    walks_enroll (fun hn hs => hs.number hn) fun s id state _ hs =>
      hs.record (Stoppoint.wellFormed_watchedStoppoint hkind hw id s.threadGroup state)
  exact (henroll.bind fun _ => walks_pure _) b

/-- A command to watch an expression says for which access. -/
theorem access_of_command {verb : Verb} {values : Argument.Values verb.arguments}
    {rest : List String} {w : Watch} (h : verb.command values rest = .ok (.watch w)) :
    w.read = true ∨ w.write = true := by
  obtain rfl : Verb.breakWatch = verb := Verb.verb_of_command h
  obtain ⟨access, read, expression, ⟨⟩⟩ := values
  cases h
  cases read <;> simp

theorem keeps_perform (hcreates : Engine.Creates σ) {command : Command}
    (haccess : ∀ w, command = .watch w → w.read = true ∨ w.write = true) :
    Walks Session.Keeps Engine.Any (perform command : Act σ τ Results) := by
  cases command with
  | insert i => exact keeps_insert hcreates i
  | delete numbers => exact walks_deleteAll (fun handle hs => hs.forget handle) numbers
  | enable enabled numbers =>
      exact walks_enableAll (fun id hs => hs.update_apart id fun _ => ⟨rfl, rfl, rfl, rfl⟩) numbers
  | ignoreHits number count =>
      exact walks_ignoreHits (fun id hs => hs.update_apart id fun _ => ⟨rfl, rfl, rfl, rfl⟩) number
  | setCondition number condition =>
      exact walks_setCondition (fun id hs => hs.update_apart id fun _ => ⟨rfl, rfl, rfl, rfl⟩)
        number
  | watch w => exact keeps_watch hcreates (haccess w rfl)
  | _ =>
      -- The commands on objects leave the records alone.
      refine (walks_perform_of_not_onStoppoints rfl).mono (fun s r t hst hs => ?_)
        fun _ _ _ => trivial
      cases hst <;> exact hs

theorem keeps_runVerb (hcreates : Engine.Creates σ) (verb : Verb) (arguments : String) :
    Walks Session.Keeps Engine.Any
      (runVerb verb arguments : Act σ τ (ResultClass × Results)) := by
  intro a
  refine moves_bind (walks_readCommand verb arguments a) fun command b hread => ?_
  obtain ⟨values, rest, hcommand⟩ := readCommand_eq_ok hread
  have hperform : Walks Session.Keeps Engine.Any (perform command : Act σ τ Results) :=
    keeps_perform hcreates fun w hw => access_of_command (hw ▸ hcommand)
  exact (hperform.bind fun _ => walks_pure _) b

theorem keeps_handleLine (hcreates : Engine.Creates σ) (register : Register) (text : String) :
    Walks Session.Keeps Engine.Any
      (handleLine register text : Act σ τ (Option ResultRecord)) := by
  refine (walks_answerLine (keeps_runVerb hcreates) register text).bind fun answer => ?_
  cases answer with
  | none => exact walks_pure _
  | some record => exact (walks_emit fun _ hs => hs).bind fun _ => walks_pure _

/-! ## Runs -/

theorem keeps_respond (hcreates : Engine.Creates σ) (register : Register)
    (stimulus : Stimulus σ) :
    Walks Session.Keeps Engine.Any (respond register stimulus : Act σ τ Unit) := by
  cases stimulus with
  | line text => exact (keeps_handleLine hcreates register text).bind fun _ => walks_pure _
  | notification n =>
      exact (walks_handle n).mono (fun _ _ _ h => h.keeps) fun _ _ _ => trivial
  | engine state => exact fun _ => .single (.engine trivial)

end Act

theorem Adapter.Moves.wellFormed [Sink τ] {a b : Adapter σ τ} {E : σ → σ → Prop}
    (h : Adapter.Moves Session.Keeps E a b) (ha : a.session.WellFormed) : b.session.WellFormed :=
  h.session_invariant (fun _ _ hs hst => hst hs) ha

/-- In the course of a creation the records stay well formed, too. -/
theorem Act.wellFormed_of_mem_moments [Engine σ] [Sink τ] {register : Register}
    {stimulus : Stimulus σ} {a m : Adapter σ τ} (hm : m ∈ moments register stimulus a)
    (ha : a.session.WellFormed) : m.session.WellFormed := by
  cases stimulus with
  | line text =>
      simp only [moments] at hm
      split at hm
      · next creation b hcreation =>
        have hb := (moves_up_to_creationAt (S := Session.Keeps) hcreation).wellFormed ha
        have hmoves := moves_of_mem_behindDeliveries (S := Session.Keeps)
          (fun _ _ _ _ h => h.keeps) hm
        exact hmoves.1.wellFormed hb
      · cases hm
  | notification _ | engine _ => cases hm

namespace Adapter

variable [Engine σ] [Sink τ]

theorem wellFormed_run (hcreates : Engine.Creates σ) (register : Register) {a : Adapter σ τ}
    (ha : a.session.WellFormed) (stimuli : List (Stimulus σ)) :
    (a.run register stimuli).session.WellFormed := by
  induction stimuli generalizing a with
  | nil => exact ha
  | cons stimulus stimuli ih =>
      exact ih ((Act.keeps_respond hcreates register stimulus a).wellFormed ha)

/-- **Records are well formed**: with an engine that creates stoppoints of the
kind that it is asked for, behind every run, and at every moment in the course of
the response to one more stimulus, a record has an expression to watch exactly if
it is that of a watchpoint, waits for its place only if it is that of a breakpoint
without places, and never watches for no access at all. -/
theorem wellFormed_of_run (hcreates : Engine.Creates σ) (config : Config) (engine : σ) (sink : τ)
    (register : Register) (stimuli : List (Stimulus σ)) (stimulus : Stimulus σ) :
    let a := (Adapter.new config engine sink).run register stimuli
    ∀ m ∈ a :: (Act.respond register stimulus).after a :: Act.moments register stimulus a,
      ∀ id p, m.session.stoppoint? id = some p → p.WellFormed := by
  intro a m hm
  have ha : a.session.WellFormed :=
    wellFormed_run hcreates register (Session.wellFormed_new config) stimuli
  simp only [List.mem_cons] at hm
  obtain rfl | rfl | hm := hm
  · exact ha
  · exact (Act.keeps_respond hcreates register stimulus a).wellFormed ha
  · exact Act.wellFormed_of_mem_moments hm ha

end Adapter

/-- Every table creates what it is asked for. -/
theorem Table.creates : Engine.Creates Table := by
  intro placement t
  cases placement <;> rfl

/-- Record 2 of a table is that of a watchpoint, which is triggered by reading. -/
theorem Table.wellFormed_of_run_table :
    let a := (Adapter.new {} ({} : Table) Discard.discard).run .standard
      [.line "break-insert main"]
    let b := (Act.respond .standard (.line "break-watch -r x")).after a
    ∃ p, b.session.stoppoint? 2 = some p ∧ p.handle.kind = .watchpoint ∧ p.pending = false ∧
      p.watch = some ⟨"x", true, false⟩ := by
  intro a b
  have hwellFormed := Adapter.wellFormed_of_run Table.creates {} {} Discard.discard .standard
    [.line "break-insert main"] (.line "break-watch -r x") b (by simp [b, a])
  have hwatch : (b.session.stoppoint? 2).map Stoppoint.watch = some (some ⟨"x", true, false⟩) := by
    decide +kernel
  obtain ⟨p, hp, hwatch⟩ := Option.map_eq_some_iff.mp hwatch
  have h := hwellFormed 2 p hp
  have hkind : p.handle.kind = .watchpoint := h.watch_iff.mp (by rw [hwatch]; rfl)
  have hpending : p.pending = false := by
    rw [← Bool.not_eq_true]
    intro hpending
    rw [(h.pending hpending).1] at hkind
    cases hkind
  exact ⟨p, hp, hkind, hpending, hwatch⟩

end MachineInterface
