import MachineInterface.Engine.Table
import MachineInterface.Proofs.Announcements

/-!
# MachineInterface.Proofs.Insertions

What a successful insertion leaves: one record for the stoppoint that it has
created, with what the line asks for and as the engine has it
(`Adapter.Settled`).  A further announcement then changes nothing, so that it
makes no difference how often a stoppoint is announced, while the command still
runs or behind it (`insertion_announced`).
-/

namespace MachineInterface

variable {σ τ V : Type}

/-! ## What an insertion leaves -/

/-- The stoppoint is recorded under the number of its handle, as the engine has
it. -/
structure Adapter.Settled [Engine σ] (handle : Handle) (p : Stoppoint) (a : Adapter σ τ) :
    Prop where
  handle_eq : p.handle = handle
  id?_eq : a.session.id? handle = some p.id
  stoppoint?_eq : a.session.stoppoint? p.id = some p
  observed_eq : ∃ state, (Engine.answer (.stoppointState handle) a.engine).1 = .ok state ∧
    p.observed state = p

/-- The stoppoint carries what an insertion asks for. -/
def Command.Carried (threadGroup : String) (p : Stoppoint) : Command → Prop
  | .insert i => p.condition = i.condition ∧ p.ignoreCount = i.ignoreCount ∧
    p.thread = i.thread ∧ p.oneShot = i.oneShot ∧ p.clientLocation = i.clientLocation ∧
    p.threadGroup = (i.threadGroup.map fun n => s!"i{n}").getD threadGroup ∧ p.watch = none
  | .watch w => p.condition = none ∧ p.ignoreCount = 0 ∧ p.thread = none ∧ p.oneShot = false ∧
    p.clientLocation = w.expression ∧ p.threadGroup = threadGroup ∧ p.watch = some w
  | _ => False

/-- The results with which an insertion reports its stoppoint. -/
def Command.report (p : Stoppoint) : Command → Results
  | .insert _ => [("bkpt", .tuple p.results)]
  | .watch w => [(w.resultName, .tuple p.watchResults)]
  | _ => []

namespace Adapter.Settled

variable [Engine σ] {view : σ → V} {handle : Handle} {p : Stoppoint} {a b : Adapter σ τ}

theorem congr (h : a.Settled handle p) (hsteady : Engine.Steady view)
    (hab : Act.Alike view (· = ·) a b) : b.Settled handle p := by
  obtain ⟨hview, hsession⟩ := hab
  constructor
  case handle_eq => exact h.handle_eq
  case id?_eq =>
    rw [← hsession]
    exact h.id?_eq
  case stoppoint?_eq =>
    rw [← hsession]
    exact h.stoppoint?_eq
  case observed_eq =>
    obtain ⟨state, hstate, hp⟩ := h.observed_eq
    have hanswer := hsteady.answer_eq (.stoppointState handle) trivial hview
    exact ⟨state, hanswer.symm.trans hstate, hp⟩

/-- An announcement of a stoppoint that is recorded as the engine has it changes
nothing. -/
theorem alike_announce [Sink τ] (h : a.Settled handle p) (hsteady : Engine.Steady view) :
    Act.Alike view (· = ·) a ((Act.announce handle).after a) := by
  obtain ⟨hview, hcases⟩ := Act.announce_cases hsteady handle a
  refine ⟨hview.symm, ?_⟩
  obtain heq | ⟨state, site, id, s, hstate, hnumber, heq⟩ := hcases
  · exact heq.symm
  · obtain ⟨state', hstate', hp⟩ := h.observed_eq
    rw [hstate] at hstate'
    obtain rfl := Except.ok.inj hstate'
    rw [Session.number_of_id? h.id?_eq] at hnumber
    obtain ⟨rfl, rfl⟩ := Prod.mk.inj (Except.ok.inj hnumber)
    rw [heq, Session.merge_of_stoppoint? h.stoppoint?_eq hp]

/-- Where records are kept under the numbers of their handles, a settled
stoppoint has no second record. -/
theorem stoppoint?_iff (h : a.Settled handle p) (hmapped : a.session.Mapped) (id : Nat)
    (q : Stoppoint) : a.session.stoppoint? id = some q ∧ q.handle = handle ↔ id = p.id ∧ q = p := by
  constructor
  · rintro ⟨hq, hhandle⟩
    have hid := hmapped id q hq
    rw [hhandle, h.id?_eq] at hid
    obtain rfl := Option.some.inj hid
    rw [h.stoppoint?_eq] at hq
    exact ⟨rfl, (Option.some.inj hq).symm⟩
  · rintro ⟨rfl, rfl⟩
    exact ⟨h.stoppoint?_eq, h.handle_eq⟩

theorem session_announces [Sink τ] (h : a.Settled handle p) (hsteady : Engine.Steady view)
    (times : Nat) : (((Act.announce handle).after)^[times] a).session = a.session := by
  induction times generalizing a with
  | zero => rfl
  | succ times ih =>
      have halike := h.alike_announce hsteady
      rw [Function.iterate_succ_apply, ih (h.congr hsteady halike)]
      exact halike.2.symm

end Adapter.Settled

namespace Act

variable [Engine σ] {view : σ → V} {a b : Adapter σ τ} {p : Stoppoint}

/-- Behind its enrolment a stoppoint is recorded as the engine has it. -/
theorem enroll_eq_ok (hsteady : Engine.Steady view) {handle : Handle}
    {stoppoint : Nat → String → StoppointState → Stoppoint}
    (h : enroll handle stoppoint a = .ok p b)
    (hid : ∀ id threadGroup state, (stoppoint id threadGroup state).id = id)
    (hhandle : ∀ id threadGroup state, (stoppoint id threadGroup state).handle = handle)
    (hobserved : ∀ id threadGroup state,
      (stoppoint id threadGroup state).observed state = stoppoint id threadGroup state) :
    b.Settled handle p ∧ ∃ id state, p = stoppoint id b.session.threadGroup state := by
  obtain ⟨id, c, hnumber, h⟩ := bind_eq_ok.mp h
  have hnumbered := id?_of_numberOrDiscard hnumber
  obtain ⟨answer, d, hask, h⟩ := bind_eq_ok.mp h
  rw [ask_apply] at hask
  cases hask
  obtain ⟨state, d, hdemand, h⟩ := bind_eq_ok.mp h
  cases hstate : (Engine.answer (.stoppointState handle) c.engine).1 with
  | error cause =>
      rw [hstate] at hdemand
      cases hdemand
  | ok state' =>
      rw [hstate] at hdemand
      cases hdemand
      cases h
      refine ⟨?_, id, state, rfl⟩
      constructor
      case handle_eq => exact hhandle _ _ _
      case id?_eq =>
        rw [hid]
        exact hnumbered
      case stoppoint?_eq => rw [Session.stoppoint?_record, if_pos rfl]
      case observed_eq =>
        have hview := hsteady.view_stoppointState handle c.engine
        have hanswer := hsteady.answer_eq (.stoppointState handle) trivial hview
        exact ⟨state, hanswer.trans hstate, hobserved _ _ _⟩

theorem adopt_eq_ok (hsteady : Engine.Steady view) {i : Insertion} {handle : Handle}
    (h : adopt i handle a = .ok p b) :
    b.Settled handle p ∧ ∃ id state site,
      p = insertedStoppoint i handle id b.session.threadGroup state site := by
  obtain ⟨answer, c, -, h⟩ := bind_eq_ok.mp h
  obtain ⟨site, d, -, h⟩ := bind_eq_ok.mp h
  by_cases hplace : (!i.pending && site.locations = 0) = true
  · rw [if_pos hplace] at h
    obtain ⟨_, e, -, h⟩ := bind_eq_ok.mp h
    cases h
  · rw [if_neg hplace] at h
    obtain ⟨_, e, -, h⟩ := bind_eq_ok.mp h
    obtain ⟨hsettled, id, state, hp⟩ :=
      enroll_eq_ok hsteady h (fun _ _ _ => rfl) (fun _ _ _ => rfl) fun _ _ _ => rfl
    exact ⟨hsettled, id, state, site, hp⟩

variable [Sink τ]

/-- An insertion that succeeds has recorded the stoppoint that it has created,
with what was asked for. -/
theorem perform_eq_ok (hsteady : Engine.Steady view) {command : Command}
    (hcommand : (∃ i, command = .insert i) ∨ ∃ w, command = .watch w) {results : Results}
    (h : perform command a = .ok results b) :
    ∃ handle c p, begin command a = .ok (some handle) c ∧ b.Settled handle p ∧
      command.Carried b.session.threadGroup p ∧ results = command.report p := by
  obtain ⟨i, rfl⟩ | ⟨w, rfl⟩ := hcommand
  · obtain ⟨handle, c, hcreate, h⟩ := bind_eq_ok.mp h
    obtain ⟨p, d, hadopt, h⟩ := bind_eq_ok.mp h
    cases h
    obtain ⟨hsettled, id, state, site, hp⟩ := adopt_eq_ok hsteady hadopt
    have hcarried : (Command.insert i).Carried b.session.threadGroup p := by
      rw [hp]
      exact ⟨rfl, rfl, rfl, rfl, rfl, rfl, rfl⟩
    exact ⟨handle, c, p, bind_of_ok hcreate _, hsettled, hcarried, rfl⟩
  · obtain ⟨handle, c, hcreate, h⟩ := bind_eq_ok.mp h
    obtain ⟨p, d, henroll, h⟩ := bind_eq_ok.mp h
    cases h
    obtain ⟨hsettled, id, state, hp⟩ :=
      enroll_eq_ok hsteady henroll (fun _ _ _ => rfl) (fun _ _ _ => rfl) fun _ _ _ => rfl
    have hcarried : (Command.watch w).Carried b.session.threadGroup p := by
      rw [hp]
      exact ⟨rfl, rfl, rfl, rfl, rfl, rfl, rfl⟩
    exact ⟨handle, c, p, bind_of_ok hcreate _, hsettled, hcarried, rfl⟩

/-! ## Insertions and announcements commute -/

/-- Answer a line at an engine that announces each new stoppoint so many times more. -/
def answerLineAnnounced (times : Nat) (register : Register) (text : String) :
    Act σ τ (Option ResultRecord) :=
  @answerLine σ τ (Engine.announcing times) _ register text

/-- Process a line at an engine that announces each new stoppoint so many times more. -/
def handleLineAnnounced (times : Nat) (register : Register) (text : String) :
    Act σ τ (Option ResultRecord) :=
  @handleLine σ τ (Engine.announcing times) _ register text

section Lines

variable {register : Register} {text : String} {line : Line} {verb : Verb}

/-- If an insertion succeeds at some engine, it is answered in the same way if the
engine announces the stoppoint more often, and the session is the same then and
behind further announcements. -/
theorem line_announced (hsteady : Engine.Steady view) (hline : Line.parse text = .ok (some line))
    (hverb : register.verb? line.verb = some verb) {command : Command} {c d : Adapter σ τ}
    {results : Results} {handle : Handle}
    (hread : readCommand verb line.arguments a = .ok command c)
    (hcommand : (∃ i, command = .insert i) ∨ ∃ w, command = .watch w)
    (hperform : perform command c = .ok results d) (hsettled : d.Settled handle p)
    (during later : Nat) :
    (∃ e, answerLineAnnounced during register text a =
      .ok (some ⟨line.token, command.resultClass, results⟩) e) ∧
    (((announce handle).after)^[later]
      ((handleLineAnnounced during register text).after a)).session = d.session := by
  obtain ⟨results', d', e, hquiet, hannouncing, halike⟩ | ⟨_, d', _, hquiet, -⟩ :=
    perform_announcing hsteady hcommand during c
  · rw [hperform] at hquiet
    cases hquiet
    have hrun : @runVerb σ τ (Engine.announcing during) _ verb line.arguments a =
        .ok (command.resultClass, results) e :=
      (bind_of_ok hread _).trans (bind_of_ok hannouncing _)
    have hanswer := @answerLine_of_ok σ τ (Engine.announcing during) _ _ _ _ _ _ _ hline hverb
      _ _ hrun
    have hafter := @after_handleLine σ τ (Engine.announcing during) _ _ _ _ _ _ hanswer
    change ((handleLineAnnounced during register text).after a).session = _ ∧ _ at hafter
    have hlater : Alike view (· = ·) d ((handleLineAnnounced during register text).after a) :=
      ⟨halike.1.trans (congrArg view hafter.2.symm), halike.2.trans hafter.1.symm⟩
    have hsession := (hsettled.congr hsteady hlater).session_announces hsteady later
    exact ⟨⟨e, hanswer⟩, hsession.trans hlater.2.symm⟩
  · rw [hperform] at hquiet
    cases hquiet

/-- **Insertions and announcements commute**: if the engine decides by what it
holds of its stoppoints and every record is kept under the number of its handle,
a successful insertion has one record for the stoppoint that it has created,
which carries what the line asks for; and however often the engine announces
the stoppoint, before the creation ends or behind the line, the answer and the
session are the same. -/
theorem insertion_announced (hsteady : Engine.Steady view) {record : ResultRecord} {times : Nat}
    (hline : Line.parse text = .ok (some line)) (hverb : register.verb? line.verb = some verb)
    (hinsertion : verb = .breakInsert ∨ verb = .breakWatch) (hmapped : a.session.Mapped)
    (h : handleLineAnnounced times register text a = .ok (some record) b)
    (hdone : record.resultClass = .done) :
    ∃ command handle c d p,
      readCommand verb line.arguments a = .ok command c ∧ begin command c = .ok (some handle) d ∧
      (∀ id q, b.session.stoppoint? id = some q ∧ q.handle = handle ↔ id = p.id ∧ q = p) ∧
      b.session.id? handle = some p.id ∧ command.Carried b.session.threadGroup p ∧
      record = ⟨line.token, .done, command.report p⟩ ∧
      ∀ during later,
        (∃ e, answerLineAnnounced during register text a = .ok (some record) e) ∧
        (((announce handle).after)^[later]
          ((handleLineAnnounced during register text).after a)).session = b.session := by
  have hmappedb : b.session.Mapped := by
    have hmoves := @walks_handleLine σ τ (Engine.announcing times) _ register text a
    change Adapter.Moves _ _ a ((handleLineAnnounced times register text).after a) at hmoves
    rw [after_of_ok h] at hmoves
    exact hmoves.session_invariant (fun s t hs hst => hs.change hst.change) hmapped
  obtain ⟨c₀, ⟨hsession, -⟩, hrun⟩ :=
    @handleLine_eq_ok σ τ (Engine.announcing times) _ _ _ _ _ _ _ _ hline hverb h
  obtain ⟨resultClass, results, hok, rfl⟩ | ⟨e, -, rfl⟩ := hrun
  · obtain ⟨command, c, hread, hrest⟩ := bind_eq_ok.mp hok
    obtain ⟨results', c₁, hannounced, hanswer⟩ := bind_eq_ok.mp hrest
    cases hanswer
    obtain ⟨values, rest, hvalues⟩ := readCommand_eq_ok hread
    have hcommand := Verb.command_of_insertion hinsertion hvalues
    obtain ⟨results', q, d, hperform, hperform', halike⟩ | ⟨_, _, _, -, hfail⟩ :=
      perform_announcing hsteady hcommand times c
    · rw [hannounced] at hperform'
      cases hperform'
      have hquiet : q.session = b.session := halike.2.trans hsession.symm
      obtain ⟨handle, d, p, hbegin, hsettled, hcarried, rfl⟩ :=
        perform_eq_ok hsteady hcommand hperform
      have hlines := line_announced hsteady hline hverb hread hcommand hperform hsettled
      rw [← hquiet] at hmappedb ⊢
      exact ⟨command, handle, c, d, p, hread, hbegin, hsettled.stoppoint?_iff hmappedb,
        hsettled.id?_eq, hcarried, congrArg (ResultRecord.mk line.token · _) hdone, hlines⟩
    · rw [hannounced] at hfail
      cases hfail
  · cases hdone

end Lines

end Act

/-! ## A table of stoppoints -/

namespace Table

/-- A table holds nothing but its stoppoints. -/
theorem steady : Engine.Steady (id : Table → Table) where
  answer_eq := by
    rintro request - e f rfl
    rfl
  view_eq := by
    rintro request - e f rfl
    rfl
  view_stoppointState _ _ := rfl
  view_site _ _ := rfl

/-- A new adapter at an empty table. -/
def adapter : Adapter Table Discard := .new {} {} .discard

/-- A temporary breakpoint with a condition. -/
def insertion : String := "7-break-insert -t -c \"x > 1\" -i 3 main"

theorem insertion_done : Act.answersWith (Act.handleLineAnnounced 1 .standard insertion) adapter
    (fun record _ => record.resultClass = .done) = true := by
  decide +kernel

/-- The table's breakpoint has one record however often it is announced. -/
theorem insertion_announced_table :
    ∃ record b handle p, ∃ command : Command,
      Act.handleLineAnnounced 1 .standard insertion adapter = .ok (some record) b ∧
      (∀ id q, b.session.stoppoint? id = some q ∧ q.handle = handle ↔ id = p.id ∧ q = p) ∧
      b.session.id? handle = some p.id ∧ command.Carried b.session.threadGroup p ∧
      record = ⟨some "7", .done, command.report p⟩ ∧
      ∀ during later,
        (∃ e, Act.answerLineAnnounced during .standard insertion adapter = .ok (some record) e) ∧
        (((Act.announce handle).after)^[later]
          ((Act.handleLineAnnounced during .standard insertion).after adapter)).session =
            b.session := by
  obtain ⟨record, b, h, hcheck⟩ := Act.exists_of_answersWith insertion_done
  have hline : Line.parse insertion =
      .ok (some ⟨some "7", "break-insert", "-t -c \"x > 1\" -i 3 main"⟩) := rfl
  have hverb : Register.standard.verb? "break-insert" = some .breakInsert := rfl
  obtain ⟨command, handle, c, d, p, -, -, hrecord, hid, hcarried, hanswer, hannounced⟩ :=
    Act.insertion_announced steady hline hverb (.inl rfl) (Session.consistent_new {}).mapped h
      (of_decide_eq_true hcheck)
  exact ⟨record, b, handle, p, command, h, hrecord, hid, hcarried, hanswer, hannounced⟩

end Table

end MachineInterface
