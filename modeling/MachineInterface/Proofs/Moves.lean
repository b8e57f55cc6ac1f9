import Mathlib.Logic.Relation
import MachineInterface.Adapter.Threads

/-!
# MachineInterface.Proofs.Moves

What the steps of an adapter do to it.  A step is made of moves: the engine
moves on, the session changes, the sink accepts the line of a record, refuses
one or is flushed, or only the journal or the view of the threads changes.
`Walks S E step` says that, however `step` ends, its moves take the session along
`S`, which also says what is written meanwhile, and the engine along `E`.  Each
operation of an adapter is walked through once; every invariant of sessions,
records or engines then follows from what single moves preserve
(`Moves.invariant`, `Moves.session_invariant`, `Moves.engine_invariant`), and so
does what a reliable sink is given (`Moves.prints`).

Where it matters how a step ends, there are judgements on its outcome: how it
fails (`FailsBy`), what it gives (`Gives`), where it leads from one adapter
(`Leads`), and that it changes nothing if it fails (`Atomic`).
-/

namespace MachineInterface

open Relation

variable {σ τ α β : Type}

/-! ## Moves -/

/-- One move of an adapter.  The session changes along `S`, perhaps while a
record is written, the engine changes along `E`, the sink refuses a line or is
flushed, or none of them changes.  A record is written when the sink accepts its
line. -/
inductive Adapter.Move [Sink τ] (S : Session → Option Record → Session → Prop)
    (E : σ → σ → Prop) : Adapter σ τ → Adapter σ τ → Prop
  | session {a : Adapter σ τ} {s : Session} (h : S a.session none s) :
    Move S E a { a with session := s }
  | record {a : Adapter σ τ} {s : Session} {record : Record} {sink : τ}
    (h : S a.session (some record) s)
    (hline : Sink.writeLine record.text a.output.sink = (.ok (), sink)) :
    Move S E a { a with
      session := s
      output := { a.output with sink, written := a.output.written.push record } }
  | prompt {a : Adapter σ τ} {sink : τ}
    (hline : Sink.writeLine Record.prompt.text a.output.sink = (.ok (), sink)) :
    Move S E a { a with
      output := { a.output with sink, written := a.output.written.push .prompt } }
  | refused {a : Adapter σ τ} {record : Record} {cause : String} {sink : τ}
    (hline : Sink.writeLine record.text a.output.sink = (.error cause, sink)) :
    Move S E a { a with output := { a.output with sink } }
  | flush {a : Adapter σ τ} :
    Move S E a { a with output := { a.output with sink := (Sink.flush a.output.sink).2 } }
  | engine {a : Adapter σ τ} {e : σ} (h : E a.engine e) : Move S E a { a with engine := e }
  | rest {a : Adapter σ τ} (threads : ThreadView) (journal : Journal) :
    Move S E a { a with threads, journal }

/-- Any number of moves. -/
abbrev Adapter.Moves [Sink τ] (S : Session → Option Record → Session → Prop) (E : σ → σ → Prop) :
    Adapter σ τ → Adapter σ τ → Prop :=
  ReflTransGen (Adapter.Move S E)

/-- The engine answers one request with `Q`. -/
def Engine.Asked [Engine σ] (Q : Request → Prop) (e f : σ) : Prop :=
  ∃ request, Q request ∧ f = (Engine.answer request e).2

theorem Engine.asked [Engine σ] {Q : Request → Prop} {request : Request} (h : Q request) (e : σ) :
    Engine.Asked Q e (Engine.answer request e).2 :=
  ⟨request, h, rfl⟩

/-- The session stays as it is, whatever is written. -/
def Session.Same (s : Session) (_ : Option Record) (t : Session) : Prop := t = s

/-- The records that an adapter has written so far. -/
def Adapter.written (a : Adapter σ τ) : List Record := a.output.written.toList

/-- The adapter has written these records since, and their lines are what its sink
was given. -/
structure Adapter.Prints [Sink τ] (a : Adapter σ τ) (records : List Record) (b : Adapter σ τ) :
    Prop where
  prompt : b.output.prompt = a.output.prompt
  written : b.written = a.written ++ records
  takes : Sink.Takes a.output.sink (records.map Record.text) b.output.sink

theorem Adapter.Prints.refl [Sink τ] (a : Adapter σ τ) : a.Prints [] a :=
  ⟨rfl, (List.append_nil _).symm, .nil _⟩

theorem Adapter.Prints.trans [Sink τ] {a b c : Adapter σ τ} {records more : List Record}
    (hb : a.Prints records b) (hc : b.Prints more c) : a.Prints (records ++ more) c where
  prompt := hc.prompt.trans hb.prompt
  written := by rw [hc.written, hb.written, List.append_assoc]
  takes := by
    rw [List.map_append]
    exact hb.takes.append hc.takes

/-- In one move a reliable sink is given the line of the record that is written, or
nothing. -/
theorem Adapter.Move.prints [Sink τ] [Sink.Reliable τ]
    {S : Session → Option Record → Session → Prop} {E : σ → σ → Prop} {a b : Adapter σ τ}
    (h : Adapter.Move S E a b) : ∃ records, a.Prints records b := by
  cases h with
  | record h hline => exact ⟨[_], rfl, by simp [written], .line hline (.nil _)⟩
  | prompt hline => exact ⟨[_], rfl, by simp [written], .line hline (.nil _)⟩
  | @refused record cause sink hline =>
      have hok := Sink.Reliable.writeLine_ok record.text a.output.sink
      rw [hline] at hok
      cases hok
  | flush => exact ⟨[], rfl, (List.append_nil _).symm, .flush (.nil _)⟩
  | session h => exact ⟨[], rfl, (List.append_nil _).symm, .nil _⟩
  | engine h => exact ⟨[], rfl, (List.append_nil _).symm, .nil _⟩
  | rest threads journal => exact ⟨[], rfl, (List.append_nil _).symm, .nil _⟩

namespace Adapter.Moves

variable [Sink τ] {S T : Session → Option Record → Session → Prop} {E F : σ → σ → Prop}
  {a b : Adapter σ τ}

/-- Moves may be described more loosely. -/
theorem mono (hS : ∀ s r t, S s r t → T s r t) (hE : ∀ e f, E e f → F e f)
    (h : Adapter.Moves S E a b) : Adapter.Moves T F a b := by
  refine ReflTransGen.mono (fun x y hxy => ?_) _ _ h
  cases hxy with
  | session h => exact .session (hS _ _ _ h)
  | record h hline => exact .record (hS _ _ _ h) hline
  | prompt hline => exact .prompt hline
  | refused hline => exact .refused hline
  | flush => exact .flush
  | engine h => exact .engine (hE _ _ h)
  | rest threads journal => exact .rest threads journal

/-- What single changes of a session preserve, together with the records that
are written meanwhile, holds behind all moves. -/
theorem invariant {I : Session → List Record → Prop}
    (hI : ∀ s r t written, I s written → S s r t → I t (written ++ r.toList))
    (hprompt : ∀ s written, I s written → I s (written ++ [.prompt]))
    (h : Adapter.Moves S E a b) (ha : I a.session a.written) : I b.session b.written := by
  induction h with
  | refl => exact ha
  | tail _ hlast ih =>
      cases hlast with
      | session h =>
          have hnext := hI _ none _ _ ih h
          rwa [Option.toList_none, List.append_nil] at hnext
      | record h hline =>
          rw [written, Array.toList_push]
          exact hI _ (some _) _ _ ih h
      | prompt hline =>
          rw [written, Array.toList_push]
          exact hprompt _ _ ih
      | refused hline => exact ih
      | flush => exact ih
      | engine h => exact ih
      | rest threads journal => exact ih

/-- What single changes of a session preserve holds behind all moves. -/
theorem session_invariant {I : Session → Prop} (hI : ∀ {r} s t, I s → S s r t → I t)
    (h : Adapter.Moves S E a b) (ha : I a.session) : I b.session :=
  h.invariant (I := fun s _ => I s) (fun s _ t _ => hI s t) (fun _ _ h => h) ha

/-- What single changes of an engine preserve holds behind all moves. -/
theorem engine_invariant {I : σ → Prop} (hI : ∀ e f, I e → E e f → I f)
    (h : Adapter.Moves S E a b) (ha : I a.engine) : I b.engine := by
  induction h with
  | refl => exact ha
  | tail _ hlast ih =>
      cases hlast with
      | engine h => exact hI _ _ ih h
      | session h => exact ih
      | record h hline => exact ih
      | prompt hline => exact ih
      | refused hline => exact ih
      | flush => exact ih
      | rest threads journal => exact ih

/-- Whatever a reliable sink is given, it is the lines of the records that are written,
in their order. -/
theorem prints [Sink.Reliable τ] (h : Adapter.Moves S E a b) : ∃ records, a.Prints records b := by
  induction h with
  | refl => exact ⟨[], .refl a⟩
  | tail _ hlast ih =>
      obtain ⟨records, hprints⟩ := ih
      obtain ⟨more, hmore⟩ := hlast.prints
      exact ⟨records ++ more, hprints.trans hmore⟩

end Adapter.Moves

namespace Act

/-! ## The adapter behind a step -/

/-- The adapter behind a step, whether the step succeeds or fails. -/
def after (step : Act σ τ α) (a : Adapter σ τ) : Adapter σ τ :=
  match step a with
  | .ok _ b => b
  | .error _ b => b

theorem after_of_ok {step : Act σ τ α} {a b : Adapter σ τ} {v : α} (h : step a = .ok v b) :
    step.after a = b := by
  simp only [after, h]

theorem after_of_error {step : Act σ τ α} {a b : Adapter σ τ} {e : Error}
    (h : step a = .error e b) : step.after a = b := by
  simp only [after, h]

/-- Behind a step that succeeds the sequence goes on. -/
theorem bind_of_ok {step : Act σ τ α} {a b : Adapter σ τ} {v : α} (h : step a = .ok v b)
    (next : α → Act σ τ β) : (step >>= next) a = next v b := by
  change EStateM.bind step next a = _
  simp only [EStateM.bind, h]

/-- Behind a step that fails the sequence has ended. -/
theorem bind_of_error {step : Act σ τ α} {a b : Adapter σ τ} {e : Error}
    (h : step a = .error e b) (next : α → Act σ τ β) : (step >>= next) a = .error e b := by
  change EStateM.bind step next a = _
  simp only [EStateM.bind, h]

/-- A sequence succeeds when both steps do. -/
theorem bind_eq_ok {step : Act σ τ α} {next : α → Act σ τ β} {a c : Adapter σ τ} {w : β} :
    (step >>= next) a = .ok w c ↔ ∃ v b, step a = .ok v b ∧ next v b = .ok w c := by
  cases h : step a with
  | ok v b => simp [bind_of_ok h, and_assoc]
  | error e b => simp [bind_of_error h]

/-- A sequence fails when its first step does, or else its second. -/
theorem bind_eq_error {step : Act σ τ α} {next : α → Act σ τ β} {a c : Adapter σ τ} {e : Error} :
    (step >>= next) a = .error e c ↔
      step a = .error e c ∨ ∃ v b, step a = .ok v b ∧ next v b = .error e c := by
  cases h : step a with
  | ok v b => simp [bind_of_ok h, and_assoc]
  | error e b => simp [bind_of_error h]

/-- What cannot fail adds no failure. -/
theorem bind_pure_eq_error {step : Act σ τ α} {f : α → β} {a b : Adapter σ τ} {e : Error} :
    (do return f (← step) : Act σ τ β) a = .error e b ↔ step a = .error e b := by
  cases h : step a with
  | ok v c => simp [bind_of_ok h, pure, EStateM.pure]
  | error e' c => simp [bind_of_error h]

theorem after_bind (step : Act σ τ α) (next : α → Act σ τ β) (a : Adapter σ τ) :
    (step >>= next).after a = match step a with
      | .ok v b => (next v).after b
      | .error _ b => b := by
  cases h : step a with
  | ok v b => simp only [after, bind_of_ok h]
  | error e b => simp only [after, bind_of_error h]

theorem after_bind_of_ok {step : Act σ τ α} {a b : Adapter σ τ} {v : α} (h : step a = .ok v b)
    (next : α → Act σ τ β) : (step >>= next).after a = (next v).after b := by
  rw [after_bind, h]

theorem after_bind_of_error {step : Act σ τ α} {a b : Adapter σ τ} {e : Error}
    (h : step a = .error e b) (next : α → Act σ τ β) : (step >>= next).after a = b := by
  rw [after_bind, h]

/-- What cannot fail changes nothing. -/
theorem after_bind_pure (step : Act σ τ α) (f : α → β) (a : Adapter σ τ) :
    (do return f (← step) : Act σ τ β).after a = step.after a := by
  rw [after_bind, after]
  cases step a with
  | ok v b => rfl
  | error e b => rfl

/-! ## Single steps -/

theorem ask_apply [Engine σ] (request : Request) (a : Adapter σ τ) :
    ask request a = .ok (Engine.answer request a.engine).1
      { a with engine := (Engine.answer request a.engine).2 } :=
  rfl

theorem demand_ok (v : α) (a : Adapter σ τ) : demand (.ok v) a = .ok v a := rfl

theorem session_apply (a : Adapter σ τ) : session a = .ok a.session a := rfl

theorem threadView_apply (a : Adapter σ τ) : threadView a = .ok a.threads a := rfl

theorem modifyThreadView_apply (f : ThreadView → ThreadView) (a : Adapter σ τ) :
    modifyThreadView f a = .ok () { a with threads := f a.threads } :=
  rfl

theorem inSession_apply (f : Session → α × Session) (a : Adapter σ τ) :
    inSession f a = .ok (f a.session).1 { a with session := (f a.session).2 } :=
  rfl

/-- An attempt succeeds and leads where its step leads. -/
theorem attempt_eq_ok (step : Act σ τ α) (a : Adapter σ τ) :
    ∃ outcome, step.attempt a = .ok outcome (step.after a) := by
  unfold attempt after
  cases step a with
  | ok v b => exact ⟨_, rfl⟩
  | error e b => exact ⟨_, rfl⟩

theorem after_attempt (step : Act σ τ α) (a : Adapter σ τ) :
    step.attempt.after a = step.after a := by
  obtain ⟨outcome, h⟩ := attempt_eq_ok step a
  exact after_of_ok h

/-- What an attempt gives as a success is what its step gives. -/
theorem ok_of_attempt {step : Act σ τ α} {a b : Adapter σ τ} {v : α}
    (h : step.attempt a = .ok (.ok v) b) : step a = .ok v b := by
  unfold attempt at h
  split at h
  · next hstep => cases h; exact hstep
  · cases h

/-- What is passed over is told of in the journal. -/
theorem orMute_apply (r : Except Error α) (a : Adapter σ τ) :
    ∃ journal, orMute r a = .ok r.toOption { a with journal } := by
  cases r with
  | ok v => exact ⟨a.journal, rfl⟩
  | error e => exact ⟨_, rfl⟩

theorem ofExcept_of_ok {r : Except Error α} {v : α} (h : r = .ok v) (a : Adapter σ τ) :
    ofExcept r a = .ok v a := by
  rw [h]
  rfl

/-- A result that is gone on with is a success. -/
theorem ofExcept_eq_ok {r : Except Error α} {a b : Adapter σ τ} {v : α}
    (h : ofExcept r a = .ok v b) : r = .ok v ∧ b = a := by
  cases r with
  | error e => cases h
  | ok w =>
      cases h
      exact ⟨rfl, rfl⟩

/-- An answer that is gone on with is no refusal. -/
theorem demand_eq_ok {r : Except EngineError α} {a b : Adapter σ τ} {v : α}
    (h : demand r a = .ok v b) : r = .ok v ∧ b = a := by
  cases r with
  | error cause => cases h
  | ok w =>
      cases h
      exact ⟨rfl, rfl⟩

theorem session_of_ask [Engine σ] {request : Request} {a b : Adapter σ τ}
    {answer : request.Answer} (h : ask request a = .ok answer b) : b.session = a.session := by
  cases h
  rfl

theorem session_of_demand {r : Except EngineError α} {a b : Adapter σ τ} {v : α}
    (h : demand r a = .ok v b) : b.session = a.session := by
  rw [(demand_eq_ok h).2]

theorem session_of_orWarn {topic : String} {r : Except EngineError α} {a b : Adapter σ τ}
    {v : Option α} (h : orWarn topic r a = .ok v b) : b.session = a.session := by
  cases r <;> cases h <;> rfl

/-! ## Walks -/

/-- However the step ends, its moves change the session along `S` and the
engine along `E`. -/
def Walks [Sink τ] (S : Session → Option Record → Session → Prop) (E : σ → σ → Prop)
    (step : Act σ τ α) : Prop :=
  ∀ a, Adapter.Moves S E a (step.after a)

section Rules

variable [Sink τ] {S T : Session → Option Record → Session → Prop} {E F : σ → σ → Prop}

theorem Walks.mono {step : Act σ τ α} (h : Walks S E step) (hS : ∀ s r t, S s r t → T s r t)
    (hE : ∀ e f, E e f → F e f) : Walks T F step :=
  fun a => (h a).mono hS hE

/-- A step whose moves leave the session alone ends with the same session. -/
theorem Walks.session_eq {step : Act σ τ α} (h : Walks Session.Same E step) (a : Adapter σ τ) :
    (step.after a).session = a.session :=
  (h a).session_invariant (I := (· = a.session)) (fun _ _ hs ht => Eq.trans ht hs) rfl

/-- A step whose moves leave the session alone succeeds with the same session. -/
theorem Walks.session_of_ok {step : Act σ τ α} (h : Walks Session.Same E step)
    {a b : Adapter σ τ} {v : α} (hok : step a = .ok v b) : b.session = a.session := by
  rw [← after_of_ok hok]
  exact h.session_eq a

/-- A step whose moves change nothing but output, journal and threads. -/
theorem Walks.same {step : Act σ τ α} (h : Walks Session.Same (fun _ _ => False) step)
    (a : Adapter σ τ) :
    (step.after a).session = a.session ∧ (step.after a).engine = a.engine :=
  ⟨h.session_eq a,
    (h a).engine_invariant (I := (· = a.engine)) (fun _ _ _ hno => hno.elim) rfl⟩

/-- A sequence walks from `a` if its first step does and its second one walks
from where the first one leads. -/
theorem moves_bind {step : Act σ τ α} {next : α → Act σ τ β} {a : Adapter σ τ}
    (hstep : Adapter.Moves S E a (step.after a))
    (hnext : ∀ v b, step a = .ok v b → Adapter.Moves S E b ((next v).after b)) :
    Adapter.Moves S E a ((step >>= next).after a) := by
  cases h : step a with
  | error e b =>
      rw [after_bind_of_error h]
      rwa [after_of_error h] at hstep
  | ok v b =>
      rw [after_bind_of_ok h]
      rw [after_of_ok h] at hstep
      exact hstep.trans (hnext v b h)

/-- Moves that end behind the first step of a sequence go on behind its second one. -/
theorem moves_append {step : Act σ τ α} {next : α → Act σ τ β} {a m : Adapter σ τ}
    (hstep : Adapter.Moves S E m (step.after a)) (hnext : ∀ v, Walks S E (next v)) :
    Adapter.Moves S E m ((step >>= next).after a) := by
  cases h : step a with
  | error e b => rwa [after_bind_of_error h, ← after_of_error h]
  | ok v b =>
      rw [after_bind_of_ok h]
      rw [after_of_ok h] at hstep
      exact hstep.trans (hnext v b)

theorem Walks.bind {step : Act σ τ α} {next : α → Act σ τ β} (hstep : Walks S E step)
    (hnext : ∀ v, Walks S E (next v)) : Walks S E (step >>= next) :=
  fun a => moves_bind (hstep a) fun v b _ => hnext v b

theorem walks_pure (v : α) : Walks S E (pure v : Act σ τ α) := fun _ => .refl

theorem walks_throw (e : Error) : Walks S E (throw e : Act σ τ α) := fun _ => .refl

theorem walks_demand (r : Except EngineError α) : Walks S E (demand r : Act σ τ α) := by
  cases r with
  | ok v => exact walks_pure v
  | error cause => exact walks_throw _

theorem walks_ofExcept (r : Except Error α) : Walks S E (ofExcept r : Act σ τ α) := by
  cases r with
  | ok v => exact walks_pure v
  | error e => exact walks_throw e

theorem walks_session : Walks S E (session : Act σ τ Session) := fun _ => .refl

theorem walks_threadView : Walks S E (threadView : Act σ τ ThreadView) := fun _ => .refl

theorem walks_modifyThreadView (f : ThreadView → ThreadView) :
    Walks S E (modifyThreadView f : Act σ τ Unit) :=
  fun a => .single (.rest (f a.threads) a.journal)

theorem walks_say (level : Level) (text : String) : Walks S E (say level text : Act σ τ Unit) :=
  fun a => .single (.rest a.threads (a.journal.say level text))

theorem walks_report (level : Level) (text : String) :
    Walks S E (report level text : Act σ τ Unit) :=
  fun a => .single (.rest a.threads (a.journal.report level text))

theorem walks_inSession {f : Session → α × Session} (h : ∀ s, S s none (f s).2) :
    Walks S E (inSession f : Act σ τ α) :=
  fun a => .single (.session (h a.session))

theorem walks_modifySession {f : Session → Session} (h : ∀ s, S s none (f s)) :
    Walks S E (modifySession f : Act σ τ Unit) :=
  fun a => .single (.session (h a.session))

theorem walks_ask [Engine σ] {Q : Request → Prop} (request : Request) (h : Q request) :
    Walks S (Engine.Asked Q) (ask request : Act σ τ request.Answer) :=
  fun a => .single (.engine (Engine.asked h a.engine))

/-- The engine is asked, and what it refuses is a failure. -/
theorem walks_demandAsk [Engine σ] {request : Request}
    {f : request.Answer → Except EngineError α} {next : α → Act σ τ β}
    (hE : ∀ e, E e (Engine.answer request e).2) (h : ∀ v, Walks S E (next v)) :
    Walks S E (do next (← demand (f (← ask request)))) := by
  refine Walks.bind (fun a => .single (.engine (hE a.engine))) fun answer => ?_
  exact (walks_demand (f answer)).bind h

theorem emit_apply (record : Record) (a : Adapter σ τ) :
    emit record a = match a.output.write record with
      | (.ok (), output) =>
        .ok () { a with output, journal := a.journal.say .debug ("-> " ++ record.text) }
      | (.error text, output) =>
        .error (.io text)
          { a with output, journal := a.journal.say .debug ("-> " ++ record.text) } :=
  rfl

theorem after_emit (record : Record) (a : Adapter σ τ) :
    (emit record).after a = { a with
      output := (a.output.write record).2
      journal := a.journal.say .debug ("-> " ++ record.text) } := by
  simp only [after, emit_apply]
  rcases a.output.write record with ⟨_ | _, output⟩ <;> rfl

/-- A change of the session that comes before a record belongs to one move with
it, if the sink accepts the record. -/
theorem moves_emit {record : Record} {a : Adapter σ τ} {s : Session}
    (hsilent : Adapter.Moves S E { a with session := s } a) (htold : S s (some record) a.session) :
    Adapter.Moves S E { a with session := s } ((emit record).after a) := by
  suffices h : Adapter.Moves S E { a with session := s }
      { a with output := (a.output.write record).2 } by
    rw [after_emit]
    exact h.tail (.rest a.threads _)
  rcases hline : Sink.writeLine record.text a.output.sink with ⟨cause | _, sink⟩
  · have hwrite : (a.output.write record).2 = { a.output with sink } := by
      cases hdue : record.isPrompted && a.output.prompt <;>
        simp [Output.write, Output.recordsOf, Output.writeAll, hdue, hline]
    rw [hwrite]
    exact hsilent.tail (.refused hline)
  · have hrecord : Adapter.Moves S E { a with session := s } { a with
        output := { a.output with sink, written := a.output.written.push record } } :=
      .single (.record htold hline)
    cases hdue : record.isPrompted && a.output.prompt with
    | false =>
        have hflush := hrecord.tail .flush
        simpa [Output.write, Output.recordsOf, Output.writeAll, hdue, hline] using hflush
    | true =>
        rcases hprompt : Sink.writeLine Record.prompt.text sink with ⟨cause | _, sink'⟩
        · have hrefused := hrecord.tail (.refused hprompt)
          simpa [Output.write, Output.recordsOf, Output.writeAll, hdue, hline, hprompt] using
            hrefused
        · have hflush := (hrecord.tail (.prompt hprompt)).tail .flush
          simpa [Output.write, Output.recordsOf, Output.writeAll, hdue, hline, hprompt] using
            hflush

theorem walks_emit {record : Record} (h : ∀ s, S s (some record) s) :
    Walks S E (emit record : Act σ τ Unit) :=
  fun a => moves_emit .refl (h a.session)

theorem walks_notify {kind : AsyncKind} {results : Results}
    (h : ∀ s, S s (some (.async ⟨kind, results⟩)) s) :
    Walks S E (notify kind results : Act σ τ Unit) :=
  walks_emit h

theorem Walks.attempt {step : Act σ τ α} (h : Walks S E step) : Walks S E step.attempt := by
  intro a
  rw [after_attempt]
  exact h a

theorem walks_orWarn (topic : String) (r : Except EngineError α) :
    Walks S E (orWarn topic r : Act σ τ (Option α)) := by
  cases r with
  | ok v => exact walks_pure _
  | error cause => exact (walks_report _ _).bind fun _ => walks_pure _

theorem walks_orMute (r : Except Error α) : Walks S E (orMute r : Act σ τ (Option α)) := by
  cases r with
  | ok v => exact walks_pure _
  | error e => exact (walks_report _ _).bind fun _ => walks_pure _

theorem walks_forM {f : α → Act σ τ PUnit} (h : ∀ x, Walks S E (f x)) (xs : List α) :
    Walks S E (xs.forM f) := by
  induction xs with
  | nil => exact walks_pure _
  | cons x xs ih =>
      change Walks S E (f x >>= fun _ => xs.forM f)
      exact (h x).bind fun _ => ih

end Rules

/-! ## Outcomes -/

/-- Whenever the step fails, it fails with an error of `P`. -/
def FailsBy (P : Error → Prop) (step : Act σ τ α) : Prop :=
  ∀ a e b, step a = .error e b → P e

section FailsBy

variable {P : Error → Prop}

/-- A step that never fails fails by nothing. -/
theorem failsBy_of_ok {step : Act σ τ α} (h : ∀ a, ∃ v b, step a = .ok v b) :
    FailsBy P step := by
  intro a e b herror
  obtain ⟨v, c, hok⟩ := h a
  rw [hok] at herror
  cases herror

theorem failsBy_throw {e : Error} (h : P e) : FailsBy P (throw e : Act σ τ α) := by
  rintro a _ _ ⟨⟩
  exact h

theorem failsBy_demand (h : ∀ cause, P (.engine cause)) (r : Except EngineError α) :
    FailsBy P (demand r : Act σ τ α) := by
  cases r with
  | ok v => exact failsBy_of_ok fun _ => ⟨_, _, rfl⟩
  | error cause => exact failsBy_throw (h cause)

theorem FailsBy.bind {step : Act σ τ α} {next : α → Act σ τ β} (hstep : FailsBy P step)
    (hnext : ∀ v, FailsBy P (next v)) : FailsBy P (step >>= next) := by
  intro a e c herror
  obtain herror | ⟨v, b, -, herror⟩ := bind_eq_error.mp herror
  · exact hstep a e c herror
  · exact hnext v b e c herror

/-- Behind a step that cannot fail, failures are those of the next one. -/
theorem failsBy_bind_of_ok {step : Act σ τ α} {next : α → Act σ τ β}
    (hstep : ∀ a, ∃ v b, step a = .ok v b) (hnext : ∀ v, FailsBy P (next v)) :
    FailsBy P (step >>= next) :=
  (failsBy_of_ok hstep).bind hnext

theorem FailsBy.bind_pure {step : Act σ τ α} (h : FailsBy P step) (f : α → β) :
    FailsBy P (do return f (← step)) :=
  fun a e b herror => h a e b (bind_pure_eq_error.mp herror)

theorem failsBy_attempt (step : Act σ τ α) : FailsBy P step.attempt := by
  refine failsBy_of_ok fun a => ?_
  obtain ⟨outcome, h⟩ := attempt_eq_ok step a
  exact ⟨outcome, _, h⟩

theorem failsBy_orMute (r : Except Error α) : FailsBy P (orMute r : Act σ τ (Option α)) := by
  cases r <;> exact failsBy_of_ok fun _ => ⟨_, _, rfl⟩

theorem failsBy_forM {f : α → Act σ τ PUnit} (h : ∀ x, FailsBy P (f x)) (xs : List α) :
    FailsBy P (xs.forM f) := by
  induction xs with
  | nil => exact failsBy_of_ok fun _ => ⟨_, _, rfl⟩
  | cons x xs ih =>
      change FailsBy P (f x >>= fun _ => xs.forM f)
      exact (h x).bind fun _ => ih

/-- The engine is asked, and what it refuses is a failure. -/
theorem failsBy_demandAsk [Engine σ] (hP : ∀ cause, P (.engine cause)) {request : Request}
    {f : request.Answer → Except EngineError α} {next : α → Act σ τ β}
    (h : ∀ v, FailsBy P (next v)) : FailsBy P (do next (← demand (f (← ask request)))) :=
  failsBy_bind_of_ok (fun _ => ⟨_, _, rfl⟩) fun answer => (failsBy_demand hP (f answer)).bind h

end FailsBy

/-- Whenever the step succeeds, what it gives and the session behind it are in
`P`. -/
def Gives (P : Session → α → Prop) (step : Act σ τ α) : Prop :=
  ∀ a v b, step a = .ok v b → P b.session v

theorem gives_pure {P : Session → α → Prop} {v : α} (h : ∀ s, P s v) :
    Gives P (pure v : Act σ τ α) := by
  rintro a _ _ ⟨⟩
  exact h a.session

theorem gives_throw {P : Session → α → Prop} (e : Error) : Gives P (throw e : Act σ τ α) := by
  intro a v b h
  cases h

/-- What a sequence gives is what its last step gives. -/
theorem gives_bind {P : Session → β → Prop} {step : Act σ τ α} {next : α → Act σ τ β}
    (h : ∀ v, Gives P (next v)) : Gives P (step >>= next) := by
  intro a w c hok
  obtain ⟨v, b, -, hnext⟩ := bind_eq_ok.mp hok
  exact h v b w c hnext

theorem Gives.bind_pure {P : Session → α → Prop} {Q : Session → β → Prop} {step : Act σ τ α}
    {f : α → β} (h : Gives P step) (hf : ∀ s v, P s v → Q s (f v)) :
    Gives Q (do return f (← step) : Act σ τ β) := by
  intro a w c hok
  obtain ⟨v, b, hstep, hpure⟩ := bind_eq_ok.mp hok
  cases hpure
  exact hf _ v (h a v _ hstep)

/-- The step leads to `Q` if it succeeds and to `R` if it fails. -/
def Leads (step : Act σ τ α) (a : Adapter σ τ) (Q : α → Adapter σ τ → Prop)
    (R : Adapter σ τ → Prop) : Prop :=
  match step a with
  | .ok v b => Q v b
  | .error _ b => R b

section Leads

variable {step : Act σ τ α} {next : α → Act σ τ β} {a b : Adapter σ τ}
  {P Q : α → Adapter σ τ → Prop} {R : Adapter σ τ → Prop} {I : Adapter σ τ → Prop}

theorem leads_of_ok {v : α} (h : step a = .ok v b) (hb : Q v b) : Leads step a Q R := by
  simpa only [Leads, h] using hb

theorem leads_pure {v : α} (h : Q v a) : Leads (pure v) a Q R := h

theorem leads_throw {e : Error} (h : R a) : Leads (throw e : Act σ τ α) a Q R := h

theorem leads_bind_of_ok {Q : β → Adapter σ τ → Prop} {v : α} (h : step a = .ok v b)
    (hnext : Leads (next v) b Q R) : Leads (step >>= next) a Q R := by
  rwa [Leads, bind_of_ok h]

theorem leads_bind_of_error {Q : β → Adapter σ τ → Prop} {e : Error} (h : step a = .error e b)
    (hb : R b) : Leads (step >>= next) a Q R := by
  rwa [Leads, bind_of_error h]

theorem Leads.of_ok {v : α} (h : Leads step a Q R) (hstep : step a = .ok v b) : Q v b := by
  rwa [Leads, hstep] at h

theorem Leads.of_error {e : Error} (h : Leads step a Q R) (hstep : step a = .error e b) : R b := by
  rwa [Leads, hstep] at h

theorem Leads.bind {Q : β → Adapter σ τ → Prop} (h : Leads step a P R)
    (hnext : ∀ v b, P v b → Leads (next v) b Q R) : Leads (step >>= next) a Q R := by
  cases hstep : step a with
  | ok v b => exact leads_bind_of_ok hstep (hnext v b (h.of_ok hstep))
  | error e b => exact leads_bind_of_error hstep (h.of_error hstep)

theorem Leads.mono {R' : Adapter σ τ → Prop} (h : Leads step a P R)
    (hPQ : ∀ v b, P v b → Q v b) (hR : ∀ b, R b → R' b) : Leads step a Q R' := by
  unfold Leads
  cases hstep : step a with
  | ok v b => exact hPQ v b (h.of_ok hstep)
  | error e b => exact hR b (h.of_error hstep)

theorem leads_iff_after : Leads step a (fun _ => I) I ↔ I (step.after a) := by
  unfold Leads after
  cases step a <;> rfl

/-- Steps that leave the session alone lead to the same session. -/
theorem leads_same {s : Session} (ha : a.session = s)
    (hstep : (step.after a).session = a.session) :
    Leads step a (fun _ b => b.session = s) (fun b => b.session = s) :=
  leads_iff_after (I := fun b => b.session = s).mpr (hstep.trans ha)

theorem Leads.attempt (h : Leads step a (fun _ => I) I) :
    Leads step.attempt a (fun _ => I) I := by
  rw [leads_iff_after] at h ⊢
  rwa [after_attempt]

/-- What each step keeps holds at the end, or `R` where one of them fails. -/
theorem leads_forM {f : α → Act σ τ PUnit} {xs : List α}
    (h : ∀ x ∈ xs, ∀ a, I a → Leads (f x) a (fun _ => I) R) (ha : I a) :
    Leads (xs.forM f) a (fun _ => I) R := by
  induction xs generalizing a with
  | nil => exact leads_pure ha
  | cons x xs ih =>
      change Leads (f x >>= fun _ => xs.forM f) a _ _
      exact (h x List.mem_cons_self a ha).bind fun _ b hb =>
        ih (fun y hy => h y (List.mem_cons_of_mem x hy)) hb

end Leads

theorem session_ofExcept (r : Except Error α) (a : Adapter σ τ) :
    ((ofExcept r : Act σ τ α).after a).session = a.session := by
  cases r <;> rfl

theorem session_demand (r : Except EngineError α) (a : Adapter σ τ) :
    ((demand r : Act σ τ α).after a).session = a.session := by
  cases r <;> rfl

/-- From `a`, the step fails with the session as it was, or succeeds with a
change in `P`. -/
def Atomic (P : Session → Session → Prop) (step : Act σ τ α) (a : Adapter σ τ) : Prop :=
  match step a with
  | .ok _ b => P a.session b.session
  | .error _ b => b.session = a.session

section Atomic

variable {P : Session → Session → Prop} {step : Act σ τ α} {next : α → Act σ τ β}
  {a : Adapter σ τ}

theorem atomic_iff_leads : Atomic P step a ↔
    Leads step a (fun _ b => P a.session b.session) (fun b => b.session = a.session) :=
  Iff.rfl

theorem atomic_of_ok {b : Adapter σ τ} {v : α} (h : step a = .ok v b)
    (hP : P a.session b.session) : Atomic P step a :=
  atomic_iff_leads.mpr (leads_of_ok h hP)

/-- What cannot fail is atomic. -/
theorem atomic_of_safe (h : FailsBy (fun _ => False) step) (a : Adapter σ τ) :
    Atomic (fun _ _ => True) step a := by
  unfold Atomic
  cases hstep : step a with
  | ok v b => trivial
  | error e b => exact (h a e b hstep).elim

theorem Atomic.of_ok (h : Atomic P step a) {v : α} {b : Adapter σ τ} (hstep : step a = .ok v b) :
    P a.session b.session :=
  (atomic_iff_leads.mp h).of_ok hstep

theorem Atomic.session_of_error (h : Atomic P step a) {e : Error} {b : Adapter σ τ}
    (hstep : step a = .error e b) : b.session = a.session :=
  (atomic_iff_leads.mp h).of_error hstep

/-- Behind an atomic step may come what cannot fail, whatever it changes. -/
theorem Atomic.bind_safe (h : Atomic P step a)
    (hnext : ∀ v, FailsBy (fun _ => False) (next v)) :
    Atomic (fun _ _ => True) (step >>= next) a := by
  refine atomic_iff_leads.mpr ?_
  cases hstep : step a with
  | error e b => exact leads_bind_of_error hstep (h.session_of_error hstep)
  | ok v b =>
      refine leads_bind_of_ok hstep ?_
      unfold Leads
      cases hrest : next v b with
      | ok w c => trivial
      | error e c => exact (hnext v b e c hrest).elim

theorem Atomic.mono {Q : Session → Session → Prop} (h : Atomic P step a)
    (hPQ : ∀ t, P a.session t → Q a.session t) : Atomic Q step a :=
  atomic_iff_leads.mpr
    ((atomic_iff_leads.mp h).mono (fun _ b hb => hPQ b.session hb) fun _ hb => hb)

/-- Steps that leave the session alone in all cases. -/
theorem atomic_of_session_eq (h : (step.after a).session = a.session)
    (hP : P a.session a.session) : Atomic P step a := by
  refine atomic_iff_leads.mpr ((leads_same rfl h).mono (fun _ b hb => ?_) fun _ hb => hb)
  rwa [hb]

/-- Steps that leave the session alone may come first. -/
theorem Atomic.bind (hstep : (step.after a).session = a.session)
    (hnext : ∀ v b, step a = .ok v b → b.session = a.session → Atomic P (next v) b) :
    Atomic P (step >>= next) a := by
  refine atomic_iff_leads.mpr ?_
  cases h : step a with
  | error e b =>
      rw [after_of_error h] at hstep
      exact leads_bind_of_error h hstep
  | ok v b =>
      rw [after_of_ok h] at hstep
      have hb := hnext v b h hstep
      rw [atomic_iff_leads, hstep] at hb
      exact leads_bind_of_ok h hb

/-- A question, and the answer unless the engine refuses, may come first. -/
theorem atomic_demandAsk [Engine σ] {request : Request}
    {f : request.Answer → Except EngineError α}
    (h : ∀ v b, b.session = a.session → Atomic P (next v) b) :
    Atomic P (do next (← demand (f (← ask request)))) a := by
  refine Atomic.bind rfl fun answer b _ hb => ?_
  exact Atomic.bind (session_demand (f answer) b) fun v c _ hc => h v c (hc.trans hb)

/-- Steps that leave the session alone and cannot fail may come last. -/
theorem Atomic.then (h : Atomic P step a)
    (hnext : ∀ v b, step a = .ok v b → ∃ w c, next v b = .ok w c ∧ c.session = b.session) :
    Atomic P (step >>= next) a := by
  refine atomic_iff_leads.mpr ?_
  cases hstep : step a with
  | error e b => exact leads_bind_of_error hstep (h.session_of_error hstep)
  | ok v b =>
      obtain ⟨w, c, hc, hsession⟩ := hnext v b hstep
      have hb := h.of_ok hstep
      rw [← hsession] at hb
      exact leads_bind_of_ok hstep (leads_of_ok hc hb)

/-- Behind the step there is a change in `P`, perhaps none. -/
theorem Atomic.after (h : Atomic P step a) (hP : P a.session a.session) :
    P a.session (step.after a).session := by
  cases hstep : step a with
  | ok v b =>
      rw [after_of_ok hstep]
      exact h.of_ok hstep
  | error e b =>
      rw [after_of_error hstep, h.session_of_error hstep]
      exact hP

end Atomic

/-! ## Inquiries -/

/-- The step asks the engine for what is in `Q`, and fails only if the engine
refuses. -/
inductive Asks [Engine σ] (Q : Request → Prop) : {α : Type} → Act σ τ α → Prop
  | pure {α : Type} (v : α) : Asks Q (pure v)
  | ask {request : Request} (h : Q request) : Asks Q (ask request)
  | demand {α : Type} (r : Except EngineError α) : Asks Q (demand r)
  | bind {α β : Type} {step : Act σ τ α} {next : α → Act σ τ β} (hstep : Asks Q step)
    (hnext : ∀ v, Asks Q (next v)) : Asks Q (step >>= next)

section Inquiries

variable [Engine σ] {Q R : Request → Prop} {step : Act σ τ α}

theorem Asks.mono (h : Asks Q step) (hQ : ∀ request, Q request → R request) : Asks R step := by
  induction h with
  | pure v => exact .pure v
  | ask h => exact .ask (hQ _ h)
  | demand r => exact .demand r
  | bind _ _ ihstep ihnext => exact ihstep.bind ihnext

/-- A step of inquiries moves the engine and nothing else. -/
theorem Asks.after_eq (h : Asks Q step) (a : Adapter σ τ) :
    ∃ engine, ReflTransGen (Engine.Asked Q) a.engine engine ∧ step.after a = { a with engine } := by
  induction h generalizing a with
  | pure v => exact ⟨a.engine, .refl, rfl⟩
  | ask h => exact ⟨_, .single (Engine.asked h a.engine), rfl⟩
  | demand r => cases r <;> exact ⟨a.engine, .refl, rfl⟩
  | @bind _ _ step next _ _ ihstep ihnext =>
      obtain ⟨engine, hasked, hafter⟩ := ihstep a
      cases hok : step a with
      | error e b =>
          rw [after_of_error hok] at hafter
          exact ⟨engine, hasked, (after_bind_of_error hok next).trans hafter⟩
      | ok v b =>
          rw [after_of_ok hok] at hafter
          subst hafter
          obtain ⟨last, hlast, hafter⟩ := ihnext v { a with engine }
          exact ⟨last, hasked.trans hlast, (after_bind_of_ok hok next).trans hafter⟩

theorem Asks.session_eq (h : Asks Q step) (a : Adapter σ τ) :
    (step.after a).session = a.session := by
  obtain ⟨engine, -, hafter⟩ := h.after_eq a
  rw [hafter]

theorem Asks.walks [Sink τ] (h : Asks Q step) (S : Session → Option Record → Session → Prop) :
    Walks S (Engine.Asked Q) step := by
  intro a
  obtain ⟨engine, hasked, hafter⟩ := h.after_eq a
  have hmove : ∀ e f : σ, Engine.Asked Q e f →
      Adapter.Move S (Engine.Asked Q) { a with engine := e } { a with engine := f } :=
    fun _ _ h => .engine h
  rw [hafter]
  exact ReflTransGen.lift (fun engine => { a with engine }) hmove _ _ hasked

theorem Asks.failsBy (h : Asks Q step) {P : Error → Prop} (hP : ∀ cause, P (.engine cause)) :
    FailsBy P step := by
  intro a e b herror
  induction h generalizing a b with
  | pure v => cases herror
  | ask h => cases herror
  | demand r =>
      cases r with
      | ok v => cases herror
      | error cause =>
          cases herror
          exact hP cause
  | bind _ _ ihstep ihnext =>
      obtain herror | ⟨v, c, -, herror⟩ := bind_eq_error.mp herror
      · exact ihstep a b herror
      · exact ihnext v c b herror

end Inquiries

end Act

end MachineInterface
