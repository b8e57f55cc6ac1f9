import MachineInterface.Engine.Table
import MachineInterface.Proofs.Commands

/-!
# MachineInterface.Proofs.Refusals

Errors about arguments and identities have no side effects.  A command looks at
its arguments and at the stoppoints and objects that they name before it does
anything else: where it may still refuse them it has only looked for
stoppoints and perhaps made up a name, and behind that no failure is a refusal
(`refuses_perform`).  `refusal_without_effect` states this for lines, at an
engine that keeps a list of all calls.
-/

namespace MachineInterface

variable {σ τ α β : Type}

/-! ## Refusals -/

/-- The error is about an argument, or about the stoppoint or the object that
it names. -/
def Error.isRefusal : Error → Prop
  | malformed _ | unknownCommand _ | missingArgument _ | invalidArgument .. | argumentPair ..
  | unknownFormat _ | stoppointNotFound _ | invalidHandle _ | variableNotFound _ => True
  | inCommand _ cause => cause.isRefusal
  | io _ | engine _ | locationNotFound _ | evaluation _ | unresolvedStoppoint _
  | idsExhausted _ => False

/-- The session stays as it is, up to the count of generated names. -/
inductive Session.Naming : Session → Option Record → Session → Prop
  | name {s : Session} (generated : Nat) : Naming s none { s with generated }

namespace Act

variable [Engine σ]

/-- The step fails, if it fails, for another reason than a refusal. -/
abbrev Accepts (step : Act σ τ α) : Prop := FailsBy (¬ ·.isRefusal) step

/-- Up to a refusal the step only looks for stoppoints and makes up names. -/
def Refuses [Sink τ] (step : Act σ τ α) : Prop :=
  ∀ a e b, step a = .error e b → e.isRefusal →
    Adapter.Moves Session.Naming (Engine.Asked Request.isFind) a b

/-- Looking for stoppoints and making up names, whatever comes of it. -/
abbrev Looks [Sink τ] (step : Act σ τ α) : Prop :=
  Walks Session.Naming (Engine.Asked Request.isFind) step

section Rules

variable [Sink τ] {step : Act σ τ α} {next : α → Act σ τ β}

theorem Walks.refuses (h : Looks step) : Refuses step := by
  intro a e b herror _
  rw [← after_of_error herror]
  exact h a

omit [Engine σ] in
theorem FailsBy.refuses [Engine σ] (h : Accepts step) : Refuses step :=
  fun a e b herror he => (h a e b herror he).elim

/-- A step that only looks may come first. -/
theorem Walks.refuses_bind (hstep : Looks step) (hnext : ∀ v, Refuses (next v)) :
    Refuses (step >>= next) := by
  intro a e c herror he
  obtain herror | ⟨v, b, hok, herror⟩ := bind_eq_error.mp herror
  · exact hstep.refuses a e c herror he
  · rw [← after_of_ok hok] at herror
    exact (hstep a).trans (hnext v _ e c herror he)

theorem Refuses.bind_pure (h : Refuses step) (f : α → β) : Refuses (do return f (← step)) :=
  fun a e b herror => h a e b (bind_pure_eq_error.mp herror)

end Rules

/-- An engine's refusal of a request is none of an argument. -/
theorem accepts_demandAsk {request : Request} {f : request.Answer → Except EngineError α}
    {next : α → Act σ τ β} (h : ∀ v, Accepts (next v)) :
    Accepts (do next (← demand (f (← ask request)))) :=
  failsBy_demandAsk (fun _ h => h) h

/-! ## Stoppoints -/

theorem accepts_create [Sink τ] (placement : Placement) :
    Accepts (create placement : Act σ τ (Except EngineError Handle)) := by
  refine failsBy_bind_of_ok (fun _ => ⟨_, _, rfl⟩) fun a => ?_
  generalize Engine.create placement a.engine = creation
  induction creation with
  | finished result engine => exact failsBy_of_ok fun _ => ⟨_, _, rfl⟩
  | deliver notification engine resume ih =>
      refine failsBy_bind_of_ok (fun _ => ⟨_, _, rfl⟩) fun _ => ?_
      refine (failsBy_attempt _).bind fun outcome => ?_
      exact failsBy_bind_of_ok (fun _ => ⟨_, _, rfl⟩) fun b => ih outcome b.engine

theorem accepts_discard (handle : Handle) (topic : String) :
    Accepts (discard handle topic : Act σ τ Unit) :=
  failsBy_of_ok fun a => ⟨_, _, discard_apply handle topic a⟩

theorem accepts_numberOrDiscard (handle : Handle) :
    Accepts (numberOrDiscard handle : Act σ τ Nat) := by
  intro a e b herror
  rw [numberOrDiscard_apply] at herror
  cases hnumber : a.session.number handle with
  | ok r =>
      rw [hnumber] at herror
      cases herror
  | error e' =>
      rw [hnumber] at herror
      obtain ⟨-, rfl⟩ := Session.number_error hnumber
      cases herror
      exact fun h => h

theorem accepts_enroll (handle : Handle) (stoppoint : Nat → String → StoppointState → Stoppoint) :
    Accepts (enroll handle stoppoint : Act σ τ Stoppoint) :=
  (accepts_numberOrDiscard handle).bind fun _ => accepts_demandAsk fun _ =>
    failsBy_of_ok fun _ => ⟨_, _, rfl⟩

theorem accepts_adopt (i : Insertion) (handle : Handle) :
    Accepts (adopt i handle : Act σ τ Stoppoint) := by
  refine accepts_demandAsk fun site => ?_
  by_cases hplace : (!i.pending && site.locations = 0) = true
  · rw [if_pos hplace]
    exact (accepts_discard handle _).bind fun _ => failsBy_throw fun h => h
  · rw [if_neg hplace]
    have hconfigure : Accepts (configure handle i : Act σ τ Unit) :=
      (asks_configure handle i).failsBy fun _ h => h
    exact hconfigure.bind fun _ => accepts_enroll handle _

theorem accepts_insert [Sink τ] (i : Insertion) : Accepts (insert i : Act σ τ Results) := by
  have hcreate : Accepts (createBreakpoint i : Act σ τ Handle) :=
    (accepts_create _).bind fun r => failsBy_demand (fun _ h => h) r
  exact hcreate.bind fun handle => (accepts_adopt i handle).bind_pure _

theorem accepts_watch [Sink τ] (w : Watch) : Accepts (watch w : Act σ τ Results) := by
  have hcreate : Accepts (createWatchpoint w : Act σ τ Handle) := by
    refine failsBy_bind_of_ok (fun _ => ⟨_, _, rfl⟩) fun target => ?_
    cases target with
    | error cause => exact failsBy_throw fun h => h
    | ok target => exact (accepts_create _).bind fun r => failsBy_demand (fun _ h => h) r
  exact hcreate.bind fun handle => (accepts_enroll handle _).bind_pure _

theorem refuses_deleteAll [Sink τ] (numbers : List Int) :
    Refuses (deleteAll numbers : Act σ τ Results) := by
  refine (walks_resolveAll _ numbers).refuses_bind fun resolved => FailsBy.refuses ?_
  refine (failsBy_forM (fun target => ?_) resolved).bind_pure _
  exact accepts_demandAsk fun _ => failsBy_of_ok fun _ => ⟨_, _, rfl⟩

theorem refuses_enableAll [Sink τ] (enabled : Bool) (numbers : List Int) :
    Refuses (enableAll enabled numbers : Act σ τ Results) := by
  refine (walks_resolveAll _ numbers).refuses_bind fun resolved => FailsBy.refuses ?_
  refine (failsBy_forM (fun target => ?_) resolved).bind_pure _
  exact accepts_demandAsk fun _ => failsBy_of_ok fun _ => ⟨_, _, rfl⟩

theorem refuses_ignoreHits [Sink τ] (number : Int) (count : Nat) :
    Refuses (ignoreHits number count : Act σ τ Results) :=
  (walks_resolve _ number).refuses_bind fun _ => FailsBy.refuses
    (accepts_demandAsk fun _ => failsBy_of_ok fun _ => ⟨_, _, rfl⟩)

theorem refuses_setCondition [Sink τ] (number : Int) (condition : Option String) :
    Refuses (setCondition number condition : Act σ τ Results) :=
  (walks_resolve _ number).refuses_bind fun _ => FailsBy.refuses
    (accepts_demandAsk fun _ => failsBy_of_ok fun _ => ⟨_, _, rfl⟩)

/-! ## Variable objects -/

theorem refuses_createVariable [Sink τ] (b : Binding) :
    Refuses (createVariable b : Act σ τ Results) := by
  have hname : Looks (chooseName b.name : Act σ τ String) := by
    unfold chooseName
    split
    · exact walks_inSession fun s => .name (s.generated + 1)
    · exact walks_pure _
  refine hname.refuses_bind fun name => ?_
  refine (walks_ofExcept _).refuses_bind fun thread => ?_
  refine (walks_ofExcept _).refuses_bind fun frame => ?_
  have hbind : Accepts (do return (← bindValue name b.expression thread frame).createResults :
      Act σ τ Results) := by
    refine FailsBy.bind_pure ?_ _
    refine accepts_demandAsk fun _ => failsBy_bind_of_ok (fun _ => ⟨_, _, rfl⟩) fun _ => ?_
    exact accepts_demandAsk fun _ => failsBy_of_ok fun _ => ⟨_, _, rfl⟩
  by_cases haddress : b.frameAddress ≠ "*" ∧ b.frameAddress ≠ "@"
  · rw [if_pos haddress]
    exact FailsBy.refuses (failsBy_bind_of_ok (fun _ => ⟨_, _, rfl⟩) fun _ => hbind)
  · rw [if_neg haddress]
    exact hbind.refuses

theorem accepts_refresh (v : Variable) : Accepts (refresh v : Act σ τ Variable) :=
  accepts_demandAsk fun _ => failsBy_of_ok fun _ => ⟨_, _, rfl⟩

theorem refuses_assign [Sink τ] (name expression : String) :
    Refuses (assign name expression : Act σ τ Results) :=
  (walks_object name).refuses_bind fun v => FailsBy.refuses (accepts_demandAsk fun _ =>
    (accepts_refresh v).bind_pure _)

theorem refuses_setFormat [Sink τ] (name : String) (format : Format) :
    Refuses (setFormat name format : Act σ τ Results) :=
  (walks_object name).refuses_bind fun _ => FailsBy.refuses
    ((accepts_refresh _).bind_pure _)

theorem refuses_evaluate [Sink τ] (name : String) (format : Option String) :
    Refuses (evaluate name format : Act σ τ Results) := by
  refine (walks_object name).refuses_bind fun v => ?_
  cases format with
  | none =>
      exact FailsBy.refuses ((accepts_refresh v).bind_pure _)
  | some text =>
      cases hformat : Format.ofName? text with
      | none =>
          simp only [hformat]
          exact Walks.refuses (walks_throw _)
      | some format =>
          simp only [hformat]
          exact FailsBy.refuses (accepts_demandAsk fun _ => failsBy_of_ok fun _ => ⟨_, _, rfl⟩)

theorem accepts_listMembers (v : Variable) (indices : List Nat) :
    Accepts (listMembers v indices : Act σ τ (List Variable)) := by
  induction indices with
  | nil => exact failsBy_of_ok fun _ => ⟨_, _, rfl⟩
  | cons index indices ih =>
      have hmember : Accepts (listMember v index : Act σ τ Variable) :=
        accepts_demandAsk fun _ => accepts_demandAsk fun _ => failsBy_of_ok fun _ => ⟨_, _, rfl⟩
      exact hmember.bind fun _ => ih.bind_pure _

theorem refuses_listChildren [Sink τ] (shown : PrintValues) (name : String)
    (window : Option (Int × Int)) :
    Refuses (listChildren shown name window : Act σ τ Results) :=
  (walks_object name).refuses_bind fun v => FailsBy.refuses
    ((accepts_listMembers v _).bind_pure _)

/-! ## Updates -/

theorem accepts_visitWith (visit : Variable → Act σ τ Visit) (v : Variable) :
    Accepts (visitWith visit v) := by
  have hreread : Accepts (reread v : Act σ τ (Variable × Bool)) :=
    (asks_reread v).failsBy fun _ h => h
  have hupdate : Accepts (updateObject v : Act σ τ (Variable × Bool)) :=
    hreread.bind fun _ => failsBy_of_ok fun _ => ⟨_, _, rfl⟩
  exact hupdate.bind fun _ => (failsBy_visitMembers visit _ _).bind_pure _

theorem accepts_visitTree (v : Variable) : Accepts (visitTree v : Act σ τ Visit) := by
  refine failsBy_bind_of_ok (fun _ => ⟨_, _, rfl⟩) fun s => ?_
  cases longest s.objectNames - v.name.length with
  | zero => exact accepts_visitWith _ v
  | succ depth => exact accepts_visitWith _ v

theorem refuses_visitNamed [Sink τ] (name : String) :
    Refuses (visitNamed name : Act σ τ (List Visit)) := by
  unfold visitNamed
  split
  · exact FailsBy.refuses (failsBy_bind_of_ok (fun _ => ⟨_, _, rfl⟩) fun s =>
      failsBy_visitRoots s.objectNames)
  · exact (walks_object name).refuses_bind fun v => FailsBy.refuses
      ((accepts_visitTree v).bind_pure _)

/-! ## Commands -/

variable [Sink τ]

/-- A command refuses its arguments before it does anything. -/
theorem refuses_perform (command : Command) : Refuses (perform command : Act σ τ Results) := by
  cases command with
  | insert i => exact (accepts_insert i).refuses
  | delete numbers => exact refuses_deleteAll numbers
  | enable enabled numbers => exact refuses_enableAll enabled numbers
  | ignoreHits number count => exact refuses_ignoreHits number count
  | setCondition number condition => exact refuses_setCondition number condition
  | watch w => exact (accepts_watch w).refuses
  | createVariable b => exact refuses_createVariable b
  | deleteVariable name =>
      refine FailsBy.refuses (failsBy_bind_of_ok (fun _ => ⟨_, _, rfl⟩) fun s => ?_)
      cases s.object? name <;> exact failsBy_of_ok fun _ => ⟨_, _, rfl⟩
  | updateVariables shown name => exact (refuses_visitNamed name).bind_pure _
  | assign name expression => exact refuses_assign name expression
  | setFormat name format => exact refuses_setFormat name format
  | listChildren shown name window => exact refuses_listChildren shown name window
  | evaluate name format => exact refuses_evaluate name format
  | pathExpression name => exact Walks.refuses (walks_pathExpression name)
  | showAttributes name => exact Walks.refuses (walks_showAttributes name)
  | exit => exact Walks.refuses (walks_pure _)

theorem refuses_runVerb (verb : Verb) (arguments : String) :
    Refuses (runVerb verb arguments : Act σ τ (ResultClass × Results)) :=
  (walks_readCommand verb arguments).refuses_bind fun command =>
    (refuses_perform command).bind_pure _

/-! ## Lines -/

/-- The error that the answer to a line comes from, if it comes from one. -/
def failure (register : Register) (text : String) (a : Adapter σ τ) : Option Error :=
  match Line.parse text with
  | .error malformed => some malformed.toError
  | .ok none => none
  | .ok (some line) =>
    match register.verb? line.verb with
    | none => some (.unknownCommand line.verb)
    | some verb =>
      match runVerb verb line.arguments a with
      | .ok .. => none
      | .error e _ => some (.inCommand line.verb e)

/-- The answer to a line that fails reports its error. -/
theorem answerLine_of_failure {register : Register} {text : String} {a : Adapter σ τ} {e : Error}
    (h : failure register text a = some e) :
    ∃ token b, answerLine register text a = .ok (some (.error token e.message)) b := by
  unfold failure at h
  split at h
  · next malformed hline =>
    cases h
    simp only [answerLine, hline]
    exact ⟨_, _, rfl⟩
  · cases h
  · next line hline =>
    split at h
    · next hverb =>
      cases h
      simp only [answerLine, hline, runLine, hverb]
      exact ⟨_, _, rfl⟩
    · next verb hverb =>
      split at h
      · cases h
      · next e' b hfail =>
        cases h
        exact ⟨_, _, answerLine_of_error hline hverb hfail⟩

/-- A line that is refused has only led to looks for stoppoints. -/
theorem moves_of_failure {register : Register} {text : String} {a : Adapter σ τ} {e : Error}
    (h : failure register text a = some e) (he : e.isRefusal) :
    Adapter.Moves Session.Naming (Engine.Asked Request.isFind) a
      ((answerLine register text).after a) := by
  unfold failure at h
  split at h
  · next malformed hline =>
    simp only [answerLine, hline]
    exact ((walks_say _ _).bind fun _ => walks_pure _) a
  · cases h
  · next line hline =>
    split at h
    · next hverb =>
      simp only [answerLine, hline, runLine, hverb]
      exact (((walks_say _ _).bind fun _ => walks_pure _).bind fun _ => walks_pure _) a
    · next verb hverb =>
      split at h
      · cases h
      · next e' b hfail =>
        cases h
        have hrefused := refuses_runVerb verb line.arguments a e' b hfail he
        rw [after_of_ok (answerLine_of_error hline hverb hfail)]
        exact hrefused.tail (.rest _ _)

end Act

/-! ## Calls -/

/-- A call of an engine. -/
inductive Call
  | answer (request : Request)
  | create (placement : Placement)
deriving DecidableEq, Repr

/-- An engine with a list of the calls that were made of it. -/
structure Traced (σ : Type) where
  engine : σ
  calls : List Call := []

namespace Traced

/-- A creation in the course of which further calls are put on the list. -/
def creation (calls : List Call) : Creation σ → Creation (Traced σ)
  | .finished result engine => .finished result ⟨engine, calls⟩
  | .deliver notification engine resume =>
    .deliver notification ⟨engine, calls⟩ fun outcome traced =>
      creation traced.calls (resume outcome traced.engine)

instance [Engine σ] : Engine (Traced σ) where
  answer request traced :=
    let (answer, engine) := Engine.answer request traced.engine
    (answer, ⟨engine, traced.calls ++ [.answer request]⟩)
  create placement traced :=
    creation (traced.calls ++ [.create placement]) (Engine.create placement traced.engine)

end Traced

/-- An adapter at whose engine a list of calls is begun. -/
def Adapter.traced (a : Adapter σ τ) : Adapter (Traced σ) τ :=
  { a with engine := { engine := a.engine } }

/-- **Refusals**: if the answer to a line comes from an error about an argument,
or about the stoppoint or the object that it names, then nothing was asked of the
engine but whether stoppoints exist, and the session has the same records, the
same numbers and the same objects as before; only names may have been
generated. -/
theorem Act.refusal_without_effect [Engine σ] [Sink τ] {register : Register} {text : String}
    {a : Adapter σ τ} {e : Error} (h : failure register text a.traced = some e)
    (he : e.isRefusal) :
    let b := (handleLine register text).after a.traced
    (∃ token c, answerLine register text a.traced = .ok (some (.error token e.message)) c) ∧
    (∀ call ∈ b.engine.calls, ∃ handle, call = .answer (.findStoppoint handle)) ∧
    b.session = { a.session with generated := b.session.generated } := by
  intro b
  have hmoves := moves_of_failure h he
  obtain ⟨token, c, hanswer⟩ := answerLine_of_failure h
  obtain ⟨hsession, hengine⟩ := after_handleLine hanswer
  rw [after_of_ok hanswer] at hmoves
  refine ⟨⟨token, c, hanswer⟩, ?_, ?_⟩
  · rw [hengine]
    refine hmoves.engine_invariant
      (I := fun e => ∀ call ∈ e.calls, ∃ handle, call = .answer (.findStoppoint handle)) ?_ nofun
    rintro e f he ⟨request, hrequest, rfl⟩ call hcall
    obtain hcall | hcall := List.mem_append.mp hcall
    · exact he call hcall
    · obtain rfl := List.mem_singleton.mp hcall
      cases request <;> first | exact ⟨_, rfl⟩ | exact hrequest.elim
  · rw [hsession]
    refine hmoves.session_invariant
      (I := fun s => s = { a.session with generated := s.generated }) ?_ rfl
    rintro r s t hs ⟨generated⟩
    rw [hs]

/-- Behind a number that is found, one that is not is refused, and the first
stoppoint stays. -/
theorem Table.refusal_without_effect_table :
    let a := (Act.handleLine .standard "break-insert main").after
      (Adapter.new {} ({} : Table) Discard.discard)
    let b := (Act.handleLine .standard "break-delete 1 7").after a.traced
    (∃ token c, Act.answerLine .standard "break-delete 1 7" a.traced = .ok (some (.error token
      (Error.inCommand "break-delete" (.stoppointNotFound 7)).message)) c) ∧
    (∀ call ∈ b.engine.calls, ∃ handle, call = .answer (.findStoppoint handle)) ∧
    b.session = { a.session with generated := b.session.generated } := by
  intro a b
  have hfailure : Act.failure .standard "break-delete 1 7" a.traced =
      some (.inCommand "break-delete" (.stoppointNotFound 7)) := by decide +kernel
  exact Act.refusal_without_effect hfailure trivial

end MachineInterface
