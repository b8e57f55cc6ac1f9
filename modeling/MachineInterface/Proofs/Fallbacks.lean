import MachineInterface.Proofs.Phases
import MachineInterface.Proofs.Refusals

/-!
# MachineInterface.Proofs.Fallbacks

Errors about missing arguments come from the parsing of a line alone.  A command is
executed, which keeps what the answer relies on, and acknowledged, with an error
about a missing argument where nothing was kept (`Act.execute`,
`Command.acknowledge`).  No command fails with such an error, neither where it is
put together nor where it is executed or acknowledged, so that a line is refused for
a missing argument only by its parsing (`missing_only_in_parsing`).
-/

namespace MachineInterface

open Argument

variable {σ τ α β : Type}

theorem Error.IsMissing.isRefusal {e : Error} (h : e.IsMissing) : e.isRefusal := by
  obtain ⟨name, hroot⟩ := h
  induction e with
  | inCommand verb cause ih => exact ih hroot
  | missingArgument name' => trivial
  | _ => cases hroot

namespace Act

/-! ## Performing -/

/-- The step does not fail for an argument that is missing. -/
abbrev Finds (step : Act σ τ α) : Prop := FailsBy (¬ ·.IsMissing) step

theorem finds_ofExcept {result : Except Error α} (h : Verb.Sure result) :
    Finds (ofExcept result : Act σ τ α) := by
  cases result with
  | error e => exact failsBy_throw (h e rfl)
  | ok value => exact failsBy_of_ok fun _ => ⟨_, _, rfl⟩

theorem finds_object (name : String) : Finds (object name : Act σ τ Variable) := by
  refine failsBy_bind_of_ok (fun _ => ⟨_, _, rfl⟩) fun s => ?_
  cases s.object? name with
  | some v => exact failsBy_of_ok fun _ => ⟨_, _, rfl⟩
  | none => exact failsBy_throw nofun

theorem sure_pathTo (s : Session) (depth : Nat) (v : Variable) : Verb.Sure (s.pathTo depth v) := by
  induction depth generalizing v with
  | zero => exact Verb.sure_ok _
  | succ depth ih =>
      rw [Session.pathTo]
      cases v.parent with
      | none => exact Verb.sure_ok _
      | some name =>
          cases hparent : s.object? name with
          | none =>
              simp only [hparent]
              exact Verb.sure_error nofun
          | some parent =>
              simp only [hparent]
              exact (ih parent).bind fun path => Verb.sure_ok (path ++ Session.pathStep v)

theorem Accepts.finds {step : Act σ τ α} (h : Accepts step) : Finds step :=
  fun a e b herror hmissing => h a e b herror hmissing.isRefusal

variable [Engine σ]

theorem finds_demandAsk {request : Request} {f : request.Answer → Except EngineError α}
    {next : α → Act σ τ β} (h : ∀ v, Finds (next v)) :
    Finds (do next (← demand (f (← ask request)))) :=
  failsBy_demandAsk (fun _ => nofun) h

theorem finds_resolve (argument : String) (n : Int) :
    Finds (resolve argument n : Act σ τ (Nat × Handle)) := by
  refine (finds_ofExcept (Verb.sure_narrow argument n)).bind fun id => ?_
  refine failsBy_bind_of_ok (fun _ => ⟨_, _, rfl⟩) fun s => ?_
  cases s.stoppoint? id with
  | none => exact failsBy_throw nofun
  | some p =>
      refine failsBy_bind_of_ok (fun _ => ⟨_, _, rfl⟩) fun handle => ?_
      cases handle with
      | none => exact failsBy_throw nofun
      | some handle => exact failsBy_of_ok fun _ => ⟨_, _, rfl⟩

theorem finds_resolveAll (argument : String) (numbers : List Int) :
    Finds (resolveAll argument numbers : Act σ τ (List (Nat × Handle))) := by
  induction numbers with
  | nil => exact failsBy_of_ok fun _ => ⟨_, _, rfl⟩
  | cons n numbers ih => exact (finds_resolve argument n).bind fun _ => ih.bind_pure _

theorem finds_createVariable (b : Binding) : Finds (createVariable b : Act σ τ Results) := by
  have hname : Finds (chooseName b.name : Act σ τ String) := by
    unfold chooseName
    split <;> exact failsBy_of_ok fun _ => ⟨_, _, rfl⟩
  refine hname.bind fun name => ?_
  refine (finds_ofExcept (Verb.sure_mapM (Verb.sure_unsigned "thread") _)).bind fun thread => ?_
  refine (finds_ofExcept (Verb.sure_mapM (Verb.sure_narrow "frame") _)).bind fun frame => ?_
  have hbind : Finds (do return (← bindValue name b.expression thread frame).createResults :
      Act σ τ Results) := by
    refine FailsBy.bind_pure ?_ _
    refine finds_demandAsk fun _ => failsBy_bind_of_ok (fun _ => ⟨_, _, rfl⟩) fun _ => ?_
    exact finds_demandAsk fun _ => failsBy_of_ok fun _ => ⟨_, _, rfl⟩
  split
  · exact failsBy_bind_of_ok (fun _ => ⟨_, _, rfl⟩) fun _ => hbind
  · exact hbind

theorem finds_evaluate (name : String) (format : Option String) :
    Finds (evaluate name format : Act σ τ Results) := by
  refine (finds_object name).bind fun v => ?_
  cases format with
  | none => exact (accepts_refresh v).finds.bind_pure _
  | some text =>
      cases hformat : Format.ofName? text with
      | none =>
          simp only [hformat]
          exact failsBy_throw nofun
      | some format =>
          simp only [hformat]
          exact finds_demandAsk fun _ => failsBy_of_ok fun _ => ⟨_, _, rfl⟩

theorem finds_visitNamed (name : String) : Finds (visitNamed name : Act σ τ (List Visit)) := by
  unfold visitNamed
  split
  · exact failsBy_bind_of_ok (fun _ => ⟨_, _, rfl⟩) fun s => failsBy_visitRoots s.objectNames
  · exact (finds_object name).bind fun v => (accepts_visitTree v).finds.bind_pure _

variable [Sink τ]

/-- No command fails for an argument that is missing. -/
theorem finds_perform (command : Command) : Finds (perform command : Act σ τ Results) := by
  cases command with
  | insert i => exact (accepts_insert i).finds
  | delete numbers =>
      refine (finds_resolveAll _ numbers).bind fun resolved => ?_
      refine (failsBy_forM (fun target => ?_) resolved).bind_pure _
      exact finds_demandAsk fun _ => failsBy_of_ok fun _ => ⟨_, _, rfl⟩
  | enable enabled numbers =>
      refine (finds_resolveAll _ numbers).bind fun resolved => ?_
      refine (failsBy_forM (fun target => ?_) resolved).bind_pure _
      exact finds_demandAsk fun _ => failsBy_of_ok fun _ => ⟨_, _, rfl⟩
  | ignoreHits number count | setCondition number condition =>
      refine (finds_resolve _ number).bind fun _ => ?_
      exact finds_demandAsk fun _ => failsBy_of_ok fun _ => ⟨_, _, rfl⟩
  | watch w => exact (accepts_watch w).finds
  | createVariable b => exact finds_createVariable b
  | deleteVariable name =>
      refine failsBy_bind_of_ok (fun _ => ⟨_, _, rfl⟩) fun s => ?_
      cases s.object? name <;> exact failsBy_of_ok fun _ => ⟨_, _, rfl⟩
  | updateVariables shown name => exact (finds_visitNamed name).bind_pure _
  | assign name expression =>
      refine (finds_object name).bind fun v => ?_
      exact finds_demandAsk fun _ => (accepts_refresh v).finds.bind_pure _
  | setFormat name format =>
      exact (finds_object name).bind fun _ => (accepts_refresh _).finds.bind_pure _
  | listChildren shown name window =>
      exact (finds_object name).bind fun v => (accepts_listMembers v _).finds.bind_pure _
  | evaluate name format => exact finds_evaluate name format
  | pathExpression name =>
      refine (finds_object name).bind fun v => failsBy_bind_of_ok (fun _ => ⟨_, _, rfl⟩) fun s => ?_
      exact (finds_ofExcept (sure_pathTo s _ v)).bind_pure _
  | showAttributes name => exact (finds_object name).bind_pure _
  | exit => exact failsBy_of_ok fun _ => ⟨_, _, rfl⟩

end Act

/-! ## Executing and acknowledging -/

/-- What the execution of a command keeps for its answer; at first nothing. -/
structure Outcome where
  stoppoint : Option Stoppoint := none
  object : Option Variable := none
  value : Option String := none
  /-- The results of a command whose answer relies on nothing that is kept. -/
  results : Results := []

/-- The answer to a command that was executed, with an error where nothing was kept
for it. -/
def Command.acknowledge : Command → Outcome → Except Error Results
  | insert _, outcome => do
    let p ← Verb.required "location" outcome.stoppoint
    return [("bkpt", .tuple p.results)]
  | watch w, outcome => do
    let p ← Verb.required "expression" outcome.stoppoint
    return [(w.resultName, .tuple p.watchResults)]
  | createVariable _, outcome => do
    let v ← Verb.required "name" outcome.object
    return v.createResults
  | assign .., outcome => do
    let v ← Verb.required "name" outcome.object
    return [field "value" v.info.value]
  | setFormat .., outcome => do
    let v ← Verb.required "name" outcome.object
    return changeList .all [v]
  | evaluate .., outcome => do
    let value ← Verb.required "name" outcome.value
    return [field "value" value]
  | pathExpression _, outcome => do
    let path ← Verb.required "name" outcome.value
    return [field "path_expr" path]
  | _, outcome => return outcome.results

namespace Act

variable [Engine σ] [Sink τ]

/-- Execute a command, and keep what its answer relies on. -/
def execute : Command → Act σ τ Outcome
  | .insert i => do
    return { stoppoint := some (← adopt i (← createBreakpoint i)) }
  | .watch w => do
    let handle ← createWatchpoint w
    return { stoppoint := some (← enroll handle (watchedStoppoint w handle)) }
  | .createVariable b => do
    let name ← chooseName b.name
    let thread ← ofExcept (b.thread.mapM (Verb.unsigned "thread"))
    let frame ← ofExcept (b.frame.mapM (Verb.narrow "frame"))
    if b.frameAddress ≠ "*" ∧ b.frameAddress ≠ "@" then
      say .debug s!"frame address {b.frameAddress} ignored, selected frame used"
    return { object := some (← bindValue name b.expression thread frame) }
  | .assign name expression => do
    let v ← object name
    demand (← ask (.assignValue v.handle expression))
    return { object := some (← refresh v) }
  | .setFormat name format => do
    let v ← object name
    return { object := some (← refresh { v with format }) }
  | .evaluate name format => do
    let v ← object name
    match format with
    | none => return { value := some (← refresh v).info.value }
    | some text =>
      match Format.ofName? text with
      | none => throw (.unknownFormat text)
      | some format =>
        let info ← demand (← ask (.valueInfo v.handle format))
        return { value := some info.value }
  | .pathExpression name => do
    let v ← object name
    return { value := some (← ofExcept ((← session).path v)) }
  | command => do
    return { results := ← perform command }

/-- A command is performed by executing and acknowledging it. -/
theorem perform_eq (command : Command) :
    (perform command : Act σ τ Results) =
      (do ofExcept (command.acknowledge (← execute command))) := by
  cases command with
  | insert i =>
      change insert i = _
      simp only [insert, execute, bind_assoc, pure_bind]
      rfl
  | watch w =>
      change watch w = _
      simp only [watch, execute, bind_assoc, pure_bind]
      rfl
  | createVariable b =>
      change createVariable b = _
      by_cases haddress : b.frameAddress ≠ "*" ∧ b.frameAddress ≠ "@"
      · simp only [createVariable, execute, if_pos haddress, bind_assoc, pure_bind]
        rfl
      · simp only [createVariable, execute, if_neg haddress, bind_assoc, pure_bind]
        rfl
  | assign name expression =>
      change assign name expression = _
      simp only [assign, execute, bind_assoc, pure_bind]
      rfl
  | setFormat name format =>
      change setFormat name format = _
      simp only [setFormat, execute, bind_assoc, pure_bind]
      rfl
  | evaluate name format =>
      change evaluate name format = _
      cases format with
      | none =>
          simp only [evaluate, execute, bind_assoc, pure_bind]
          rfl
      | some text =>
          cases hformat : Format.ofName? text with
          | none =>
              simp only [evaluate, execute, hformat, bind_assoc]
              rfl
          | some format =>
              simp only [evaluate, execute, hformat, bind_assoc, pure_bind]
              rfl
  | pathExpression name =>
      change pathExpression name = _
      simp only [pathExpression, execute, bind_assoc, pure_bind]
      rfl
  | _ =>
      simp only [execute, bind_assoc, pure_bind]
      exact (bind_pure _).symm

theorem finds_execute (command : Command) : Finds (execute command : Act σ τ Outcome) := by
  intro a e b herror
  refine finds_perform command a e b ?_
  rw [perform_eq]
  exact bind_of_error herror _

omit [Engine σ] [Sink τ] in
theorem isMissing_of_required {name : String} {answer : Option α} {f : α → β} {e : Error}
    (h : (do return f (← Verb.required name answer)) = .error e) : e.IsMissing := by
  cases answer with
  | none =>
      cases h
      exact ⟨name, rfl⟩
  | some value => cases h

omit [Engine σ] [Sink τ] in
theorem isMissing_of_acknowledge {command : Command} {outcome : Outcome} {e : Error}
    (h : command.acknowledge outcome = .error e) : e.IsMissing := by
  cases command with
  | insert | watch | createVariable | assign | setFormat | evaluate | pathExpression =>
      exact isMissing_of_required h
  | _ => cases h

/-- What the answer relies on is kept by an execution that succeeds. -/
theorem acknowledge_of_execute {command : Command} {a b : Adapter σ τ} {outcome : Outcome}
    (h : execute command a = .ok outcome b) :
    ∃ results, command.acknowledge outcome = .ok results := by
  cases hanswer : command.acknowledge outcome with
  | ok results => exact ⟨results, rfl⟩
  | error e =>
      have hperform : perform command a = .error e b := by
        rw [perform_eq, bind_of_ok h, hanswer]
        rfl
      exact (finds_perform command a e b hperform (isMissing_of_acknowledge hanswer)).elim

/-! ## Lines -/

theorem parsing_of_runVerb {verb : Verb} {arguments : String} {a b : Adapter σ τ} {e : Error}
    (h : runVerb verb arguments a = .error e b) (he : e.IsMissing) :
    verb.parsing arguments = .error e := by
  obtain hread | ⟨command, c, -, hperform⟩ := bind_eq_error.mp h
  · obtain ⟨journal, hjournal⟩ := readCommand_eq verb arguments a
    rw [hread, Verb.read_eq] at hjournal
    cases hparsing : verb.parsing arguments with
    | error e' =>
        rw [hparsing] at hjournal
        cases hjournal
        rfl
    | ok receipts =>
        have hread' : (do verb.lookUp (← verb.parsing arguments)) = verb.lookUp receipts := by
          rw [hparsing]
          rfl
        rw [hread'] at hjournal
        cases hcommand : verb.lookUp receipts with
        | ok command =>
            rw [hcommand] at hjournal
            cases hjournal
        | error e' =>
            rw [hcommand] at hjournal
            cases hjournal
            exact (Verb.sure_lookUp hparsing e hcommand he).elim
  · exact (finds_perform command c e b (bind_pure_eq_error.mp hperform) he).elim

/-- An error about a missing argument is one of the parsing. -/
theorem parsing_of_failure {register : Register} {text : String} {a : Adapter σ τ} {e : Error}
    (h : failure register text a = some e) (he : e.IsMissing) :
    ∃ line verb cause, Line.parse text = .ok (some line) ∧
      register.verb? line.verb = some verb ∧ e = .inCommand line.verb cause ∧
      verb.parsing line.arguments = .error cause := by
  unfold failure at h
  split at h
  · cases h
    obtain ⟨name, hname⟩ := he
    cases hname
  · cases h
  · next line hline =>
    split at h
    · cases h
      obtain ⟨name, hname⟩ := he
      cases hname
    · next verb hverb =>
      split at h
      · cases h
      · next cause b hrun =>
        cases h
        exact ⟨line, verb, cause, hline, hverb, rfl, parsing_of_runVerb hrun he⟩

/-- **No argument is lost** between the parsing of a line and its answer.  Behind a
validation that succeeds, an argument is found, valid and looked up under the key of
its kind together, mandatory arguments are found, and options and lists hold as many
values as they should, all of their type; a validation that fails leaves the receipts
in front of the failing argument as on success, and no value in the others.  So
nothing that the command is put together from is missing, and nothing that its
answer relies on: whatever the session and the engine do, a line is refused for a
missing argument only by the parsing of its arguments. -/
theorem missing_only_in_parsing (σ τ : Type) [Engine σ] [Sink τ] :
    (∀ (as : List Argument) (tokens : List String),
      (∀ values, (validate as tokens).values = .ok values →
        List.Forall₂ Receipt.Holds (validate as tokens).receipts as) ∧
      ∀ error, (validate as tokens).values = .error error →
        ∃ before a after receipt, Stops as tokens error before a after receipt) ∧
    (∀ (verb : Verb) (arguments : String),
      verb.read arguments = (do verb.lookUp (← verb.parsing arguments)) ∧
      ∀ receipts, verb.parsing arguments = .ok receipts → Verb.Sure (verb.lookUp receipts)) ∧
    (∀ command : Command,
      (perform command : Act σ τ Results) =
        (do ofExcept (command.acknowledge (← execute command))) ∧
      Finds (execute command : Act σ τ Outcome) ∧
      ∀ (a b : Adapter σ τ) outcome, execute command a = .ok outcome b →
        ∃ results, command.acknowledge outcome = .ok results) ∧
    ∀ (register : Register) (text : String) (a : Adapter σ τ) (e : Error),
      failure register text a = some e → e.IsMissing →
        ∃ line verb cause, Line.parse text = .ok (some line) ∧
          register.verb? line.verb = some verb ∧ e = .inCommand line.verb cause ∧
          verb.parsing line.arguments = .error cause := by
  refine ⟨fun as tokens => ⟨fun values => holds_of_ok as tokens, fun error =>
    stops_of_error as tokens⟩, fun verb arguments => ⟨verb.read_eq arguments, fun receipts =>
    Verb.sure_lookUp⟩, fun command => ⟨perform_eq command, finds_execute command, fun a b outcome =>
    acknowledge_of_execute⟩, fun register text a e => parsing_of_failure⟩

end Act

/-- A breakpoint without a place is refused by the parsing. -/
theorem Table.missing_only_in_parsing_table :
    let a := Adapter.new {} ({} : Table) Discard.discard
    let e := Error.inCommand "break-insert" (.missingArgument "location")
    Act.failure .standard "break-insert -t" a = some e ∧ e.IsMissing ∧
      ∃ line verb cause, Line.parse "break-insert -t" = .ok (some line) ∧
        Register.standard.verb? line.verb = some verb ∧ e = .inCommand line.verb cause ∧
        verb.parsing line.arguments = .error cause := by
  intro a e
  have hfailure : Act.failure .standard "break-insert -t" a = some e := by decide +kernel
  have hmissing : e.IsMissing := ⟨"location", rfl⟩
  exact ⟨hfailure, hmissing,
    (Act.missing_only_in_parsing Table Discard).2.2.2 .standard _ a e hfailure hmissing⟩

end MachineInterface
