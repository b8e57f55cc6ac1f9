import MachineInterface.Command.Run
import MachineInterface.Proofs.Variables

/-!
# MachineInterface.Proofs.Commands

What a command line can do to a session and tell of it (`Session.Step`):
`walks_handleLine` walks through the processing of any line.
-/

namespace MachineInterface

variable {σ τ : Type}

/-- A change of the session while a command is performed. -/
inductive Session.CommandStep (s : Session) (record : Option Record) (t : Session) : Prop
  | stoppoints (h : s.StoppointStep record t)
  | objects (h : s.VariableStep record t)

/-- A change of the session while a line is processed, or the answer, which
mentions only stoppoints that the session knows. -/
inductive Session.Step : Session → Option Record → Session → Prop
  | command {s t : Session} {record : Option Record} (h : s.CommandStep record t) :
    Step s record t
  | answer {s : Session} {record : ResultRecord} (h : s.Covers record.results) :
    Step s (some (.result record)) s

/-- The command is one on breakpoints and watchpoints. -/
def Command.onStoppoints : Command → Bool
  | insert _ | delete _ | enable .. | ignoreHits .. | setCondition .. | watch _ => true
  | _ => false

/-- The verb that asks for a command. -/
def Command.verb : Command → Verb
  | insert _ => .breakInsert
  | delete _ => .breakDelete
  | enable true _ => .breakEnable
  | enable false _ => .breakDisable
  | ignoreHits .. => .breakAfter
  | setCondition .. => .breakCondition
  | watch _ => .breakWatch
  | createVariable _ => .varCreate
  | deleteVariable _ => .varDelete
  | updateVariables .. => .varUpdate
  | assign .. => .varAssign
  | setFormat .. => .varSetFormat
  | listChildren .. => .varListChildren
  | evaluate .. => .varEvaluateExpression
  | pathExpression _ => .varInfoPathExpression
  | showAttributes _ => .varShowAttributes
  | exit => .gdbExit

/-- Every verb asks for commands of its own. -/
theorem Verb.verb_of_command {verb : Verb} {values : Argument.Values verb.arguments}
    {rest : List String} {command : Command} (h : verb.command values rest = .ok command) :
    command.verb = verb := by
  cases verb with
  | breakInsert =>
      obtain ⟨temporary, disabled, pending, condition, ignore, thread, group, location, ⟨⟩⟩ :=
        values
      simp only [Verb.command] at h
      cases hlocation : (location <|> operand pending) with
      | none => simp [hlocation] at h
      | some clientLocation =>
          -- Behind the place, only reading the two numbers can fail.
          simp only [hlocation, bind, Except.bind] at h
          split at h
          · cases h
          · split at h
            · cases h
            · split at h
              · cases h
              · cases h
                rfl
  | breakDelete | breakDisable | breakEnable | breakWatch | varDelete | varUpdate | varAssign
  | varEvaluateExpression | varInfoPathExpression | varShowAttributes | varCreate | gdbExit =>
      cases h
      rfl
  | breakAfter =>
      simp only [Verb.command, bind, Except.bind] at h
      split at h
      · cases h
      · cases h
        rfl
  | breakCondition =>
      simp only [Verb.command] at h
      split at h
      · cases h
        rfl
      · cases h
  | varSetFormat =>
      simp only [Verb.command] at h
      split at h
      · cases h
        rfl
      · cases h
  | varListChildren =>
      simp only [Verb.command] at h
      split at h
      · cases h
        rfl
      · cases h
        rfl
      · cases h

/-- The verbs that insert a stoppoint ask for nothing else. -/
theorem Verb.command_of_insertion {verb : Verb} (hverb : verb = .breakInsert ∨ verb = .breakWatch)
    {values : Argument.Values verb.arguments} {rest : List String} {command : Command}
    (h : verb.command values rest = .ok command) :
    (∃ i, command = .insert i) ∨ ∃ w, command = .watch w := by
  rw [← verb_of_command h] at hverb
  cases command with
  | insert i => exact .inl ⟨i, rfl⟩
  | watch w => exact .inr ⟨w, rfl⟩
  | enable enabled numbers => cases enabled <;> simp [Command.verb] at hverb
  | _ => simp [Command.verb] at hverb

namespace Act

open Argument

section Reading

variable {S : Session → Option Record → Session → Prop} {E : σ → σ → Prop}

theorem walks_sayIgnored [Sink τ] (rest : List String) :
    Walks S E (sayIgnored rest : Act σ τ Unit) := by
  unfold sayIgnored
  split
  · exact walks_pure _
  · exact walks_say _ _

/-- Reading a command changes neither the session nor the engine. -/
theorem walks_readCommand [Sink τ] (verb : Verb) (arguments : String) :
    Walks S E (readCommand verb arguments : Act σ τ Command) := by
  refine (walks_ofExcept _).bind fun values => ?_
  by_cases hverb : verb.readsArguments = true
  · rw [if_pos hverb]
    exact (walks_sayIgnored _).bind fun _ => walks_ofExcept _
  · rw [if_neg hverb]
    exact walks_ofExcept _

/-- A command that is read is one that its verb asks for. -/
theorem readCommand_eq_ok {verb : Verb} {arguments : String} {command : Command}
    {a b : Adapter σ τ} (h : readCommand verb arguments a = .ok command b) :
    ∃ values rest, verb.command values rest = .ok command := by
  obtain ⟨values, c, -, h⟩ := bind_eq_ok.mp h
  refine ⟨values, (validate verb.arguments (Text.tokens arguments)).rest, ?_⟩
  by_cases hverb : verb.readsArguments = true
  · rw [if_pos hverb] at h
    obtain ⟨_, d, -, h⟩ := bind_eq_ok.mp h
    exact (ofExcept_eq_ok h).1
  · rw [if_neg hverb] at h
    exact (ofExcept_eq_ok h).1

end Reading

variable [Engine σ] [Sink τ]

/-- The commands on objects leave the stoppoints alone, on both sides. -/
theorem walks_perform_of_not_onStoppoints {command : Command} (h : command.onStoppoints = false) :
    Walks Session.VariableStep (Engine.Asked Request.isValueAccess)
      (perform command : Act σ τ Results) := by
  cases command with
  | insert _ | delete _ | enable _ _ | ignoreHits _ _ | setCondition _ _ | watch _ => cases h
  | createVariable binding => exact walks_createVariable binding
  | deleteVariable name => exact walks_deleteVariable name
  | updateVariables shown name => exact (walks_visitNamed name).bind fun _ => walks_pure _
  | assign name expression => exact walks_assign name expression
  | setFormat name format => exact walks_setFormat name format
  | listChildren shown name window => exact walks_listChildren shown name window
  | evaluate name format => exact walks_evaluate name format
  | pathExpression name => exact walks_pathExpression name
  | showAttributes name => exact walks_showAttributes name
  | exit => exact walks_pure _

/-- The commands on stoppoints leave the objects alone. -/
theorem walks_perform_of_onStoppoints {command : Command} (h : command.onStoppoints = true) :
    Walks Session.StoppointStep Engine.Any (perform command : Act σ τ Results) := by
  cases command with
  | insert insertion => exact walks_insert insertion
  | delete numbers => exact walks_deleteAll .forget numbers
  | enable enabled numbers => exact walks_enableAll (.enable · enabled) numbers
  | ignoreHits number count => exact walks_ignoreHits (.ignore · count) number
  | setCondition number condition => exact walks_setCondition (.condition · condition) number
  | watch w => exact walks_watch w
  | _ => cases h

theorem walks_perform (command : Command) :
    Walks Session.CommandStep Engine.Any (perform command : Act σ τ Results) := by
  cases h : command.onStoppoints with
  | true =>
      exact (walks_perform_of_onStoppoints h).mono (fun _ _ _ => .stoppoints) fun _ _ h => h
  | false =>
      exact (walks_perform_of_not_onStoppoints h).mono (fun _ _ _ => .objects)
        fun _ _ _ => trivial

theorem walks_runVerb (verb : Verb) (arguments : String) :
    Walks Session.CommandStep Engine.Any
      (runVerb verb arguments : Act σ τ (ResultClass × Results)) :=
  (walks_readCommand verb arguments).bind fun command => (walks_perform command).bind fun _ =>
    walks_pure _

section Lines

variable {S : Session → Option Record → Session → Prop} {E : σ → σ → Prop}

/-- A line does what its verb does. -/
theorem walks_runLine
    (hrun : ∀ verb arguments,
      Walks S E (runVerb verb arguments : Act σ τ (ResultClass × Results)))
    (register : Register) (line : Line) :
    Walks S E (runLine register line : Act σ τ ResultRecord) := by
  unfold runLine
  cases register.verb? line.verb with
  | none => exact (walks_say _ _).bind fun _ => walks_pure _
  | some verb =>
      refine (hrun verb line.arguments).attempt.bind fun outcome => ?_
      cases outcome with
      | ok answer => exact walks_pure _
      | error error => exact (walks_say _ _).bind fun _ => walks_pure _

theorem walks_answerLine
    (hrun : ∀ verb arguments,
      Walks S E (runVerb verb arguments : Act σ τ (ResultClass × Results)))
    (register : Register) (text : String) :
    Walks S E (answerLine register text : Act σ τ (Option ResultRecord)) := by
  unfold answerLine
  cases Line.parse text with
  | error malformed => exact (walks_say _ _).bind fun _ => walks_pure _
  | ok line =>
      cases line with
      | none => exact walks_pure _
      | some line => exact (walks_runLine hrun register line).bind fun _ => walks_pure _

end Lines

/-! ## Results -/

/-- The answers to variable commands and to changes of stoppoints mention no
stoppoint; those to insertions mention the one that was recorded. -/
theorem gives_perform (command : Command) :
    Gives Session.Covers (perform command : Act σ τ Results) := by
  have hplain : ∀ {results : Results}, results.Plain →
      Gives Session.Covers (pure results : Act σ τ Results) :=
    fun h => gives_pure fun _ => Session.covers_plain h
  have hnil : Gives Session.Covers (pure [] : Act σ τ Results) := hplain Results.plain_nil
  have hfield : ∀ {name text : String}, Results.isPlainName name →
      Gives Session.Covers (pure [field name text] : Act σ τ Results) :=
    fun h => hplain (by simpa [field] using h)
  cases command with
  | insert i => exact gives_insert i
  | delete numbers => exact gives_bind fun _ => gives_bind fun _ => hnil
  | enable enabled numbers => exact gives_bind fun _ => gives_bind fun _ => hnil
  | ignoreHits number count =>
      exact gives_bind fun _ => gives_bind fun _ => gives_bind fun _ => gives_bind fun _ => hnil
  | setCondition number condition =>
      exact gives_bind fun _ => gives_bind fun _ => gives_bind fun _ => gives_bind fun _ => hnil
  | watch w => exact gives_watch w
  | createVariable b =>
      refine gives_bind fun _ => gives_bind fun _ => gives_bind fun _ => ?_
      have hresults : ∀ v : Variable, v.createResults.Plain := fun v => by
        simp [Variable.createResults, field, numberField]
        decide
      split
      · exact gives_bind fun _ => gives_bind fun v => hplain (hresults v)
      · exact gives_bind fun v => hplain (hresults v)
  | deleteVariable name =>
      refine gives_bind fun s => ?_
      cases s.object? name with
      | some v => exact gives_bind fun _ => hnil
      | none => exact gives_bind fun _ => hnil
  | updateVariables shown name => exact gives_bind fun _ => hplain (by simp [changeList]; decide)
  | assign name expression =>
      exact gives_bind fun _ => gives_bind fun _ => gives_bind fun _ => gives_bind fun _ =>
        hfield (by decide)
  | setFormat name format =>
      exact gives_bind fun _ => gives_bind fun _ => hplain (by simp [changeList]; decide)
  | listChildren shown name window =>
      refine gives_bind fun v => gives_bind fun members => hplain ?_
      by_cases hmembers : members.isEmpty = true <;>
        simp [childList, hmembers, field, numberField] <;> decide
  | evaluate name format =>
      refine gives_bind fun v => ?_
      cases format with
      | none => exact gives_bind fun _ => hfield (by decide)
      | some text =>
          cases hformat : Format.ofName? text with
          | none =>
              simp only [hformat]
              exact gives_throw _
          | some format =>
              simp only [hformat]
              exact gives_bind fun _ => gives_bind fun _ => hfield (by decide)
  | pathExpression name =>
      exact gives_bind fun _ => gives_bind fun _ => gives_bind fun _ => hfield (by decide)
  | showAttributes name => exact gives_bind fun _ => hfield (by decide)
  | exit => exact hnil

theorem gives_runVerb (verb : Verb) (arguments : String) :
    Gives (fun s answer => s.Covers answer.2)
      (runVerb verb arguments : Act σ τ (ResultClass × Results)) :=
  gives_bind fun command => (gives_perform command).bind_pure fun _ _ h => h

omit [Engine σ] [Sink τ] in
/-- An answer that reports an error mentions no stoppoint. -/
theorem covers_error (s : Session) (token : Option String) (message : String) :
    s.Covers (ResultRecord.error token message).results :=
  Session.covers_plain (by simp [ResultRecord.error, field]; decide)

theorem gives_runLine (register : Register) (line : Line) :
    Gives (fun s record => s.Covers record.results)
      (runLine register line : Act σ τ ResultRecord) := by
  unfold runLine
  cases register.verb? line.verb with
  | none => exact gives_bind fun _ => gives_pure fun s => covers_error s _ _
  | some verb =>
      intro a record b h
      obtain ⟨outcome, c, hattempt, h⟩ := bind_eq_ok.mp h
      cases outcome with
      | ok answer =>
          cases h
          exact gives_runVerb verb line.arguments a answer b (ok_of_attempt hattempt)
      | error e =>
          obtain ⟨_, d, -, h⟩ := bind_eq_ok.mp h
          cases h
          exact covers_error _ _ _

/-- The session behind a line knows the stoppoints that the answer mentions. -/
theorem gives_answerLine (register : Register) (text : String) :
    Gives (fun s answer => ∀ record ∈ answer, s.Covers record.results)
      (answerLine register text : Act σ τ (Option ResultRecord)) := by
  have hsome : ∀ {s : Session} {record : ResultRecord}, s.Covers record.results →
      ∀ r ∈ some record, s.Covers r.results := by
    rintro s record h _ ⟨⟩
    exact h
  unfold answerLine
  cases Line.parse text with
  | error malformed =>
      exact gives_bind fun _ => gives_pure fun s => hsome (covers_error s _ _)
  | ok line =>
      cases line with
      | none => exact gives_pure nofun
      | some line => exact (gives_runLine register line).bind_pure fun _ _ => hsome

/-! ## Insertions -/

/-- The creation with which a command begins, if it is an insertion. -/
def begin : Command → Act σ τ (Option Handle)
  | .insert i => do return some (← createBreakpoint i)
  | .watch w => do return some (← createWatchpoint w)
  | _ => pure none

/-- The part of a verb's run up to the creation of a stoppoint. -/
def upToCreation (verb : Verb) (arguments : String) : Act σ τ (Option Handle) := do
  begin (← readCommand verb arguments)

/-! ## Answers -/

section Answers

variable {register : Register} {text : String} {line : Line} {verb : Verb} {a b : Adapter σ τ}

/-- A verb that succeeds is answered with its results. -/
theorem answerLine_of_ok (hline : Line.parse text = .ok (some line))
    (hverb : register.verb? line.verb = some verb) {resultClass : ResultClass} {results : Results}
    (h : runVerb verb line.arguments a = .ok (resultClass, results) b) :
    answerLine register text a = .ok (some ⟨line.token, resultClass, results⟩) b := by
  have hattempt : (runVerb verb line.arguments).attempt a = .ok (.ok (resultClass, results)) b := by
    simp only [attempt, h]
  have hrun : runLine register line a = .ok ⟨line.token, resultClass, results⟩ b := by
    simp only [runLine, hverb]
    exact bind_of_ok hattempt _
  simp only [answerLine, hline]
  exact bind_of_ok hrun _

/-- A verb that fails is answered with its error, and the failure goes into the
journal. -/
theorem answerLine_of_error (hline : Line.parse text = .ok (some line))
    (hverb : register.verb? line.verb = some verb) {e : Error}
    (h : runVerb verb line.arguments a = .error e b) :
    answerLine register text a =
      .ok (some (.error line.token (Error.inCommand line.verb e).message))
        { b with journal := b.journal.say .warn (Error.inCommand line.verb e).message } := by
  have hattempt : (runVerb verb line.arguments).attempt a = .ok (.error e) b := by
    simp only [attempt, h]
  have hrun : runLine register line a =
      .ok (.error line.token (Error.inCommand line.verb e).message)
        { b with journal := b.journal.say .warn (Error.inCommand line.verb e).message } := by
    simp only [runLine, hverb]
    exact bind_of_ok hattempt _
  simp only [answerLine, hline]
  exact bind_of_ok hrun _

/-- Writing an answer changes neither the session nor the engine. -/
theorem after_handleLine {record : ResultRecord}
    (h : answerLine register text a = .ok (some record) b) :
    ((handleLine register text).after a).session = b.session ∧
      ((handleLine register text).after a).engine = b.engine := by
  rw [handleLine, after_bind_of_ok h]
  exact ((walks_emit fun _ => rfl).bind fun _ => walks_pure _).same b

/-- What is written is the answer. -/
theorem answerLine_of_handleLine {record : ResultRecord}
    (h : handleLine register text a = .ok (some record) b) :
    ∃ c, answerLine register text a = .ok (some record) c := by
  obtain ⟨answer, c, hanswer, hemit⟩ := bind_eq_ok.mp h
  cases answer with
  | none => cases hemit
  | some record' =>
      obtain ⟨_, b', -, hb⟩ := bind_eq_ok.mp hemit
      cases hb
      exact ⟨c, hanswer⟩

/-- The answer to a line tells the outcome of its verb, and behind it only the
output and the journal have changed. -/
theorem handleLine_eq_ok {record : ResultRecord} (hline : Line.parse text = .ok (some line))
    (hverb : register.verb? line.verb = some verb)
    (h : handleLine register text a = .ok (some record) b) :
    ∃ c, (b.session = c.session ∧ b.engine = c.engine) ∧
      ((∃ resultClass results, runVerb verb line.arguments a = .ok (resultClass, results) c ∧
          record = ⟨line.token, resultClass, results⟩) ∨
        ∃ e, runVerb verb line.arguments a = .error e c ∧
          record = .error line.token (Error.inCommand line.verb e).message) := by
  obtain ⟨d, hanswer⟩ := answerLine_of_handleLine h
  have hsame := after_handleLine hanswer
  rw [after_of_ok h] at hsame
  cases hrun : runVerb verb line.arguments a with
  | ok answer c =>
      rw [answerLine_of_ok hline hverb hrun] at hanswer
      cases hanswer
      exact ⟨d, hsame, .inl ⟨answer.1, answer.2, rfl, rfl⟩⟩
  | error e c =>
      rw [answerLine_of_error hline hverb hrun] at hanswer
      cases hanswer
      exact ⟨c, hsame, .inr ⟨e, rfl, rfl⟩⟩

end Answers

/-- A line has an answer, and the answer and the adapter behind it pass a check. -/
def answersWith (step : Act σ τ (Option ResultRecord)) (a : Adapter σ τ)
    (check : ResultRecord → Adapter σ τ → Bool) : Bool :=
  match step a with
  | .ok (some record) b => check record b
  | _ => false

omit [Engine σ] [Sink τ] in
theorem exists_of_answersWith {step : Act σ τ (Option ResultRecord)} {a : Adapter σ τ}
    {check : ResultRecord → Adapter σ τ → Bool} (h : answersWith step a check = true) :
    ∃ record b, step a = .ok (some record) b ∧ check record b = true := by
  unfold answersWith at h
  split at h
  · next record b hstep => exact ⟨record, b, hstep, h⟩
  · cases h

/-- The answer belongs to the moves that lead up to it. -/
theorem moves_handleLine {register : Register} {text : String} {a b : Adapter σ τ}
    (h : Adapter.Moves Session.CommandStep Engine.Any a ((answerLine register text).after b)) :
    Adapter.Moves Session.Step Engine.Any a ((handleLine register text).after b) := by
  have hanswer : Adapter.Moves Session.Step Engine.Any a ((answerLine register text).after b) :=
    h.mono (fun _ _ _ => .command) fun _ _ h => h
  cases hline : answerLine register text b with
  | error e c => rwa [handleLine, after_bind_of_error hline, ← after_of_error hline]
  | ok answer c =>
      rw [after_of_ok hline] at hanswer
      rw [handleLine, after_bind_of_ok hline]
      cases answer with
      | none => exact hanswer
      | some record =>
          have hcovers := gives_answerLine register text b _ c hline record rfl
          exact hanswer.trans
            (moves_bind (moves_emit .refl (.answer hcovers)) fun _ d _ => walks_pure _ d)

/-- **Command lines**: whatever a line holds, processing it changes the session
only as commands do, and the answer mentions only stoppoints that the session
then knows. -/
theorem walks_handleLine (register : Register) (text : String) :
    Walks Session.Step Engine.Any
      (handleLine register text : Act σ τ (Option ResultRecord)) :=
  fun a => moves_handleLine (walks_answerLine walks_runVerb register text a)

end Act

end MachineInterface
