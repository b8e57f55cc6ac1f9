import MachineInterface.Proofs.Commands

/-!
# MachineInterface.Proofs.Lines

What a line asks for.  A line is read before anything is done, and reading it
looks neither at the session nor at the engine: a line asks for a command
(`Register.command?`), or it is refused.  A line does to the session and to the
engine what its command does (`handleLine_of_command?`), and a line that asks
for no command does nothing (`handleLine_of_no_command`).
-/

namespace MachineInterface

variable {σ τ : Type}

/-- The command that a verb asks for with an argument text. -/
def Verb.read (verb : Verb) (arguments : String) : Except Error Command := do
  let validation := Argument.validate verb.arguments (Text.tokens arguments)
  verb.command (← validation.values) validation.rest

/-- The command that a line asks for, none if the line is blank or refused. -/
def Register.command? (register : Register) (text : String) : Option Command :=
  match Line.parse text with
  | .ok (some line) =>
    match register.verb? line.verb with
    | some verb => (verb.read line.arguments).toOption
    | none => none
  | _ => none

/-- The answer to a line, whether it can be written or not. -/
def Adapter.answer? [Engine σ] [Sink τ] (a : Adapter σ τ) (register : Register) (text : String) :
    Option ResultRecord :=
  match Act.answerLine register text a with
  | .ok answer _ => answer
  | .error _ _ => none

namespace Act

/-- Ignored tokens go into the journal. -/
theorem sayIgnored_apply (rest : List String) (a : Adapter σ τ) :
    ∃ journal, sayIgnored rest a = .ok () { a with journal } := by
  unfold sayIgnored
  split
  · exact ⟨a.journal, rfl⟩
  · exact ⟨_, rfl⟩

/-- Reading a command looks at nothing but the line; only the journal may tell
of it. -/
theorem readCommand_eq (verb : Verb) (arguments : String) (a : Adapter σ τ) :
    ∃ journal, readCommand verb arguments a = match verb.read arguments with
      | .ok command => .ok command { a with journal }
      | .error e => .error e { a with journal } := by
  cases hvalues : (Argument.validate verb.arguments (Text.tokens arguments)).values with
  | error e =>
      have hread : verb.read arguments = .error e := by
        simp only [Verb.read, hvalues, bind, Except.bind]
      refine ⟨a.journal, ?_⟩
      rw [hread, readCommand, hvalues]
      rfl
  | ok values =>
      let rest := (Argument.validate verb.arguments (Text.tokens arguments)).rest
      have hread : verb.read arguments = verb.command values rest := by
        simp only [Verb.read, hvalues, bind, Except.bind, rest]
      have hcommand : ∀ b : Adapter σ τ, ofExcept (verb.command values rest) b =
          match verb.command values rest with
          | .ok command => .ok command b
          | .error e => .error e b := by
        intro b
        cases verb.command values rest <;> rfl
      obtain ⟨journal, hsay⟩ := sayIgnored_apply rest a
      rw [hread, readCommand, bind_of_ok (ofExcept_of_ok hvalues a)]
      by_cases hverb : verb.readsArguments = true
      · rw [if_pos hverb, bind_of_ok hsay]
        exact ⟨journal, hcommand _⟩
      · rw [if_neg hverb]
        exact ⟨a.journal, hcommand a⟩

variable [Engine σ] [Sink τ] {register : Register} {text : String} {command : Command}

/-- What is read of a line, its verb and its command. -/
theorem exists_of_command? (h : register.command? text = some command) :
    ∃ line verb, Line.parse text = .ok (some line) ∧ register.verb? line.verb = some verb ∧
      verb.read line.arguments = .ok command := by
  unfold Register.command? at h
  split at h
  · next line hline =>
    split at h
    · next verb hverb =>
      cases hread : verb.read line.arguments with
      | error e =>
          rw [hread] at h
          cases h
      | ok command' =>
          rw [hread] at h
          cases h
          exact ⟨line, verb, hline, hverb, hread⟩
    · cases h
  · cases h

theorem verb_of_command? {line : Line} {verb : Verb} (hline : Line.parse text = .ok (some line))
    (hverb : register.verb? line.verb = some verb) (h : register.command? text = some command) :
    command.verb = verb := by
  obtain ⟨line', verb', hline', hverb', hread⟩ := exists_of_command? h
  rw [hline] at hline'
  cases hline'
  rw [hverb] at hverb'
  cases hverb'
  unfold Verb.read at hread
  cases hvalues : (Argument.validate verb.arguments (Text.tokens line.arguments)).values with
  | error e => simp [hvalues, bind, Except.bind] at hread
  | ok values =>
      simp only [hvalues, bind, Except.bind] at hread
      exact Verb.verb_of_command hread

/-- A line does what its command does.  Its answer has the token of the line; it is that of
the command if this succeeds, and tells of the failure with the verb if not. -/
theorem line_of_command? (h : register.command? text = some command) (a : Adapter σ τ) :
    ∃ line journal, Line.parse text = .ok (some line) ∧
      let b : Adapter σ τ := { a with journal }
      let c := (handleLine register text).after a
      c.session = ((perform command).after b).session ∧
      c.engine = ((perform command).after b).engine ∧
      a.answer? register text = some (match perform command b with
        | .ok results _ => ⟨line.token, command.resultClass, results⟩
        | .error e _ => .error line.token (Error.inCommand line.verb e).message) := by
  obtain ⟨line, verb, hline, hverb, hcommand⟩ := exists_of_command? h
  obtain ⟨journal, hread⟩ := readCommand_eq verb line.arguments a
  rw [hcommand] at hread
  refine ⟨line, journal, hline, ?_⟩
  intro b c
  cases hperform : perform command b with
  | ok results d =>
      have hrun : runVerb verb line.arguments a = .ok (command.resultClass, results) d :=
        (bind_of_ok hread _).trans (bind_of_ok hperform _)
      have hanswer := answerLine_of_ok hline hverb hrun
      obtain ⟨hsession, hengine⟩ := after_handleLine hanswer
      rw [after_of_ok hperform, Adapter.answer?, hanswer]
      exact ⟨hsession, hengine, rfl⟩
  | error e d =>
      have hrun : runVerb verb line.arguments a = .error e d :=
        (bind_of_ok hread _).trans (bind_of_error hperform _)
      have hanswer := answerLine_of_error hline hverb hrun
      obtain ⟨hsession, hengine⟩ := after_handleLine hanswer
      rw [after_of_error hperform, Adapter.answer?, hanswer]
      exact ⟨hsession, hengine, rfl⟩

/-- A line does what its command does, and its answer is that of the command if
this succeeds, and an error if it fails. -/
theorem handleLine_of_command? (h : register.command? text = some command) (a : Adapter σ τ) :
    ∃ journal, let b : Adapter σ τ := { a with journal }
      let c := (handleLine register text).after a
      c.session = ((perform command).after b).session ∧
      c.engine = ((perform command).after b).engine ∧
      ((∃ results d, perform command b = .ok results d ∧
          ∃ token, a.answer? register text = some ⟨token, command.resultClass, results⟩) ∨
        ∃ e d, perform command b = .error e d ∧
          ∃ token message, a.answer? register text = some (.error token message)) := by
  obtain ⟨line, journal, -, hsession, hengine, hanswer⟩ := line_of_command? h a
  refine ⟨journal, hsession, hengine, ?_⟩
  cases hperform : perform command { a with journal } with
  | ok results d =>
      rw [hperform] at hanswer
      exact .inl ⟨results, d, rfl, line.token, hanswer⟩
  | error e d =>
      rw [hperform] at hanswer
      exact .inr ⟨e, d, rfl, line.token, _, hanswer⟩

/-- A line that asks for no command does nothing, and its answer is an error if
it has one. -/
theorem handleLine_of_no_command (h : register.command? text = none) (a : Adapter σ τ) :
    let b := (handleLine register text).after a
    b.session = a.session ∧ b.engine = a.engine ∧
      ∀ record, a.answer? register text = some record → record.resultClass = .error := by
  have hanswer : (∃ b, answerLine register text a = .ok none b ∧
        b.session = a.session ∧ b.engine = a.engine) ∨
      ∃ token message b, answerLine register text a = .ok (some (.error token message)) b ∧
        b.session = a.session ∧ b.engine = a.engine := by
    cases hline : Line.parse text with
    | error malformed =>
        simp only [answerLine, hline]
        exact .inr ⟨_, _, _, rfl, rfl, rfl⟩
    | ok parsed =>
        cases parsed with
        | none =>
            simp only [answerLine, hline]
            exact .inl ⟨a, rfl, rfl, rfl⟩
        | some line =>
            cases hverb : register.verb? line.verb with
            | none =>
                simp only [answerLine, hline, runLine, hverb]
                exact .inr ⟨_, _, _, rfl, rfl, rfl⟩
            | some verb =>
                simp only [Register.command?, hline, hverb] at h
                obtain ⟨journal, hread⟩ := readCommand_eq verb line.arguments a
                cases hcommand : verb.read line.arguments with
                | ok command =>
                    rw [hcommand] at h
                    cases h
                | error e =>
                    rw [hcommand] at hread
                    have hrun : runVerb verb line.arguments a = .error e { a with journal } :=
                      bind_of_error hread _
                    exact .inr ⟨_, _, _, answerLine_of_error hline hverb hrun, rfl, rfl⟩
  intro b
  obtain ⟨c, hanswer, hsession, hengine⟩ | ⟨token, message, c, hanswer, hsession, hengine⟩ :=
    hanswer
  · have hb : b = c := by
      simp only [b, handleLine, after_bind_of_ok hanswer]
      rfl
    rw [hb, Adapter.answer?, hanswer]
    refine ⟨hsession, hengine, ?_⟩
    rintro record ⟨⟩
  · obtain ⟨hbsession, hbengine⟩ := after_handleLine hanswer
    rw [Adapter.answer?, hanswer]
    refine ⟨hbsession.trans hsession, hbengine.trans hengine, ?_⟩
    rintro record ⟨⟩
    rfl

end Act

end MachineInterface
