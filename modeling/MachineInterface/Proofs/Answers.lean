import Mathlib.Data.List.Forall2
import Mathlib.Data.List.TakeWhile
import MachineInterface.Engine.Table
import MachineInterface.Proofs.Commands
import MachineInterface.Serve

/-!
# MachineInterface.Proofs.Answers

Each line that is not blank has exactly one answer, which carries the token of
the line, whatever goes wrong with it.  What the sink is given for the line are
the lines of some notes, then the answer, then the prompt (`exists_response`), and
serving writes these responses in the order of the lines, up to the exit
(`one_answer_per_line`).
-/

namespace MachineInterface

/-! ## What an answer says -/

/-- A text without blanks around it is empty if there are only blanks. -/
theorem Text.trim_eq_nil_iff {cs : List Char} : trim cs = [] ↔ isAllBlank cs = true := by
  have hstart : ∀ ds : List Char, trimStart ds = [] ↔ isAllBlank ds = true := by
    intro ds
    rw [trimStart, List.dropWhile_eq_nil_iff, isAllBlank, List.all_eq_true]
  rw [trim, trimEnd, List.reverse_eq_nil_iff, hstart, isAllBlank, List.all_reverse]
  constructor
  · intro hall
    rw [← hstart]
    cases hcs : trimStart cs with
    | nil => rfl
    | cons c ds =>
        -- The first character that is left is no blank.
        have hblank : isBlank c = false := isBlank_head_trimStart (by rw [hcs]; rfl)
        simp [hcs, hblank] at hall
  · intro hall
    rw [(hstart cs).mpr hall]
    rfl

namespace Line

/-- Exactly the blank lines are passed over. -/
theorem parse_eq_none_iff {text : String} :
    parse text = .ok none ↔ Text.isAllBlank text.toList = true := by
  rw [← Text.trim_eq_nil_iff, parse]
  split
  · next htrim => simp [htrim]
  · next htrim =>
    have hmap : ∀ r : Except Malformed Line, r.map some ≠ .ok none := by
      rintro (_ | _) <;> exact nofun
    exact ⟨fun h => (hmap _ h).elim, fun h => (htrim h).elim⟩

/-- The token of a line: the longest prefix of ASCII digits of the trimmed text,
none if it is empty. -/
def IsToken (text : String) (token : Option String) : Prop :=
  ∃ digits rest, Text.trim text.toList = digits ++ rest ∧ (∀ c ∈ digits, c.isDigit) ∧
    (∀ c ∈ rest.head?, ¬ c.isDigit) ∧
    token = if digits = [] then none else some (String.ofList digits)

theorem isToken_token? (text : String) : IsToken text (token? text) := by
  refine ⟨(Text.trim text.toList).takeWhile Char.isDigit,
    (Text.trim text.toList).dropWhile Char.isDigit, List.takeWhile_append_dropWhile.symm,
    List.all_eq_true.mp List.all_takeWhile, fun c hc => ?_, rfl⟩
  have hnot := List.head?_dropWhile_not Char.isDigit (Text.trim text.toList)
  rw [Option.mem_def.mp hc] at hnot
  simpa using hnot

/-- The line is read, and its verb asks for the exit. -/
def asksExit (text : String) : Bool :=
  match parse text with
  | .ok (some line) => line.verb = "gdb-exit"
  | _ => false

/-- The record answers the line: it carries its token and tells by its class
whether the line asks for the exit, or else whether it is done or fails. -/
structure AnsweredBy (text : String) (record : ResultRecord) : Prop where
  token : IsToken text record.token
  exit_iff : record.resultClass = .exit ↔ asksExit text = true
  resultClass : record.resultClass = .exit ∨ record.resultClass = .done ∨
    record.resultClass = .error
  /-- The class as it is written. -/
  word : record.resultClass.name =
    if asksExit text then "exit" else if record.resultClass = .error then "error" else "done"

theorem answeredBy_of_class {text : String} {record : ResultRecord}
    (htoken : IsToken text record.token)
    (hexit : record.resultClass = .exit ↔ asksExit text = true)
    (hclass : record.resultClass = .exit ∨ record.resultClass = .done ∨
      record.resultClass = .error) : AnsweredBy text record := by
  refine ⟨htoken, hexit, hclass, ?_⟩
  obtain h | h | h := hclass
  · rw [if_pos (hexit.mp h), h, ResultClass.name]
  · rw [if_neg fun hasks => by simp [hexit.mpr hasks] at h, h]
    rfl
  · rw [if_neg fun hasks => by simp [hexit.mpr hasks] at h, h]
    rfl

end Line

/-- Only the verb for it asks for the exit. -/
theorem Verb.command_eq_exit {verb : Verb} {values : Argument.Values verb.arguments}
    {rest : List String} (h : verb.command values rest = .ok .exit) : verb = .gdbExit :=
  (verb_of_command h).symm

variable {σ τ : Type}

/-! ## Sinks and records -/

/-- The answer that a record is, if it is one. -/
def Record.answer? : Record → Option ResultRecord
  | result record => some record
  | _ => none

/-- The answers that an adapter has written so far, in order. -/
def Adapter.answers (a : Adapter σ τ) : List ResultRecord := a.written.filterMap Record.answer?

section Reliable

variable [Sink τ] [Sink.Reliable τ]

/-- A reliable sink accepts the lines of a record. -/
theorem Output.write_ok (output : Output τ) (record : Record) :
    (output.write record).1 = .ok () := by
  have hall : ∀ (records : List Record) (output : Output τ),
      (output.writeAll records).1 = .ok () := by
    intro records
    induction records with
    | nil => exact fun _ => rfl
    | cons record records ih =>
        intro output
        have hline := Sink.Reliable.writeLine_ok record.text output.sink
        rw [writeAll]
        rcases hwrite : Sink.writeLine record.text output.sink with ⟨_ | _, sink⟩
        · rw [hwrite] at hline
          cases hline
        · exact ih _
  have hlines := hall (recordsOf output.prompt record) output
  rw [write]
  rcases hwrite : output.writeAll (recordsOf output.prompt record) with ⟨_ | _, output'⟩
  · rw [hwrite] at hlines
    cases hlines
  · exact Sink.Reliable.flush_ok output'.sink

/-- Each record is written with all its lines, and nothing else happens. -/
theorem Act.emit_ok (record : Record) (a : Adapter σ τ) : ∃ sink journal,
    emit record a = .ok () { a with
      output := { a.output with
        sink, written := a.output.written ++ Output.recordsOf a.output.prompt record }
      journal } := by
  have hok := a.output.write_ok record
  obtain ⟨accepted, sink, -, heq, hall⟩ := a.output.write_eq record
  obtain rfl := hall hok
  rw [emit_apply]
  rcases hwrite : a.output.write record with ⟨_ | _, output⟩
  · rw [hwrite] at hok
    cases hok
  · rw [hwrite] at heq
    obtain rfl := heq
    exact ⟨sink, _, rfl⟩

/-- The sink is given the lines of a record, and nothing else. -/
theorem Act.emit_prints (record : Record) (a : Adapter σ τ) :
    ∃ b, emit record a = .ok () b ∧ a.Prints (Output.recordsOf a.output.prompt record) b := by
  obtain ⟨sink, journal, hemit⟩ := emit_ok record a
  refine ⟨_, hemit, ?_⟩
  have hwalks : Walks (fun _ _ _ => True) (fun _ _ => False) (emit record : Act σ τ Unit) :=
    walks_emit fun _ => trivial
  obtain ⟨records, hprints⟩ := (hwalks a).prints
  rw [after_of_ok hemit] at hprints
  have hwritten : Output.recordsOf a.output.prompt record = records := by
    simpa [Adapter.written] using hprints.written
  subst hwritten
  exact hprints

end Reliable

theorem Session.NotificationStep.answer?_eq {subject : Option Handle} {s t : Session}
    {record : Record} (h : NotificationStep subject s (some record) t) : record.answer? = none := by
  cases h with
  | deleted hid => rfl
  | news hsupports =>
      cases record with
      | result record => exact (hsupports.not_result record rfl).elim
      | async _ | stream _ | prompt => rfl

/-- What is written while a command is performed is no answer. -/
theorem Session.CommandStep.answer?_eq {s t : Session} {record : Record}
    (h : s.CommandStep (some record) t) : record.answer? = none := by
  cases h with
  | objects h => cases h
  | stoppoints h =>
      cases h with
      | notification notification h => exact h.answer?_eq

/-- Performing commands writes no answers. -/
theorem Adapter.answers_of_moves [Sink τ] {a b : Adapter σ τ} {E : σ → σ → Prop}
    (h : Adapter.Moves Session.CommandStep E a b) : b.answers = a.answers := by
  refine h.invariant (I := fun _ written => written.filterMap Record.answer? = a.answers)
    ?step ?prompt rfl
  case step =>
    intro s record t written hwritten hst
    cases record with
    | none => simpa using hwritten
    | some record => simpa [hst.answer?_eq] using hwritten
  case prompt =>
    intro s written hwritten
    rw [List.filterMap_append, hwritten]
    exact List.append_nil _

/-! ## Responses -/

/-- The line reads as an answer: digits, if there are any, and then a caret. -/
def readsAsAnswer (line : String) : Bool :=
  (line.toList.dropWhile Char.isDigit).head? = some '^'

/-- Other records are marked otherwise. -/
theorem Record.readsAsAnswer_text {record : Record} (h : record.answer? = none) :
    readsAsAnswer record.text = false := by
  cases record with
  | result record => cases h
  | async record =>
      obtain ⟨kind, results⟩ := record
      cases kind <;> simp [readsAsAnswer, text, AsyncRecord.text, AsyncKind.mark]
  | stream record =>
      obtain ⟨kind, line⟩ := record
      cases kind <;> simp [readsAsAnswer, text, StreamRecord.line, StreamKind.mark]
  | prompt => decide

/-- What the client is given for one line: some notes, and then the answer. -/
structure Response where
  notes : List Record
  answer : ResultRecord

namespace Response

/-- The lines of a response: those of the notes, then that of the answer, which begins
with its token and its class, and then the prompt, if the client is prompted. -/
def lines (prompt : Bool) (r : Response) : List String :=
  r.notes.map Record.text ++
  [r.answer.token.getD "" ++ "^" ++ r.answer.resultClass.name ++
    (if r.answer.results.isEmpty then "" else "," ++ r.answer.results.text)] ++
  if prompt then ["(gdb)"] else []

/-- The answer of the response answers the line; its notes are no answers, nor are they
read as answers. -/
structure Answers (text : String) (r : Response) : Prop where
  answered : Line.AnsweredBy text r.answer
  notes : ∀ note ∈ r.notes, note.answer? = none ∧ readsAsAnswer note.text = false

/-- The lines of a response are those of its records. -/
theorem lines_eq (prompt : Bool) (r : Response) : r.lines prompt =
    (r.notes ++ Output.recordsOf prompt (.result r.answer)).map Record.text := by
  rw [List.map_append, lines, List.append_assoc]
  cases prompt <;> rfl

end Response

namespace Act

variable [Engine σ] [Sink τ]

/-! ## One line -/

/-- Whatever fails inside a line becomes an answer. -/
theorem answerLine_eq_ok (register : Register) (text : String) (a : Adapter σ τ) :
    ∃ answer b, answerLine register text a = .ok answer b := by
  have hrun : ∀ line : Line, FailsBy (fun _ => False)
      (runLine register line : Act σ τ ResultRecord) := by
    intro line
    unfold runLine
    cases register.verb? line.verb with
    | none => exact failsBy_of_ok fun _ => ⟨_, _, rfl⟩
    | some verb =>
        refine (failsBy_attempt _).bind fun outcome => ?_
        cases outcome <;> exact failsBy_of_ok fun _ => ⟨_, _, rfl⟩
  have hline : FailsBy (fun _ => False)
      (answerLine register text : Act σ τ (Option ResultRecord)) := by
    unfold answerLine
    cases Line.parse text with
    | error malformed => exact failsBy_of_ok fun _ => ⟨_, _, rfl⟩
    | ok line =>
        cases line with
        | none => exact failsBy_of_ok fun _ => ⟨_, _, rfl⟩
        | some line => exact (hrun line).bind_pure _
  cases h : answerLine register text a with
  | ok answer b => exact ⟨answer, b, rfl⟩
  | error e b => exact (hline a e b h).elim

/-- The verb for the exit succeeds and changes nothing. -/
theorem runVerb_gdbExit (arguments : String) (a : Adapter σ τ) :
    runVerb .gdbExit arguments a = .ok (.exit, []) a :=
  rfl

/-- A verb that succeeds is answered with the exit if it asks for it, and
otherwise as done. -/
theorem resultClass_of_runVerb {verb : Verb} {arguments : String} {resultClass : ResultClass}
    {results : Results} {a b : Adapter σ τ}
    (h : runVerb verb arguments a = .ok (resultClass, results) b) :
    (resultClass = .exit ↔ verb = .gdbExit) ∧ (resultClass = .exit ∨ resultClass = .done) := by
  by_cases hverb : verb = .gdbExit
  · subst hverb
    rw [runVerb_gdbExit] at h
    cases h
    exact ⟨by simp, .inl rfl⟩
  · obtain ⟨command, c, hread, h⟩ := bind_eq_ok.mp h
    obtain ⟨_, d, -, h⟩ := bind_eq_ok.mp h
    cases h
    obtain ⟨values, rest, hcommand⟩ := readCommand_eq_ok hread
    have hexit : command ≠ .exit := by
      rintro rfl
      exact hverb (Verb.command_eq_exit hcommand)
    have hdone : command.resultClass = .done := by
      cases command <;> first | rfl | exact (hexit rfl).elim
    rw [hdone]
    exact ⟨by simp [hverb], .inr rfl⟩

/-- The answer to a line at the standard register. -/
theorem answeredBy_of_answerLine {text : String} {record : ResultRecord} {a b : Adapter σ τ}
    (h : answerLine .standard text a = .ok (some record) b) : Line.AnsweredBy text record := by
  have herror : ∀ {token : Option String} {message : String}, Line.IsToken text token →
      Line.asksExit text = false → Line.AnsweredBy text (.error token message) :=
    fun htoken hexit =>
      Line.answeredBy_of_class htoken (by simp [ResultRecord.error, hexit]) (.inr (.inr rfl))
  cases hline : Line.parse text with
  | error malformed =>
      simp only [answerLine, hline] at h
      cases h
      exact herror (Line.isToken_token? text) (by simp [Line.asksExit, hline])
  | ok parsed =>
      cases parsed with
      | none =>
          simp only [answerLine, hline] at h
          cases h
      | some line =>
          have htoken : Line.IsToken text line.token := by
            rw [Line.token_of_parse hline]
            exact Line.isToken_token? text
          have hexit : Line.asksExit text = true ↔
              Register.standard.verb? line.verb = some .gdbExit := by
            rw [Register.verb?_standard_eq_some_iff]
            simp [Line.asksExit, hline, Verb.name]
          cases hverb : Register.standard.verb? line.verb with
          | none =>
              simp only [answerLine, hline, runLine, hverb] at h
              cases h
              exact herror htoken (by simpa [hverb] using hexit)
          | some verb =>
              rw [hverb, Option.some_inj] at hexit
              cases hrun : runVerb verb line.arguments a with
              | ok answer c =>
                  rw [answerLine_of_ok hline hverb hrun] at h
                  cases h
                  obtain ⟨hiff, hclass⟩ := resultClass_of_runVerb hrun
                  exact Line.answeredBy_of_class htoken (hiff.trans hexit.symm)
                    (hclass.elim .inl fun h => .inr (.inl h))
              | error e c =>
                  rw [answerLine_of_error hline hverb hrun] at h
                  cases h
                  refine herror htoken (Bool.eq_false_iff.mpr fun hasks => ?_)
                  obtain rfl := hexit.mp hasks
                  rw [runVerb_gdbExit] at hrun
                  cases hrun

/-- A blank line is passed over. -/
theorem handleLine_blank (register : Register) {text : String}
    (h : Text.isAllBlank text.toList = true) (a : Adapter σ τ) :
    handleLine register text a = .ok none a := by
  have hline : Line.parse text = .ok none := Line.parse_eq_none_iff.mpr h
  have hanswer : answerLine register text a = .ok none a := by
    simp only [answerLine, hline]
    rfl
  exact bind_of_ok hanswer _

/-- A line that is not blank is answered. -/
theorem exists_answer {text : String} (h : Text.isAllBlank text.toList = false)
    (a : Adapter σ τ) : ∃ record b, answerLine .standard text a = .ok (some record) b := by
  obtain ⟨answer, b, hanswer⟩ := answerLine_eq_ok .standard text a
  cases answer with
  | some record => exact ⟨record, b, hanswer⟩
  | none =>
      -- Only a blank line has no answer.
      cases hline : Line.parse text with
      | error malformed =>
          simp only [answerLine, hline] at hanswer
          cases hanswer
      | ok parsed =>
          cases parsed with
          | none =>
              rw [Line.parse_eq_none_iff, h] at hline
              cases hline
          | some line =>
              simp only [answerLine, hline] at hanswer
              obtain ⟨_, c, -, hpure⟩ := bind_eq_ok.mp hanswer
              cases hpure

variable [Sink.Reliable τ]

/-- What is told before the answer is no answer. -/
theorem exists_notes {text : String} {record : ResultRecord} {a b : Adapter σ τ}
    (h : answerLine .standard text a = .ok (some record) b) :
    ∃ notes, a.Prints notes b ∧ ∀ note ∈ notes, note.answer? = none := by
  have hmoves := walks_answerLine walks_runVerb .standard text a
  rw [after_of_ok h] at hmoves
  obtain ⟨notes, hnotes⟩ := hmoves.prints
  refine ⟨notes, hnotes, ?_⟩
  have hanswers := Adapter.answers_of_moves hmoves
  rw [Adapter.answers, hnotes.written, List.filterMap_append] at hanswers
  exact List.filterMap_eq_nil_iff.mp (List.append_right_eq_self.mp hanswers)

/-- A line that is not blank has one response. -/
theorem exists_response {text : String} (h : Text.isAllBlank text.toList = false)
    (a : Adapter σ τ) : ∃ (response : Response) (b : Adapter σ τ),
      handleLine .standard text a = .ok (some response.answer) b ∧
      b.answers = a.answers ++ [response.answer] ∧ response.Answers text ∧
      b.output.prompt = a.output.prompt ∧
      Sink.Takes a.output.sink (response.lines a.output.prompt) b.output.sink := by
  obtain ⟨record, b, hanswer⟩ := exists_answer h a
  obtain ⟨notes, hnotes, hnone⟩ := exists_notes hanswer
  obtain ⟨c, hemit, hc⟩ := emit_prints (.result record) b
  rw [hnotes.prompt] at hc
  have hprints := hnotes.trans hc
  refine ⟨⟨notes, record⟩, c, (bind_of_ok hanswer _).trans (bind_of_ok hemit _), ?_,
    ⟨answeredBy_of_answerLine hanswer, fun note hnote =>
      ⟨hnone note hnote, Record.readsAsAnswer_text (hnone note hnote)⟩⟩, hprints.prompt, ?_⟩
  · have hfirst : notes.filterMap Record.answer? = [] := List.filterMap_eq_nil_iff.mpr hnone
    rw [Adapter.answers, hprints.written, List.filterMap_append, List.filterMap_append, hfirst]
    cases a.output.prompt <;> rfl
  · rw [Response.lines_eq]
    exact hprints.takes

/-! ## Many lines -/

/-- The adapter behind lines that are processed in order. -/
def processAll (register : Register) (a : Adapter σ τ) (lines : List String) : Adapter σ τ :=
  lines.foldl (fun a line => (handleLine register line).after a) a

/-- The answers to lines that are processed in order. -/
def answersTo (register : Register) : Adapter σ τ → List String → List ResultRecord
  | _, [] => []
  | a, line :: lines =>
    match handleLine register line a with
    | .ok answer b => answer.toList ++ answersTo register b lines
    | .error _ b => answersTo register b lines

/-- The lines up to the first that asks for the exit, and this one. -/
def upToExit : List String → List String
  | [] => []
  | line :: lines => if Line.asksExit line then [line] else line :: upToExit lines

/-- The lines that are not blank. -/
def speaking (lines : List String) : List String :=
  lines.filter fun line => !Text.isAllBlank line.toList

/-- What the sink is given while lines are processed are their responses, in order. -/
theorem exists_responses (a : Adapter σ τ) (lines : List String) :
    ∃ responses : List Response, responses.map Response.answer = answersTo .standard a lines ∧
      (processAll .standard a lines).answers = a.answers ++ responses.map Response.answer ∧
      List.Forall₂ Response.Answers (speaking lines) responses ∧
      Sink.Takes a.output.sink (responses.flatMap (Response.lines a.output.prompt))
        (processAll .standard a lines).output.sink := by
  induction lines generalizing a with
  | nil => exact ⟨[], rfl, (List.append_nil _).symm, .nil, .nil _⟩
  | cons line lines ih =>
      cases hblank : Text.isAllBlank line.toList with
      | true =>
          have hline := handleLine_blank .standard hblank a
          obtain ⟨responses, hto, hanswers, hall, htakes⟩ := ih a
          refine ⟨responses, ?_, ?_, ?_, ?_⟩
          · simpa only [answersTo, hline, Option.toList_none, List.nil_append] using hto
          · simpa only [processAll, List.foldl_cons, after_of_ok hline] using hanswers
          · simpa [speaking, hblank] using hall
          · simpa only [processAll, List.foldl_cons, after_of_ok hline] using htakes
      | false =>
          obtain ⟨response, b, hline, hb, hresponse, hprompt, hgiven⟩ := exists_response hblank a
          obtain ⟨responses, hto, hanswers, hall, htakes⟩ := ih b
          rw [hprompt] at htakes
          refine ⟨response :: responses, ?_, ?_, ?_, ?_⟩
          · simp only [answersTo, hline, Option.toList_some, List.map_cons, hto,
              List.singleton_append]
          · rw [processAll, List.foldl_cons, after_of_ok hline, ← processAll, hanswers, hb]
            simp
          · have hspeaking : speaking (line :: lines) = line :: speaking lines := by
              simp [speaking, hblank]
            rw [hspeaking]
            exact .cons hresponse hall
          · rw [processAll, List.foldl_cons, after_of_ok hline, List.flatMap_cons]
            exact hgiven.append htakes

/-- Serving processes the lines up to the exit, and notes that it has ended. -/
theorem serve_eq (lines : List String) (a : Adapter σ τ) :
    ∃ journal, serve .standard (lines.map some) a =
      .ok (.ok ()) { processAll .standard a (upToExit lines) with journal } := by
  induction lines generalizing a with
  | nil => exact ⟨_, rfl⟩
  | cons line lines ih =>
      have hattempt : ∀ {answer : Option ResultRecord} {b : Adapter σ τ},
          handleLine .standard line a = .ok answer b →
          (handleLine .standard line).attempt a = .ok (.ok answer) b := by
        intro answer b h
        simp only [attempt, h]
      cases hblank : Text.isAllBlank line.toList with
      | true =>
          have hline := handleLine_blank .standard hblank a
          have hexit : Line.asksExit line = false := by
            simp [Line.asksExit, Line.parse_eq_none_iff.mpr hblank]
          obtain ⟨journal, hserve⟩ := ih a
          refine ⟨journal, (bind_of_ok (hattempt hline) _).trans ?_⟩
          simpa [upToExit, hexit, processAll, after_of_ok hline] using hserve
      | false =>
          obtain ⟨response, b, hline, -, ⟨hanswer, -⟩, -⟩ := exists_response hblank a
          cases hexit : Line.asksExit line with
          | true =>
              have hclass := hanswer.exit_iff.mpr hexit
              refine ⟨b.journal.say .info "exit requested",
                (bind_of_ok (hattempt hline) _).trans ?_⟩
              simp only [upToExit, hexit, ↓reduceIte, processAll, List.foldl_cons, List.foldl_nil,
                after_of_ok hline, Option.any_some, hclass, decide_true]
              rfl
          | false =>
              have hclass : response.answer.resultClass ≠ .exit := fun h => by
                rw [hanswer.exit_iff, hexit] at h
                cases h
              obtain ⟨journal, hserve⟩ := ih b
              refine ⟨journal, (bind_of_ok (hattempt hline) _).trans ?_⟩
              simpa [upToExit, hexit, processAll, after_of_ok hline, hclass] using hserve

end Act

/-- **One answer for each line.**  At the standard register and a sink that
refuses nothing, whatever the engine and the session: a line of blanks writes
nothing, and every other line writes one answer, which carries the token of
the line and whose class is the exit exactly if the line is read and its verb
asks for it, and otherwise done or error.  The sink is given the lines of the
response and no other: those of notes, which are no answers, then that of the answer,
which begins with the token, a caret and the class, and then the prompt, if the
client is prompted.  Serving processes the lines up to the first that asks for the
exit and no later line, and gives the sink their responses in the order of the
lines.  A transcript grows by the lines that it is given. -/
theorem Act.one_answer_per_line (σ τ : Type) [Engine σ] [Sink τ] [Sink.Reliable τ] :
    (∀ (text : String) (a : Adapter σ τ),
      (Text.isAllBlank text.toList = true → handleLine .standard text a = .ok none a) ∧
      (Text.isAllBlank text.toList = false →
        ∃ (response : Response) (b : Adapter σ τ),
          handleLine .standard text a = .ok (some response.answer) b ∧
          b.answers = a.answers ++ [response.answer] ∧ response.Answers text ∧
          Sink.Takes a.output.sink (response.lines a.output.prompt) b.output.sink)) ∧
    (∀ (lines : List String) (a : Adapter σ τ), ∃ (journal : Journal) (responses : List Response),
      let processed := upToExit lines
      let b := processAll .standard a processed
      serve .standard (lines.map some) a = .ok (.ok ()) { b with journal } ∧
      responses.map Response.answer = answersTo .standard a processed ∧
      b.answers = a.answers ++ responses.map Response.answer ∧
      List.Forall₂ Response.Answers (speaking processed) responses ∧
      Sink.Takes a.output.sink (responses.flatMap (Response.lines a.output.prompt))
        b.output.sink) ∧
    (∀ (sink last : Transcript) (lines : List String), Sink.Takes sink lines last →
      last.text = sink.text ++ String.join (lines.map fun line => line ++ "\n")) := by
  refine ⟨fun text a => ⟨fun h => handleLine_blank .standard h a, fun h => ?_⟩,
    fun lines a => ?_, fun _ _ _ h => h.text⟩
  · obtain ⟨response, b, hline, hanswers, hresponse, -, htakes⟩ := exists_response h a
    exact ⟨response, b, hline, hanswers, hresponse, htakes⟩
  · obtain ⟨journal, hserve⟩ := serve_eq lines a
    obtain ⟨responses, hto, hanswers, hall, htakes⟩ := exists_responses a (upToExit lines)
    exact ⟨journal, responses, hserve, hto, hanswers, hall, htakes⟩

/-- A malformed line has its answer, and nothing is processed behind the exit.  The
transcript shows the responses and nothing else. -/
theorem Table.one_answer_per_line_table :
    let a := Adapter.new {} ({} : Table) ({} : Transcript)
    let lines := ["1-break-insert main", " ", "2-gdb-exit"]
    let shown (responses : List Response) : String :=
      String.join ((responses.flatMap (Response.lines true)).map fun line => line ++ "\n")
    (∃ (response : Response) (b : Adapter Table Transcript),
      Act.handleLine .standard " 12~ " a = .ok (some response.answer) b ∧
      response.Answers " 12~ " ∧ b.output.sink.text = shown [response] ∧
      b.output.sink.text =
        "12^error,msg=\"malformed command line: found end of input expected something else\"\n" ++
        "(gdb)\n") ∧
    ∃ (journal : Journal) (responses : List Response),
      let b := Act.processAll .standard a lines
      Act.serve .standard ((lines ++ ["3-break-delete 1"]).map some) a =
        .ok (.ok ()) { b with journal } ∧
      List.Forall₂ Response.Answers ["1-break-insert main", "2-gdb-exit"] responses ∧
      b.output.sink.text = shown responses := by
  intro a lines shown
  have hlines : Act.upToExit (lines ++ ["3-break-delete 1"]) = lines := by decide +kernel
  have hspeaking : Act.speaking lines = ["1-break-insert main", "2-gdb-exit"] := by
    decide +kernel
  obtain ⟨hline, hserve, htranscript⟩ := Act.one_answer_per_line Table Transcript
  have hempty : ∀ {last : Transcript} {given : List String}, Sink.Takes a.output.sink given last →
      last.text = String.join (given.map fun line => line ++ "\n") := by
    intro last given htakes
    rw [htranscript _ _ _ htakes]
    exact String.empty_append
  constructor
  · obtain ⟨response, b, hok, -, hresponse, htakes⟩ := (hline " 12~ " a).2 (by decide +kernel)
    refine ⟨response, b, hok, hresponse, ?_, ?_⟩
    · have hone : [response].flatMap (Response.lines true) = response.lines true := by simp
      simp only [shown, hone]
      exact hempty htakes
    · rw [← Act.after_of_ok hok]
      decide +kernel
  · obtain ⟨journal, responses, hall⟩ := hserve (lines ++ ["3-break-delete 1"]) a
    rw [hlines] at hall
    obtain ⟨hok, -, -, hresponses, htakes⟩ := hall
    rw [hspeaking] at hresponses
    exact ⟨journal, responses, hok, hresponses, hempty htakes⟩

end MachineInterface
