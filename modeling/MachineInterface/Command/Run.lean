import MachineInterface.Command.Stoppoints
import MachineInterface.Command.Variables
import MachineInterface.Line

/-!
# MachineInterface.Command.Run

Running a command line: look up its verb, read its arguments, perform its
command.  Whatever fails, the line has exactly one answer, which carries its
token.
-/

namespace MachineInterface

open Argument

namespace Verb

/-- All verbs but the exit look at their arguments. -/
def readsArguments (verb : Verb) : Bool := verb ≠ gdbExit

end Verb

namespace Act

variable {σ τ : Type}

/-- Say which tokens no argument has taken. -/
def sayIgnored (rest : List String) : Act σ τ Unit :=
  if rest = [] then pure ()
  else say .debug s!"unconsumed arguments ignored: {Text.joined rest}"

/-- Read the command that a verb asks for from an argument text. -/
def readCommand (verb : Verb) (arguments : String) : Act σ τ Command := do
  let validation := validate verb.arguments (Text.tokens arguments)
  let values ← ofExcept validation.values
  if verb.readsArguments then sayIgnored validation.rest
  ofExcept (verb.command values validation.rest)

variable [Engine σ] [Sink τ]

/-- Perform a command and give the results of its answer. -/
def perform : Command → Act σ τ Results
  | .insert insertion => insert insertion
  | .delete numbers => deleteAll numbers
  | .enable enabled numbers => enableAll enabled numbers
  | .ignoreHits number count => ignoreHits number count
  | .setCondition number condition => setCondition number condition
  | .watch w => watch w
  | .createVariable binding => createVariable binding
  | .deleteVariable name => deleteVariable name
  | .updateVariables shown name => return changeList shown (reportAll (← visitNamed name))
  | .assign name expression => assign name expression
  | .setFormat name format => setFormat name format
  | .listChildren shown name window => listChildren shown name window
  | .evaluate name format => evaluate name format
  | .pathExpression name => pathExpression name
  | .showAttributes name => showAttributes name
  | .exit => return []

/-- Read and perform the command of a verb. -/
def runVerb (verb : Verb) (arguments : String) : Act σ τ (ResultClass × Results) := do
  let command ← readCommand verb arguments
  return (command.resultClass, ← perform command)

/-- The answer to a line whose grammar is right. -/
def runLine (register : Register) (line : Line) : Act σ τ ResultRecord := do
  match register.verb? line.verb with
  | none =>
    let error := Error.unknownCommand line.verb
    say .warn error.message
    return .error line.token error.message
  | some verb =>
    match ← attempt (runVerb verb line.arguments) with
    | .ok (resultClass, results) => return ⟨line.token, resultClass, results⟩
    | .error error =>
      let error := Error.inCommand line.verb error
      say .warn error.message
      return .error line.token error.message

/-- The answer to any line, `none` if it is blank. -/
def answerLine (register : Register) (text : String) : Act σ τ (Option ResultRecord) := do
  match Line.parse text with
  | .ok none => return none
  | .ok (some line) => return some (← runLine register line)
  | .error malformed =>
    let error := malformed.toError
    say .warn error.message
    return some (.error (Line.token? text) error.message)

/-- Process a line: write its answer, and give it. -/
def handleLine (register : Register) (text : String) : Act σ τ (Option ResultRecord) := do
  match ← answerLine register text with
  | none => return none
  | some record =>
    emit (.result record)
    return some record

end Act

end MachineInterface
