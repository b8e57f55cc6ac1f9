import MachineInterface.Stoppoint.Handle

/-!
# MachineInterface.Error

Why a line, a notification or a write fails, and the texts that clients and
logs see.  An error says its cause; the wording is in `Error.message` alone.
-/

namespace MachineInterface

/-- Why the engine refuses a request. -/
inductive EngineError
  | noTarget
  | noFrame
  | invalidHandle
  /-- A text of the engine's own. -/
  | message (text : String)
deriving DecidableEq, Repr

def EngineError.text : EngineError → String
  | noTarget => "no target selected"
  | noFrame => "no frame selected"
  | invalidHandle => "invalid engine handle"
  | message text => text

/-- Why the adapter fails. -/
inductive Error
  /-- The sink refuses a line. -/
  | io (text : String)
  /-- A command line or a breakpoint location is not in its grammar. -/
  | malformed (text : String)
  | unknownCommand (verb : String)
  /-- What went wrong inside a command. -/
  | inCommand (verb : String) (cause : Error)
  | missingArgument (name : String)
  | invalidArgument (name value : String)
  /-- One of two arguments is given without the other. -/
  | argumentPair (first second : String)
  | unknownFormat (text : String)
  /-- No stoppoint has this number. -/
  | stoppointNotFound (id : Nat)
  /-- The stoppoint is recorded, but the engine has none for it. -/
  | invalidHandle (id : Nat)
  | variableNotFound (name : String)
  | engine (cause : EngineError)
  | locationNotFound (location : String)
  | evaluation (expression : String)
  /-- The engine speaks of a stoppoint that has no number. -/
  | unresolvedStoppoint (handle : Handle)
  /-- All stoppoint numbers up to the largest are used up. -/
  | idsExhausted (max : Nat)
deriving DecidableEq, Repr

namespace Error

/-- The text that clients and logs see. -/
def message : Error → String
  | io text => text
  | malformed text => s!"malformed command line: {text}"
  | unknownCommand verb => s!"undefined command '{verb}'"
  | inCommand verb cause => s!"command '{verb}': {cause.message}"
  | missingArgument name => s!"argument '{name}' not found"
  | invalidArgument name value => s!"argument '{name}' has an invalid value '{value}'"
  | argumentPair first second =>
    s!"arguments '{first}' and '{second}' must be specified together"
  | unknownFormat text => s!"unknown variable format '{text}'"
  | stoppointNotFound id => s!"breakpoint {id} not found"
  | invalidHandle id => s!"breakpoint {id} has no valid engine handle"
  | variableNotFound name => s!"variable object '{name}' not found"
  | engine cause => cause.text
  | locationNotFound location => s!"breakpoint location '{location}' not found"
  | evaluation expression => s!"could not evaluate expression '{expression}'"
  | unresolvedStoppoint handle =>
    s!"{handle.kind.name} with native id {handle.native} is unknown to the session"
  | idsExhausted max => s!"stoppoint id limit ({max}) exhausted"

/-- Only a failing sink keeps the adapter from serving further commands. -/
def isFatal : Error → Bool
  | io _ => true
  | inCommand _ cause => cause.isFatal
  | _ => false

/-- The error without the commands it is wrapped in. -/
def root : Error → Error
  | inCommand _ cause => cause.root
  | e => e

/-- Wrapping does not change whether an error is fatal. -/
theorem isFatal_iff_root (e : Error) : e.isFatal ↔ ∃ text, e.root = .io text := by
  induction e with
  | inCommand verb cause ih => simpa [isFatal, root] using ih
  | _ => simp [isFatal, root]

end Error

end MachineInterface
