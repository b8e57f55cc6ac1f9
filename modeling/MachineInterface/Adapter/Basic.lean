import Std.Data.ExtTreeSet
import MachineInterface.Engine
import MachineInterface.Log.Journal
import MachineInterface.Output
import MachineInterface.Session

/-!
# MachineInterface.Adapter.Basic

The state of an adapter between an engine and a client, and the steps that
all its work consists of: ask the engine, use the session, write a record,
keep a journal.  A step that fails keeps what earlier steps have done.
-/

namespace MachineInterface

/-- What the client was told about the threads of the program. -/
structure ThreadView where
  known : Std.ExtTreeSet Nat := ∅
  /-- The selection at the last stop. -/
  selected : Option Nat := none

instance : Inhabited ThreadView := ⟨{}⟩

/-- An adapter whose engine has states `σ` and whose sink has states `τ`. -/
structure Adapter (σ τ : Type) where
  engine : σ
  session : Session
  threads : ThreadView
  output : Output τ
  journal : Journal

/-- An adapter in which nothing has happened. -/
def Adapter.new (config : Config) (engine : σ) (sink : τ) : Adapter σ τ where
  engine
  session := .new config
  threads := {}
  output := { prompt := config.prompt, sink }
  journal := {}

/-- A step of an adapter. -/
abbrev Act (σ τ : Type) := EStateM Error (Adapter σ τ)

namespace Act

variable {σ τ : Type}

/-- Ask the engine. -/
def ask [Engine σ] (request : Request) : Act σ τ request.Answer := fun a =>
  let (answer, engine) := Engine.answer request a.engine
  .ok answer { a with engine }

/-- Go on with an answer, or fail as the engine does. -/
def demand : Except EngineError α → Act σ τ α
  | .ok value => pure value
  | .error cause => throw (.engine cause)

/-- Go on with a result, or fail with its error. -/
def ofExcept : Except Error α → Act σ τ α
  | .ok value => pure value
  | .error error => throw error

/-- The session. -/
def session : Act σ τ Session := fun a => .ok a.session a

/-- Change the session. -/
def modifySession (f : Session → Session) : Act σ τ Unit := fun a =>
  .ok () { a with session := f a.session }

/-- Change the session and take a value from it. -/
def inSession (f : Session → α × Session) : Act σ τ α := fun a =>
  let (value, session) := f a.session
  .ok value { a with session }

/-- Say something about the adapter's own work. -/
def say (level : Level) (text : String) : Act σ τ Unit := fun a =>
  .ok () { a with journal := a.journal.say level text }

/-- Report a failure that is passed over. -/
def report (level : Level) (text : String) : Act σ τ Unit := fun a =>
  .ok () { a with journal := a.journal.report level text }

/-- Write a record. -/
def emit [Sink τ] (record : Record) : Act σ τ Unit := do
  say .debug ("-> " ++ record.text)
  fun a =>
    match a.output.write record with
    | (.ok (), output) => .ok () { a with output }
    | (.error text, output) => .error (.io text) { a with output }

/-- Take a step and keep its outcome, success or failure. -/
def attempt (step : Act σ τ α) : Act σ τ (Except Error α) := fun a =>
  match step a with
  | .ok value a => .ok (.ok value) a
  | .error error a => .ok (.error error) a

/-- The value of an answer; a refusal is reported as a warning and passed
over. -/
def orWarn (topic : String) : Except EngineError α → Act σ τ (Option α)
  | .ok value => pure (some value)
  | .error cause => do
    report .warn (topic ++ " " ++ cause.text)
    pure none

/-- The value of an outcome; an error is reported for debugging and passed
over. -/
def orMute : Except Error α → Act σ τ (Option α)
  | .ok value => pure (some value)
  | .error error => do
    report .debug error.message
    pure none

end Act

end MachineInterface
