import MachineInterface.Command.Run

/-!
# MachineInterface.Serve

Serving a client: process the lines of its input one after the other, until
it asks for the exit or the input ends.
-/

namespace MachineInterface

/-- Why serving ends early. -/
inductive ServeError
  /-- A line is not UTF-8. -/
  | unreadable
  /-- The sink refuses an answer. -/
  | unwritable (error : Error)
deriving DecidableEq, Repr

/-- What was being done, and what went wrong. -/
def ServeError.texts : ServeError → List String
  | unreadable => ["read command line", "stream did not contain valid UTF-8"]
  | unwritable error => ["write result record", error.message]

/-- Drop one carriage return at the end. -/
def withoutReturn (line : List UInt8) : List UInt8 :=
  if line.getLast? = some 13 then line.dropLast else line

/-- The lines of an input.  What stands behind the last line end is a line if
it is not empty. -/
def inputLines (bytes : List UInt8) : List (List UInt8) :=
  let parts := bytes.splitOn 10
  parts.dropLast.map withoutReturn ++ (parts.getLast?.filter (· ≠ [])).toList

/-- The text of a line, `none` if it is not UTF-8. -/
def lineText? (line : List UInt8) : Option String := String.fromUTF8? ⟨line.toArray⟩

namespace Act

variable {σ τ : Type} [Engine σ] [Sink τ]

/-- Process lines; `none` stands for a line that is not UTF-8. -/
def serve (register : Register) : List (Option String) → Act σ τ (Except ServeError Unit)
  | [] => do
    say .info "end of input"
    return .ok ()
  | none :: _ => return .error .unreadable
  | some line :: lines => do
    match ← attempt (handleLine register line) with
    | .ok record =>
      if record.any (·.resultClass = .exit) then
        say .info "exit requested"
        return .ok ()
      serve register lines
    | .error error =>
      if error.isFatal then return .error (.unwritable error)
      say .warn error.message
      serve register lines

/-- Serve an input. -/
def serveBytes (register : Register) (bytes : List UInt8) : Act σ τ (Except ServeError Unit) :=
  serve register ((inputLines bytes).map lineText?)

end Act

end MachineInterface
