import MachineInterface.Record.Value

/-!
# MachineInterface.Record

Output records, one a line: the result of a command, an out-of-band
notification, a stream text, or the prompt.
-/

namespace MachineInterface

/-! ## Results of commands -/

inductive ResultClass
  | done
  | running
  | connected
  | error
  | exit
deriving DecidableEq, Repr

def ResultClass.name : ResultClass → String
  | done => "done"
  | running => "running"
  | connected => "connected"
  | error => "error"
  | exit => "exit"

/-- The answer to a command line. -/
structure ResultRecord where
  /-- The token of the line, by which the client recognises the answer. -/
  token : Option String
  resultClass : ResultClass
  results : Results
deriving Repr

/-! ## Notifications -/

inductive AsyncKind
  | stopped
  | running
  | threadCreated
  | threadExited
  | threadSelected
  | threadGroupExited
  | breakpointCreated
  | breakpointModified
  | breakpointDeleted
  | libraryLoaded
  | libraryUnloaded
deriving DecidableEq, Repr

namespace AsyncKind

def name : AsyncKind → String
  | stopped => "stopped"
  | running => "running"
  | threadCreated => "thread-created"
  | threadExited => "thread-exited"
  | threadSelected => "thread-selected"
  | threadGroupExited => "thread-group-exited"
  | breakpointCreated => "breakpoint-created"
  | breakpointModified => "breakpoint-modified"
  | breakpointDeleted => "breakpoint-deleted"
  | libraryLoaded => "library-loaded"
  | libraryUnloaded => "library-unloaded"

/-- Changes of the execution state are marked `*`, all others `=`. -/
def mark : AsyncKind → String
  | stopped | running => "*"
  | _ => "="

end AsyncKind

/-- An out-of-band notification. -/
structure AsyncRecord where
  kind : AsyncKind
  results : Results
deriving Repr

/-! ## Streams -/

inductive StreamKind
  | console
  | target
  | log
deriving DecidableEq, Repr

def StreamKind.mark : StreamKind → String
  | console => "~"
  | target => "@"
  | log => "&"

/-- A text for the user. -/
structure StreamRecord where
  kind : StreamKind
  text : String
deriving DecidableEq, Repr

/-! ## Lines -/

/-- One line of output. -/
inductive Record
  | result (record : ResultRecord)
  | async (record : AsyncRecord)
  | stream (record : StreamRecord)
  | prompt
deriving Repr

/-- Results behind a comma, nothing if there are none. -/
def Results.trailing (results : Results) : String :=
  if results.isEmpty then "" else "," ++ results.text

namespace ResultRecord

def text (record : ResultRecord) : String :=
  record.token.getD "" ++ "^" ++ record.resultClass.name ++ record.results.trailing

/-- An answer that reports an error. -/
def error (token : Option String) (message : String) : ResultRecord :=
  ⟨token, .error, [field "msg" message]⟩

end ResultRecord

def AsyncRecord.text (record : AsyncRecord) : String :=
  record.kind.mark ++ record.kind.name ++ record.results.trailing

def StreamRecord.line (record : StreamRecord) : String :=
  record.kind.mark ++ Text.cString record.text

namespace Record

/-- The line of a record, without its end. -/
def text : Record → String
  | result record => record.text
  | async record => record.text
  | stream record => record.line
  | prompt => "(gdb)"

/-- The client is prompted behind each result and each stop. -/
def isPrompted : Record → Bool
  | result _ => true
  | async record => record.kind = .stopped
  | _ => false

end Record

end MachineInterface
