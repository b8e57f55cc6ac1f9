/-!
# MachineInterface.Log.Level

The levels of log entries, from the gravest to the most detailed.
-/

namespace MachineInterface

inductive Level
  | error
  | warn
  | info
  | debug
  | trace
deriving DecidableEq, Repr

namespace Level

def all : List Level := [error, warn, info, debug, trace]

def name : Level → String
  | error => "ERROR"
  | warn => "WARN"
  | info => "INFO"
  | debug => "DEBUG"
  | trace => "TRACE"

/-- More detailed levels have larger ranks; rank 0 stands for no level. -/
def rank : Level → Nat
  | error => 1
  | warn => 2
  | info => 3
  | debug => 4
  | trace => 5

/-- Entries of a level are let through up to a most detailed level, if any. -/
def allowedBy (level : Level) (max : Option Level) : Bool :=
  max.any fun max => level.rank ≤ max.rank

end Level

end MachineInterface
