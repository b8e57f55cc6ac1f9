import MachineInterface.Variable.Format

/-!
# MachineInterface.Config

The settings of an adapter.
-/

namespace MachineInterface

/-- The settings of an adapter, with their defaults. -/
structure Config where
  /-- The largest stoppoint number. -/
  maxStoppointId : Nat := 0x7fffffff
  /-- The thread group named in records. -/
  threadGroup : String := "i1"
  /-- Prompt the client behind each result and each stop. -/
  prompt : Bool := true
  /-- Logs go to this file instead of the standard error stream. -/
  logFile : Option String := none
  /-- The format of new variable objects. -/
  format : Format := .natural
deriving DecidableEq, Repr, Inhabited

end MachineInterface
