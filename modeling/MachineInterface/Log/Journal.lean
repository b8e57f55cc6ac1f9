import MachineInterface.Log.Level

/-!
# MachineInterface.Log.Journal

The log of an adapter.  A switch silences what the adapter says about its own
work, but not its reports of failures that it passes over.
-/

namespace MachineInterface

/-- An entry of a journal. -/
structure Entry where
  level : Level
  text : String
deriving DecidableEq, Repr

/-- The log of an adapter. -/
structure Journal where
  /-- The switch for what the adapter says about its own work. -/
  enabled : Bool := true
  /-- The most detailed level that is kept. -/
  max : Option Level := none
  entries : Array Entry := #[]
deriving Repr, Inhabited

namespace Journal

/-- Keep an entry if its level is let through. -/
def report (journal : Journal) (level : Level) (text : String) : Journal :=
  if level.allowedBy journal.max then
    { journal with entries := journal.entries.push ⟨level, text⟩ }
  else journal

/-- Keep an entry if the switch is on, too. -/
def say (journal : Journal) (level : Level) (text : String) : Journal :=
  if journal.enabled then journal.report level text else journal

end Journal

end MachineInterface
