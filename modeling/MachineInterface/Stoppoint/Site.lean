import MachineInterface.Record.Value

/-!
# MachineInterface.Stoppoint.Site

Where a stoppoint or a stack frame lies in the program, as far as the engine
knows.
-/

namespace MachineInterface

/-- The first place that a stoppoint was resolved to. -/
structure Site where
  address : Option UInt64 := none
  function : Option String := none
  file : Option String := none
  /-- The directory of the source file. -/
  directory : Option String := none
  line : Option Nat := none
  /-- How many places the stoppoint was resolved to. -/
  locations : Nat := 0
deriving DecidableEq, Repr, Inhabited

/-- A directory without the slashes at its end. -/
def withoutSlashes (directory : String) : String :=
  String.ofList (directory.toList.reverse.dropWhile (· = '/')).reverse

/-- The full name of a source file; a directory alone names no file. -/
def fullName : (directory file : Option String) → String
  | some directory, some file => withoutSlashes directory ++ "/" ++ file
  | none, some file => file
  | _, none => unknown

/-- The text of an optional line number. -/
def lineText (line : Option Nat) : String := (line.map toString).getD unknown

end MachineInterface
