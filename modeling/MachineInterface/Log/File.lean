import MachineInterface.Log.Filter

/-!
# MachineInterface.Log.File

The log file: a line for each record that the filter lets through.
-/

namespace MachineInterface

/-- A log record, with the module that it comes from if that is known. -/
structure LogRecord where
  level : Level
  target : String
  origin : Option String
  text : String
deriving DecidableEq, Repr

namespace LogRecord

/-- The line of a record in the log file. -/
def line (record : LogRecord) : String :=
  s!"[{record.level.name}] " ++ (record.origin.map (· ++ " ")).getD "" ++ record.text ++ "\n"

end LogRecord

/-- What the log file holds after these records. -/
def logText (filter : Filter) (records : List LogRecord) : String :=
  String.join ((records.filter fun r => filter.isOn r.target r.level).map LogRecord.line)

end MachineInterface
