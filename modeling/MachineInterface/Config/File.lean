import MachineInterface.Config
import MachineInterface.Config.Toml

/-!
# MachineInterface.Config.File

Settings from a file.  The file names each setting at most once and nothing
else; settings that it does not name keep their defaults.
-/

namespace MachineInterface.Config

/-- Why settings cannot be loaded. -/
inductive LoadError
  /-- The file that the user names cannot be read. -/
  | unreadable (path : String)
  | malformed
deriving DecidableEq, Repr

def LoadError.message : LoadError → String
  | unreadable path => s!"read configuration file {path}"
  | malformed => "parse configuration"

/-- The name that a value chooses: the value is the name itself, or a table with
the name as its only key and nothing under it. -/
def choice? : Toml.Value → Option String
  | .string name => some name
  | .table _ [(name, value)] => if value.isEmpty then some name else none
  | _ => none

/-- Change the setting of a name, if the value has its type and range. -/
def set (config : Config) (name : String) (value : Toml.Value) : Option Config :=
  match name, value with
  | "max-stoppoint-id", .integer n =>
    (Text.nat32? n).map fun maxStoppointId => { config with maxStoppointId }
  | "thread-group", .string threadGroup => some { config with threadGroup }
  | "prompt", .boolean prompt => some { config with prompt }
  | "log-file", .string path => some { config with logFile := some path }
  | "var-format", value =>
    ((choice? value).bind Format.ofName?).map fun format => { config with format }
  | _, _ => none

/-- Apply settings in order. -/
def setAll (config : Config) : Toml.Entries → Option Config
  | [] => some config
  | (name, value) :: entries => (config.set name value).bind (setAll · entries)

/-- Read settings from TOML. -/
def parse (text : String) : Except LoadError Config :=
  match (Toml.parse text).bind (setAll {}) with
  | some config => .ok config
  | none => .error .malformed

/-- Load settings.  A file that the user names must exist; where none is named
the usual file need not exist. -/
def load (path content : Option String) : Except LoadError Config :=
  match path, content with
  | _, some text => parse text
  | some path, none => .error (.unreadable path)
  | none, none => .ok {}

end MachineInterface.Config
