import MachineInterface.Stoppoint.Site

/-!
# MachineInterface.Frame

Frames of a thread's call stack.
-/

namespace MachineInterface

/-- A stack frame, as far as the engine knows it. -/
structure Frame where
  level : Nat
  address : UInt64
  function : Option String
  file : Option String
  /-- The directory of the source file. -/
  directory : Option String
  line : Option Nat
deriving DecidableEq, Repr, Inhabited

namespace Frame

/-- The fields of a known frame in records. -/
def results (frame : Frame) : Results :=
  [numberField "level" frame.level,
    field "addr" (addressText frame.address),
    field "func" (frame.function.getD unknown),
    field "file" (frame.file.getD unknown),
    field "fullname" (fullName frame.directory frame.file),
    field "line" (lineText frame.line)]

/-- The fields of a frame that the engine does not know. -/
def unknownResults (level : Nat) : Results :=
  [numberField "level" level,
    field "addr" unknown,
    field "func" unknown,
    field "file" unknown,
    field "fullname" unknown,
    field "line" unknown]

/-- The fields of the frame at a level, known or not. -/
def resultsAt (frame : Option Frame) (level : Nat) : Results :=
  match frame with
  | some frame => frame.results
  | none => unknownResults level

end Frame

end MachineInterface
