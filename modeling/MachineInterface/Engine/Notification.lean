import MachineInterface.Stoppoint.Handle

/-!
# MachineInterface.Engine.Notification

What an engine tells of its own accord: that the program runs, stops or ends,
that stoppoints change, and that modules come and go.
-/

namespace MachineInterface

/-- Why the program stopped. -/
inductive StopReason
  /-- At the breakpoint with this native number. -/
  | breakpoint (native : Nat)
  /-- At the watchpoint with this native number. -/
  | watchpoint (native : Nat)
  | trace
  | planComplete
  | signal (number : Int)
  | exception (description : String)
  | other
deriving DecidableEq, Repr

/-- What happened to a stoppoint. -/
inductive StoppointEvent
  | added
  | removed
  | locationsAdded (count : Nat)
  | locationsResolved
  | enabled
  | disabled
  | commandChanged
  | conditionChanged
  | ignoreChanged
  | autoContinueChanged
  | threadChanged
deriving DecidableEq, Repr

/-- An executable or a shared library. -/
structure Module where
  targetName : String
  hostName : String
  symbolsLoaded : Bool
  symbolsPath : Option String
  loadAddress : Option UInt64
  size : Nat
deriving DecidableEq, Repr, Inhabited

/-- What an engine tells of its own accord. -/
inductive Notification
  | running
  | stopped (thread : Nat) (reason : StopReason)
  | suspended
  | exited (code : Int)
  | stoppoint (handle : Handle) (event : StoppointEvent)
  | modulesLoaded (modules : List Module)
  | modulesUnloaded (modules : List Module)
deriving DecidableEq, Repr

end MachineInterface
