import MachineInterface.Stoppoint.Handle
import MachineInterface.Stoppoint.Site

/-!
# MachineInterface.Stoppoint.Basic

Stoppoints, that is breakpoints and watchpoints, as clients see them.  A
stoppoint has a number of the adapter's own, keeps what the client asked for,
and repeats what the engine last said about it.
-/

namespace MachineInterface

/-- What the engine says about a stoppoint. -/
structure StoppointState where
  enabled : Bool := false
  hitCount : Nat := 0
  ignoreCount : Nat := 0
  condition : Option String := none
  oneShot : Bool := false
  thread : Option Nat := none
deriving DecidableEq, Repr, Inhabited

/-- What a watchpoint watches, and which accesses trigger it. -/
structure Watch where
  expression : String
  read : Bool
  write : Bool
deriving DecidableEq, Repr, Inhabited

namespace Watch

/-- The name of a new watchpoint's result. -/
def resultName (watch : Watch) : String :=
  match watch.read, watch.write with
  | true, true => "hw-awpt"
  | true, false => "hw-rwpt"
  | false, _ => "wpt"

/-- The reason of a stop at the watchpoint. -/
def stopReason (watch : Watch) : String :=
  match watch.read, watch.write with
  | true, true => "access-watchpoint-trigger"
  | true, false => "read-watchpoint-trigger"
  | false, _ => "watchpoint-trigger"

end Watch

/-- A breakpoint or watchpoint with its number. -/
structure Stoppoint where
  handle : Handle
  /-- The number that clients use. -/
  id : Nat
  /-- The stoppoint is deleted when it is hit. -/
  oneShot : Bool := false
  enabled : Bool := true
  /-- The place is not resolved yet. -/
  pending : Bool := false
  ignoreCount : Nat := 0
  condition : Option String := none
  thread : Option Nat := none
  hitCount : Nat := 0
  /-- The place as the client wrote it. -/
  clientLocation : String := ""
  threadGroup : String
  site : Site := {}
  /-- Present for watchpoints. -/
  watch : Option Watch := none
deriving DecidableEq, Repr, Inhabited

namespace Stoppoint

/-- What happens to the stoppoint at a hit. -/
def disposition (s : Stoppoint) : String := if s.oneShot then "del" else "keep"

def fullName (s : Stoppoint) : String := MachineInterface.fullName s.site.directory s.site.file

/-- Where the stoppoint is: the expression of a watchpoint, the place of a
breakpoint. -/
def whereabouts (s : Stoppoint) : Results :=
  match s.watch with
  | some watch => [field "what" watch.expression]
  | none =>
    [field "addr" ((s.site.address.map addressText).getD unknown),
      field "func" (s.site.function.getD unknown),
      field "file" (s.site.file.getD unknown),
      field "fullname" s.fullName,
      field "line" (lineText s.site.line),
      field "original-location" s.clientLocation]

/-- The fields of a stoppoint in records. -/
def results (s : Stoppoint) : Results :=
  [numberField "number" s.id,
    field "type" s.handle.kind.name,
    field "disp" s.disposition,
    field "enabled" (if s.enabled then "y" else "n")] ++
  (if s.pending then [("pending", .list [s.clientLocation])] else []) ++
  [("thread-groups", .list [s.threadGroup]),
    numberField "times" s.hitCount] ++
  (s.thread.map (numberField "thread")).toList ++
  (s.condition.map (field "cond")).toList ++
  (if s.ignoreCount ≠ 0 then [numberField "ignore" s.ignoreCount] else []) ++
  s.whereabouts

/-- The number and the expression of a watchpoint. -/
def watchResults (s : Stoppoint) : Results :=
  [numberField "number" s.id, field "exp" ((s.watch.map (·.expression)).getD unknown)]

end Stoppoint

end MachineInterface
