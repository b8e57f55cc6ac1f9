import Std.Data.ExtTreeMap
import MachineInterface.Engine

/-!
# MachineInterface.Engine.Table

An engine that is nothing but a table of stoppoints.  Every place exists, every
expression can be watched, and there is no program to run.
-/

namespace MachineInterface

/-- A table of stoppoints, and how many were created so far. -/
structure Table where
  created : Nat := 0
  stoppoints : Std.ExtTreeMap Handle StoppointState := ∅

namespace Table

/-- The state of a stoppoint, if it is in the table. -/
def state? (t : Table) (handle : Handle) : Except EngineError StoppointState :=
  match t.stoppoints[handle]? with
  | some state => .ok state
  | none => .error .invalidHandle

/-- Change the state of a stoppoint. -/
def change (t : Table) (handle : Handle) (f : StoppointState → StoppointState) :
    Except EngineError Unit × Table :=
  match t.state? handle with
  | .ok state => (.ok (), { t with stoppoints := t.stoppoints.insert handle (f state) })
  | .error cause => (.error cause, t)

/-- Delete a stoppoint. -/
def delete (t : Table) (handle : Handle) : Except EngineError Unit × Table :=
  ((t.state? handle).map fun _ => (), { t with stoppoints := t.stoppoints.erase handle })

/-- Enter a new stoppoint. -/
def enter (t : Table) (kind : StoppointKind) : Creation Table :=
  let handle : Handle := ⟨t.created + 1, kind⟩
  .finished (.ok handle) {
    created := t.created + 1
    stoppoints := t.stoppoints.insert handle { enabled := true } }

instance : Engine Table where
  answer
    | .watchTarget _, t => (.ok { address := 0, size := 8 }, t)
    | .findStoppoint handle, t => ((t.state? handle).toOption.map fun _ => handle, t)
    | .deleteStoppoint handle, t => t.delete handle
    | .setEnabled handle enabled, t => t.change handle ({ · with enabled })
    | .setCondition handle condition, t => t.change handle ({ · with condition })
    | .setIgnoreCount handle count, t => t.change handle ({ · with ignoreCount := count })
    | .setOneShot handle oneShot, t => t.change handle ({ · with oneShot })
    | .setThread handle thread, t => t.change handle ({ · with thread })
    | .stoppointState handle, t => (t.state? handle, t)
    | .site handle, t => ((t.state? handle).map fun _ => { locations := 1 }, t)
    | request, t => (request.refused, t)
  create
    | .breakpoint _, t => t.enter .breakpoint
    | .watchpoint .., t => t.enter .watchpoint

end Table

end MachineInterface
