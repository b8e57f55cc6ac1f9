import MachineInterface.Adapter.Changes
import MachineInterface.Adapter.Stops

/-!
# MachineInterface.Adapter.Notify

What the client is told about each notification of the engine.
-/

namespace MachineInterface

namespace Module

/-- The fields that name a module. -/
def nameFields (m : Module) : Results :=
  [field "id" m.targetName, field "target-name" m.targetName, field "host-name" m.hostName]

/-- The fields of a module that comes. -/
def loadedResults (m : Module) : Results :=
  m.nameFields ++
  [field "symbols-loaded" (if m.symbolsLoaded then "1" else "0")] ++
  (m.symbolsPath.map (field "symbols-path")).toList ++
  [field "loaded_addr" ((m.loadAddress.map addressText).getD "-"), numberField "size" m.size]

end Module

namespace Act

variable {σ τ : Type} [Engine σ] [Sink τ]

/-- Handle a notification. -/
def handle : Notification → Act σ τ Unit
  | .running => notify .running [field "thread-id" "all"]
  | .stopped thread reason => do
    syncThreads
    stopped thread reason
  | .suspended => say .debug "process suspended"
  | .exited code => exited code
  | .stoppoint handle event => stoppointChanged handle event
  | .modulesLoaded modules => modules.forM fun m => notify .libraryLoaded m.loadedResults
  | .modulesUnloaded modules => modules.forM fun m => notify .libraryUnloaded m.nameFields

/-- Handle notifications in order until none is left or the sink fails; also
give those that are left.  A notification that fails otherwise is dropped. -/
def handleAll : List Notification → Act σ τ (List Notification)
  | [] => do
    say .info "engine notification stream closed"
    return []
  | n :: rest => do
    match ← attempt (handle n) with
    | .ok () => handleAll rest
    | .error error =>
      if error.isFatal then
        say .error s!"event translation stopped: {error.message}"
        return rest
      say .warn s!"notification dropped: {error.message}"
      handleAll rest

/-- Create a stoppoint; notifications that arrive meanwhile are handled at
once. -/
def create (placement : Placement) : Act σ τ (Except EngineError Handle) := do
  let a ← get
  run (Engine.create placement a.engine)
where
  /-- Follow the course of a creation to its end. -/
  run : Creation σ → Act σ τ (Except EngineError Handle)
    | .finished result engine => do
      modify ({ · with engine })
      return result
    | .deliver notification engine resume => do
      modify ({ · with engine })
      let outcome ← attempt (handle notification)
      run (resume outcome (← get).engine)

end Act

end MachineInterface
