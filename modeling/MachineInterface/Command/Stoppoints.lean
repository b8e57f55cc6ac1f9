import MachineInterface.Adapter.Notify
import MachineInterface.Command.Basic

/-!
# MachineInterface.Command.Stoppoints

The commands on breakpoints and watchpoints.  A command on several numbers
resolves all of them before it touches any, and a stoppoint is recorded only
after the engine has accepted all that was asked of it.
-/

namespace MachineInterface.Act

variable {σ τ : Type} [Engine σ]

/-- The number and the live handle of a recorded stoppoint. -/
def resolve (argument : String) (n : Int) : Act σ τ (Nat × Handle) := do
  let id ← ofExcept (Verb.narrow argument n)
  match (← session).stoppoint? id with
  | none => throw (.stoppointNotFound id)
  | some p =>
    match ← ask (.findStoppoint p.handle) with
    | none => throw (.invalidHandle id)
    | some handle => return (id, handle)

/-- Resolve a list of numbers, up to the first that fails. -/
def resolveAll (argument : String) : List Int → Act σ τ (List (Nat × Handle))
  | [] => return []
  | n :: numbers => do
    let first ← resolve argument n
    return first :: (← resolveAll argument numbers)

/-- Delete a stoppoint of the engine; a refusal is reported only. -/
def discard (handle : Handle) (topic : String) : Act σ τ Unit := do
  let _ ← orWarn topic (← ask (.deleteStoppoint handle))

/-- Give a new stoppoint a number; without a number it is deleted again. -/
def numberOrDiscard (handle : Handle) : Act σ τ Nat := do
  match (← session).number handle with
  | .ok (id, session) =>
    modifySession fun _ => session
    return id
  | .error error =>
    discard handle "delete stoppoint without protocol id:"
    throw error

/-- Set the condition of a new breakpoint; without one nothing is asked. -/
def configureCondition (handle : Handle) : Option String → Act σ τ Unit
  | some condition => do demand (← ask (.setCondition handle (some condition)))
  | none => pure ()

/-- Set the ignore count of a new breakpoint; for 0 nothing is asked. -/
def configureIgnoreCount (handle : Handle) (count : Nat) : Act σ τ Unit :=
  if count = 0 then pure () else do demand (← ask (.setIgnoreCount handle count))

/-- Set the thread of a new breakpoint; without one nothing is asked. -/
def configureThread (handle : Handle) : Option Nat → Act σ τ Unit
  | some thread => do demand (← ask (.setThread handle (some thread)))
  | none => pure ()

/-- Set up a new breakpoint as it was asked for. -/
def configure (handle : Handle) (i : Insertion) : Act σ τ Unit := do
  demand (← ask (.setEnabled handle i.enabled))
  configureCondition handle i.condition
  configureIgnoreCount handle i.ignoreCount
  configureThread handle i.thread
  demand (← ask (.setOneShot handle i.oneShot))

/-- The record of a new breakpoint. -/
def insertedStoppoint (i : Insertion) (handle : Handle) (id : Nat) (threadGroup : String)
    (state : StoppointState) (site : Site) : Stoppoint where
  handle
  id
  oneShot := i.oneShot
  enabled := state.enabled
  pending := i.pending && site.locations = 0
  ignoreCount := i.ignoreCount
  condition := i.condition
  thread := i.thread
  hitCount := state.hitCount
  clientLocation := i.clientLocation
  threadGroup := (i.threadGroup.map fun n => s!"i{n}").getD threadGroup
  site

/-- The record of a new watchpoint. -/
def watchedStoppoint (watch : Watch) (handle : Handle) (id : Nat) (threadGroup : String)
    (state : StoppointState) : Stoppoint where
  handle
  id
  enabled := state.enabled
  hitCount := state.hitCount
  clientLocation := watch.expression
  threadGroup
  watch := some watch

/-- Create a breakpoint. -/
def createBreakpoint [Sink τ] (i : Insertion) : Act σ τ Handle := do
  demand (← create (.breakpoint i.location))

/-- Create a watchpoint for the memory that its expression stands for. -/
def createWatchpoint [Sink τ] (w : Watch) : Act σ τ Handle := do
  match ← ask (.watchTarget w.expression) with
  | .error _ => throw (.evaluation w.expression)
  | .ok target => demand (← create (.watchpoint target w.read w.write))

/-- Number a new stoppoint and record it as it then is. -/
def enroll (handle : Handle) (stoppoint : Nat → String → StoppointState → Stoppoint) :
    Act σ τ Stoppoint := do
  let id ← numberOrDiscard handle
  let state ← demand (← ask (.stoppointState handle))
  let p := stoppoint id (← session).threadGroup state
  modifySession (·.record p)
  return p

/-- Set up and enroll a new breakpoint; it is deleted again if it has no place
and must have one. -/
def adopt (i : Insertion) (handle : Handle) : Act σ τ Stoppoint := do
  let site ← demand (← ask (.site handle))
  if !i.pending && site.locations = 0 then
    discard handle "delete unresolved breakpoint:"
    throw (.locationNotFound i.clientLocation)
  configure handle i
  enroll handle fun id threadGroup state => insertedStoppoint i handle id threadGroup state site

/-- Insert a breakpoint. -/
def insert [Sink τ] (i : Insertion) : Act σ τ Results := do
  let p ← adopt i (← createBreakpoint i)
  return [("bkpt", .tuple p.results)]

/-- Insert a watchpoint. -/
def watch [Sink τ] (w : Watch) : Act σ τ Results := do
  let handle ← createWatchpoint w
  let p ← enroll handle (watchedStoppoint w handle)
  return [(w.resultName, .tuple p.watchResults)]

/-- Delete stoppoints. -/
def deleteAll (numbers : List Int) : Act σ τ Results := do
  (← resolveAll "breakpoint" numbers).forM fun (_, handle) => do
    demand (← ask (.deleteStoppoint handle))
    modifySession fun s => (s.forget handle).2
  return []

/-- Change the record with a number. -/
def updateStoppoint (id : Nat) (f : Stoppoint → Stoppoint) : Act σ τ Unit :=
  modifySession fun s => (s.update id f).2

/-- Enable or disable stoppoints. -/
def enableAll (enabled : Bool) (numbers : List Int) : Act σ τ Results := do
  (← resolveAll "breakpoint" numbers).forM fun (id, handle) => do
    demand (← ask (.setEnabled handle enabled))
    updateStoppoint id ({ · with enabled })
  return []

/-- Pass over the next hits of a stoppoint. -/
def ignoreHits (number : Int) (count : Nat) : Act σ τ Results := do
  let (id, handle) ← resolve "number" number
  demand (← ask (.setIgnoreCount handle count))
  updateStoppoint id ({ · with ignoreCount := count })
  return []

/-- Set or clear the condition of a stoppoint. -/
def setCondition (number : Int) (condition : Option String) : Act σ τ Results := do
  let (id, handle) ← resolve "number" number
  demand (← ask (.setCondition handle condition))
  updateStoppoint id ({ · with condition })
  return []

end MachineInterface.Act
