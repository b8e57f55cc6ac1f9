import MachineInterface.Adapter.Threads

/-!
# MachineInterface.Adapter.Changes

What the client is told when the engine reports a change of a stoppoint.  The
engine may report a new stoppoint before or after the command that creates it
has recorded it, so a record that is already there keeps what the command put
into it.
-/

namespace MachineInterface

namespace Stoppoint

/-- A stoppoint with the state that the engine reports again and again. -/
def observed (p : Stoppoint) (state : StoppointState) : Stoppoint :=
  { p with enabled := state.enabled, hitCount := state.hitCount }

/-- A stoppoint with the places that it was resolved to. -/
def placed (p : Stoppoint) (site : Site) : Stoppoint :=
  { p with pending := p.pending && site.locations = 0, site }

/-- A stoppoint as the engine reports it, with its places if they were read. -/
def reported (p : Stoppoint) (state : StoppointState) : Option Site → Stoppoint
  | some site => (p.observed state).placed site
  | none => p.observed state

/-- A stoppoint that the engine has created of its own accord. -/
def ofEngine (handle : Handle) (id : Nat) (threadGroup : String) (state : StoppointState)
    (site : Site) : Stoppoint :=
  let p : Stoppoint := {
    handle
    id
    threadGroup
    site
    enabled := state.enabled
    hitCount := state.hitCount
    ignoreCount := state.ignoreCount
    condition := state.condition
    oneShot := state.oneShot
    thread := state.thread }
  match handle.kind with
  | .breakpoint =>
    let file := site.file.getD ""
    let line := site.line.getD 0
    { p with clientLocation := s!"{file}:{line}" }
  | .watchpoint =>
    let expression := Text.hex 8 (site.address.getD 0).toNat
    { p with
      clientLocation := expression
      watch := some { expression, read := false, write := true } }

@[simp] theorem id_ofEngine (handle : Handle) (id : Nat) (threadGroup : String)
    (state : StoppointState) (site : Site) :
    (ofEngine handle id threadGroup state site).id = id := by
  unfold ofEngine
  cases handle.kind <;> rfl

@[simp] theorem handle_ofEngine (handle : Handle) (id : Nat) (threadGroup : String)
    (state : StoppointState) (site : Site) :
    (ofEngine handle id threadGroup state site).handle = handle := by
  unfold ofEngine
  cases handle.kind <;> rfl

end Stoppoint

namespace Act

variable {σ τ : Type}

/-- The number of a handle that the engine speaks of. -/
def idOf (handle : Handle) : Act σ τ Nat := do
  match (← session).id? handle with
  | some id => pure id
  | none => throw (.unresolvedStoppoint handle)

/-- Give the handle a number. -/
def number (handle : Handle) : Act σ τ Nat := do
  let (id, session) ← ofExcept ((← session).number handle)
  modifySession fun _ => session
  return id

variable [Sink τ]

/-- Tell the client about a stoppoint. -/
def notifyStoppoint (kind : AsyncKind) (p : Stoppoint) : Act σ τ Unit :=
  notify kind [("bkpt", .tuple p.results)]

/-- The engine has a new stoppoint. -/
def stoppointAdded [Engine σ] (handle : Handle) : Act σ τ Unit := do
  let state ← demand (← ask (.stoppointState handle))
  let site ← demand (← ask (.site handle))
  let id ← number handle
  let fresh := Stoppoint.ofEngine handle id (← session).threadGroup state site
  let (p, added) ← inSession (·.merge id fresh (·.observed state))
  notifyStoppoint (if added then .breakpointCreated else .breakpointModified) p

/-- Bring the record of a stoppoint up to date and tell the client. -/
def refreshRecord (handle : Handle) (id : Nat) (state : StoppointState) (site : Option Site) :
    Act σ τ Unit := do
  match ← inSession (·.update id (·.reported state site)) with
  | some p => notifyStoppoint .breakpointModified p
  | none => throw (.unresolvedStoppoint handle)

/-- The engine has changed a stoppoint; `moved` if it may lie elsewhere. -/
def stoppointModified [Engine σ] (handle : Handle) (moved : Bool) : Act σ τ Unit := do
  let id ← idOf handle
  let state ← demand (← ask (.stoppointState handle))
  let site ← if moved then orWarn "read locations:" (← ask (.site handle)) else pure none
  refreshRecord handle id state site

/-- The engine has removed a stoppoint. -/
def stoppointRemoved (handle : Handle) : Act σ τ Unit := do
  match ← inSession (·.forget handle) with
  | some id => notify .breakpointDeleted [numberField "id" id]
  | none => say .debug s!"removed {handle.kind.name} {handle.native} is unknown, ignore"

/-- The engine reports a change of a stoppoint. -/
def stoppointChanged [Engine σ] (handle : Handle) : StoppointEvent → Act σ τ Unit
  | .added => stoppointAdded handle
  | .removed => stoppointRemoved handle
  | .locationsAdded count => do
    let id ← idOf handle
    emit (.stream ⟨.console, s!"{count} location(s) added to breakpoint {id}\n"⟩)
    stoppointModified handle true
  | .locationsResolved => stoppointModified handle true
  | .enabled | .disabled | .commandChanged | .conditionChanged | .ignoreChanged
  | .autoContinueChanged | .threadChanged => stoppointModified handle false

end Act

end MachineInterface
