import MachineInterface.Adapter.Threads
import MachineInterface.Engine.Signal

/-!
# MachineInterface.Adapter.Stops

What the client is told when the program stops or ends.
-/

namespace MachineInterface.Act

variable {σ τ : Type} [Engine σ]

/-- The function in which some engines trap the creation of a thread. -/
def cloneFunction : String := "__pthread_clone"

/-- Bring the hit count of a stoppoint up to date and give its record. -/
def refreshHits (handle : Handle) : Act σ τ (Option Stoppoint) := do
  match (← session).id? handle with
  | none => pure none
  | some id =>
    match ← orWarn "read hit count:" (← ask (.stoppointState handle)) with
    | some state => inSession (·.update id fun p => { p with hitCount := state.hitCount })
    | none => return (← session).stoppoint? id

/-- The reason of a stop at a breakpoint. -/
def breakpointReason (native : Nat) (frame : Results) : Act σ τ Results := do
  match ← refreshHits ⟨native, .breakpoint⟩ with
  | some p =>
    return [field "reason" "breakpoint-hit", field "disp" p.disposition,
      numberField "bkptno" p.id, ("frame", .tuple frame)]
  | none =>
    say .warn s!"hit of unknown breakpoint {native}"
    return [("frame", .tuple frame)]

/-- The reason of a stop at a watchpoint. -/
def watchpointReason (native : Nat) (frame : Results) : Act σ τ Results := do
  match ← refreshHits ⟨native, .watchpoint⟩ with
  | some p =>
    return [field "reason" ((p.watch.map Watch.stopReason).getD "watchpoint-trigger"),
      ("wpt", .tuple p.watchResults), ("frame", .tuple frame)]
  | none =>
    say .warn s!"hit of unknown watchpoint {native}"
    return [("frame", .tuple frame)]

/-- The fields that name a signal. -/
def signalFields (number : Int) : Results :=
  match Signal.name? number with
  | some name =>
    field "signal-name" name :: ((Signal.meaning? name).map (field "signal-meaning")).toList
  | none => [field "signal" (toString number)]

/-- The trap of a new thread, which is no stop for the client. -/
def isCloneTrap (number : Int) (frame : Option Frame) : Bool :=
  number = Signal.trap && (frame.bind (·.function)) = some cloneFunction

/-- The fields of a stop that say why; `none` if the program goes on. -/
def reasonFields (reason : StopReason) (frame : Option Frame) : Act σ τ (Option Results) :=
  let results := Frame.resultsAt frame 0
  match reason with
  | .breakpoint native => some <$> breakpointReason native results
  | .watchpoint native => some <$> watchpointReason native results
  | .trace | .planComplete =>
    match frame with
    | some _ => return some [field "reason" "end-stepping-range", ("frame", .tuple results)]
    | none => return some [field "reason" "trace"]
  | .signal number => do
    if isCloneTrap number frame then
      say .debug "thread creation trap, resume"
      demand (← ask .resume)
      return none
    return some (field "reason" "signal-received" :: signalFields number ++
      [("frame", .tuple results)])
  | .exception description =>
    return some [field "reason" "exception-received", field "exception" description,
      ("frame", .tuple results)]
  | .other => return some [("frame", .tuple results)]

/-- Tell the client that a thread stopped the program. -/
def stopped [Sink τ] (thread : Nat) (reason : StopReason) : Act σ τ Unit := do
  let frame ← ask (.frame thread 0)
  match ← reasonFields reason frame with
  | none => pure ()
  | some fields =>
    notify .stopped (fields ++
      [numberField "thread-id" thread, field "stopped-threads" "all"])

omit [Engine σ] in
/-- Tell the client that the program has ended. -/
def exited [Sink τ] (code : Int) : Act σ τ Unit := do
  endThreads
  notify .threadGroupExited
    [field "id" (← session).threadGroup, field "exit-code" (toString code)]
  notify .stopped
    (if code = 0 then [field "reason" "exited-normally"]
      else [field "reason" "exited", field "exit-code" (toString code)])

end MachineInterface.Act
