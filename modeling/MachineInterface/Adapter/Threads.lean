import MachineInterface.Adapter.Basic

/-!
# MachineInterface.Adapter.Threads

The client's view of the threads.  At each stop the client is told which
threads are new, which are gone, and, if it changed, which one is selected.
-/

namespace MachineInterface.Act

variable {σ τ : Type} [Sink τ]

/-- Write a notification. -/
def notify (kind : AsyncKind) (results : Results) : Act σ τ Unit :=
  emit (.async ⟨kind, results⟩)

/-- The view that the client has. -/
def threadView : Act σ τ ThreadView := fun a => .ok a.threads a

def modifyThreadView (f : ThreadView → ThreadView) : Act σ τ Unit := fun a =>
  .ok () { a with threads := f a.threads }

/-- Tell the client that threads appear or end. -/
def notifyThreads (kind : AsyncKind) (threads : List Nat) : Act σ τ Unit :=
  threads.forM fun thread => do
    notify kind [numberField "id" thread, field "group-id" (← session).threadGroup]

/-- Tell the client about a selection that differs from the last one. -/
def notifySelection (last selected : Option Nat) : Act σ τ Unit :=
  match selected with
  | none => pure ()
  | some thread =>
    if last = some thread then pure ()
    else notify .threadSelected [numberField "id" thread]

/-- Bring the client's view up to date: first the new threads, then those that
are gone, each in ascending order, and then the selection. -/
def syncThreads [Engine σ] : Act σ τ Unit := do
  let live := Std.ExtTreeSet.ofList (← ask .threads)
  let known := (← threadView).known
  notifyThreads .threadCreated (live.toList.filter (· ∉ known))
  notifyThreads .threadExited (known.toList.filter (· ∉ live))
  modifyThreadView fun view => { view with known := live }
  let selected ← ask .selectedThread
  notifySelection (← threadView).selected selected
  modifyThreadView fun view => { view with selected }

/-- Tell the client that all threads it knows have ended. -/
def endThreads : Act σ τ Unit := do
  let known := (← threadView).known
  modifyThreadView fun view => { view with known := ∅ }
  notifyThreads .threadExited known.toList
  modifyThreadView fun view => { view with selected := none }

end MachineInterface.Act
