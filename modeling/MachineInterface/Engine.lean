import MachineInterface.Engine.Notification
import MachineInterface.Error
import MachineInterface.Frame
import MachineInterface.Location
import MachineInterface.Stoppoint.Basic
import MachineInterface.Variable

/-!
# MachineInterface.Engine

Debugging engines.  The adapter never looks at a program itself: it asks an
engine.  An engine is a state and an answer to each request in each state.
The creation of a stoppoint may in addition deliver notifications before it
ends, and goes on when the adapter has handled them.
-/

namespace MachineInterface

/-! ## Requests -/

/-- The memory that a watch expression stands for. -/
structure WatchTarget where
  address : UInt64
  size : Nat
deriving DecidableEq, Repr

/-- The value that an expression stands for. -/
structure ResolvedValue where
  handle : Nat
  /-- The value was computed, not looked up. -/
  evaluated : Bool
deriving DecidableEq, Repr

/-- A member of a value; unnamed members have the empty name. -/
structure Member where
  name : String
  handle : Nat
deriving DecidableEq, Repr

/-- What the adapter asks an engine; requests are answered at once. -/
inductive Request
  | watchTarget (expression : String)
  /-- Does the stoppoint still exist? -/
  | findStoppoint (handle : Handle)
  | deleteStoppoint (handle : Handle)
  | setEnabled (handle : Handle) (enabled : Bool)
  | setCondition (handle : Handle) (condition : Option String)
  | setIgnoreCount (handle : Handle) (count : Nat)
  | setOneShot (handle : Handle) (oneShot : Bool)
  | setThread (handle : Handle) (thread : Option Nat)
  | stoppointState (handle : Handle)
  | site (handle : Handle)
  | threads
  | selectedThread
  | frame (thread level : Nat)
  | resume
  | resolveValue (expression : String) (thread frame : Option Nat)
  | valueInfo (value : Nat) (format : Format)
  /-- Has the value changed since the last question? -/
  | valueChanged (value : Nat)
  | member (value index : Nat)
  | assignValue (value : Nat) (text : String)
deriving DecidableEq, Repr

/-- The type of the answer to a request. -/
@[reducible] def Request.Answer : Request → Type
  | watchTarget _ => Except EngineError WatchTarget
  | findStoppoint _ => Option Handle
  | deleteStoppoint _ => Except EngineError Unit
  | setEnabled .. => Except EngineError Unit
  | setCondition .. => Except EngineError Unit
  | setIgnoreCount .. => Except EngineError Unit
  | setOneShot .. => Except EngineError Unit
  | setThread .. => Except EngineError Unit
  | stoppointState _ => Except EngineError StoppointState
  | site _ => Except EngineError Site
  | threads => List Nat
  | selectedThread => Option Nat
  | frame .. => Option Frame
  | resume => Except EngineError Unit
  | resolveValue .. => Except EngineError ResolvedValue
  | valueInfo .. => Except EngineError ValueInfo
  | valueChanged _ => Bool
  | member .. => Except EngineError Member
  | assignValue .. => Except EngineError Unit

/-- The answer of an engine that has no program. -/
def Request.refused : (request : Request) → request.Answer
  | watchTarget _ | deleteStoppoint _ | setEnabled .. | setCondition .. | setIgnoreCount ..
  | setOneShot .. | setThread .. | stoppointState _ | site _ | resume | resolveValue ..
  | valueInfo .. | member .. | assignValue .. => .error .noTarget
  | findStoppoint _ => none
  | threads => []
  | selectedThread => none
  | frame .. => none
  | valueChanged _ => false

/-! ## Creation -/

/-- A stoppoint to be created. -/
inductive Placement
  | breakpoint (location : Location)
  | watchpoint (target : WatchTarget) (read write : Bool)
deriving DecidableEq, Repr

/-- The course of a creation: it ends with a handle or an error, or it
delivers a notification and goes on with what came of it. -/
inductive Creation (σ : Type)
  | finished (result : Except EngineError Handle) (state : σ)
  | deliver (notification : Notification) (state : σ)
      (resume : Except Error Unit → σ → Creation σ)

/-! ## Engines -/

/-- An engine with states `σ`. -/
class Engine (σ : Type) where
  answer : (request : Request) → σ → request.Answer × σ
  create : Placement → σ → Creation σ

end MachineInterface
