import MachineInterface.Engine

/-!
# MachineInterface.Engine.Evaluator

An engine that evaluates: whatever the expression, each evaluation makes a new
value with one member.  It has no stoppoints and no program to run.
-/

namespace MachineInterface

structure Evaluator where
  /-- How many values were made. -/
  made : Nat := 0
deriving DecidableEq, Repr

namespace Evaluator

/-- Values that were made have even handles, and their members the odd ones
that follow. -/
def isMade (handle : Nat) : Bool := handle % 2 = 0

def info (handle : Nat) : ValueInfo where
  value := toString handle
  typeName := "int"
  children := if isMade handle then 1 else 0
  inScope := true
  thread := 1

def member (handle index : Nat) : Except EngineError Member :=
  if isMade handle ∧ index = 0 then .ok { name := "x", handle := handle + 1 }
  else .error .invalidHandle

instance : Engine Evaluator where
  answer
    | .resolveValue .., e =>
      (.ok { handle := 2 * e.made, evaluated := true }, { made := e.made + 1 })
    | .valueInfo handle _, e => (.ok (info handle), e)
    | .member handle index, e => (member handle index, e)
    | request, e => (request.refused, e)
  create _ e := .finished (.error .noTarget) e

end Evaluator

end MachineInterface
