import MachineInterface.Engine

/-!
# MachineInterface.Engine.Memory

An engine that is nothing but a memory: values at places, and variables that
name some of them.  It has no stoppoints and no program to run.
-/

namespace MachineInterface

/-- A value, and the places of its members. -/
structure Cell where
  text : String
  members : List (String × Nat) := []
  /-- The value has changed since the last question. -/
  changed : Bool := false
deriving DecidableEq, Repr

def Cell.info (c : Cell) : ValueInfo where
  value := c.text
  typeName := "int"
  children := c.members.length
  inScope := true
  thread := 1

/-- Places by the name of a variable, and values by place. -/
structure Memory where
  places : List (String × Nat) := []
  cells : List Cell := []
deriving DecidableEq, Repr

namespace Memory

/-- The value at a place, if there is one. -/
def cell (m : Memory) (place : Nat) : Except EngineError Cell :=
  match m.cells[place]? with
  | some c => .ok c
  | none => .error .invalidHandle

/-- Change the value at a place. -/
def change (m : Memory) (place : Nat) (f : Cell → Cell) : Memory :=
  { m with cells := m.cells.modify place f }

/-- The place that an expression names; other expressions are not evaluated. -/
def resolve (m : Memory) (expression : String) : Except EngineError ResolvedValue :=
  match m.places.lookup expression with
  | some place => .ok { handle := place, evaluated := false }
  | none => .error (.message s!"use of undeclared identifier '{expression}'")

/-- The member with an index of the value at a place. -/
def member (m : Memory) (place index : Nat) : Except EngineError Member := do
  let c ← m.cell place
  match c.members[index]? with
  | some (name, handle) => return { name, handle }
  | none => throw .invalidHandle

instance : Engine Memory where
  answer
    | .resolveValue expression .., m => (m.resolve expression, m)
    | .valueInfo place _, m => ((m.cell place).map Cell.info, m)
    | .valueChanged place, m =>
      (m.cells[place]?.any (·.changed), m.change place ({ · with changed := false }))
    | .member place index, m => (m.member place index, m)
    | .assignValue place text, m =>
      ((m.cell place).map fun _ => (), m.change place ({ · with text }))
    | request, m => (request.refused, m)
  create _ m := .finished (.error .noTarget) m

/-- A memory with two variables. -/
def pair : Memory where
  places := [("x", 0), ("y", 1)]
  cells := [{ text := "10" }, { text := "20" }]

end Memory

end MachineInterface
