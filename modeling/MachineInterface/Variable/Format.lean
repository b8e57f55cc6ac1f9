/-!
# MachineInterface.Variable.Format

The formats in which the engine renders values.
-/

namespace MachineInterface

inductive Format
  | binary
  | octal
  | decimal
  | hexadecimal
  | natural
deriving DecidableEq, Repr

namespace Format

/-- A new session renders values as their type suggests. -/
instance : Inhabited Format := ⟨natural⟩

def name : Format → String
  | binary => "binary"
  | octal => "octal"
  | decimal => "decimal"
  | hexadecimal => "hexadecimal"
  | natural => "natural"

def all : List Format := [binary, octal, decimal, hexadecimal, natural]

/-- Read a format from its exact name. -/
def ofName? (text : String) : Option Format := all.find? (·.name = text)

/-- A format is read from its own name and from no other text. -/
theorem ofName?_eq_some_iff {text : String} {f : Format} :
    ofName? text = some f ↔ text = f.name := by
  constructor
  · intro h
    have := List.find?_some h
    exact (of_decide_eq_true this).symm
  · rintro rfl
    cases f <;> decide

end Format

end MachineInterface
