/-!
# MachineInterface.Argument.PrintValues

Which values a client wants to see in a list of variable objects.
-/

namespace MachineInterface

inductive PrintValues
  | no
  | all
  /-- The values of objects without children. -/
  | simple
deriving DecidableEq, Repr

namespace PrintValues

/-- Without the argument no values are shown. -/
instance : Inhabited PrintValues := ⟨no⟩

/-- A digit or a long flag names the choice. -/
def ofToken? : String → Option PrintValues
  | "0" | "--no-values" => some no
  | "1" | "--all-values" => some all
  | "2" | "--simple-values" => some simple
  | _ => none

/-- The value of an object with so many children is shown. -/
def shows (p : PrintValues) (children : Nat) : Bool :=
  match p with
  | no => false
  | all => true
  | simple => children = 0

end PrintValues

end MachineInterface
